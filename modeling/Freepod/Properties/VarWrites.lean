import Freepod.Platform.Sessions
import Freepod.Runs.VarHeads

/-!
# What a write of the vars leaves in head

`write_vars` works on plaintexts: it plans the head it is to leave, and then inserts a row for each
key that does not show its part of the plan already.

* `writeVars_written`: an accepted write leaves the head its entries ask for.
* `write_computes_head`: the same of the transaction around it, which stores nothing when it refuses.
-/

namespace Freepod
open Base

variable {cfg : Settings} {c : Context} {vars : Table DeploymentVar} {id : DeploymentId}
  {current : List DeploymentVar} {declared : Fields} {plan plan' : VarPlan} {k : String}

/-- the entries of a body: an object has each of its keys once -/
structure VarEntries where
  list : List (String × VarWrite)
  unique : (list.map Prod.fst).Nodup

/-- the text a key is to have after a write, by the text it had and its entry in the body -/
def writtenText (replace : Bool) (old : Option String) : Option VarWrite → Option String
  | none => if replace then none else old
  | some entry =>
    match entry.value with
    | none => old
    | some value => value

/-! ## The plan -/

/-- the plans say the same of the key -/
def SamePlan (plan plan' : VarPlan) (k : String) : Prop :=
  plan'.desired.lookup k = plan.desired.lookup k ∧ (k ∈ plan'.deletions ↔ k ∈ plan.deletions)

theorem SamePlan.refl (plan : VarPlan) (k : String) : SamePlan plan plan k := ⟨rfl, .rfl⟩

theorem SamePlan.trans {plan'' : VarPlan} (h : SamePlan plan plan' k)
    (h' : SamePlan plan' plan'' k) : SamePlan plan plan'' k :=
  ⟨h'.1.trans h.1, h'.2.trans h.2⟩

theorem samePlan_setKey {key : String} {target : String × Bool} (h : k ≠ key) :
    SamePlan plan { plan with desired := setKey key target plan.desired } k := by
  refine ⟨?_, .rfl⟩
  show (setKey key target plan.desired).lookup k = _
  rw [lookup_setKey, if_neg h]

theorem samePlan_delete {key : String} (h : k ≠ key) :
    SamePlan plan { plan with deletions := plan.deletions ++ [key] } k := by
  refine ⟨rfl, ?_⟩
  show k ∈ plan.deletions ++ [key] ↔ _
  rw [List.mem_append, List.mem_singleton]
  exact ⟨fun hk => hk.resolve_right h, .inl⟩

/-- the plan says nothing of the key -/
def Unplanned (plan : VarPlan) (k : String) : Prop :=
  plan.desired.lookup k = none ∧ k ∉ plan.deletions

theorem Unplanned.same (h : Unplanned plan k) (hs : SamePlan plan plan' k) : Unplanned plan' k :=
  ⟨hs.1.trans h.1, fun hk => h.2 (hs.2.mp hk)⟩

/-- the plan deletes the key -/
def Deleted (plan : VarPlan) (k : String) : Prop :=
  plan.desired.lookup k = none ∧ k ∈ plan.deletions

theorem Deleted.same (h : Deleted plan k) (hs : SamePlan plan plan' k) : Deleted plan' k :=
  ⟨hs.1.trans h.1, hs.2.mpr h.2⟩

/-- the plan gives the key this text and sensitivity -/
def Sets (plan : VarPlan) (k : String) (target : String × Bool) : Prop :=
  plan.desired.lookup k = some target ∧ k ∉ plan.deletions

theorem Sets.same {target : String × Bool} (h : Sets plan k target)
    (hs : SamePlan plan plan' k) : Sets plan' k target :=
  ⟨hs.1.trans h.1, fun hk => h.2 (hs.2.mp hk)⟩

theorem sets_setKey {target : String × Bool} (h : k ∉ plan.deletions) :
    Sets { plan with desired := setKey k target plan.desired } k target := by
  refine ⟨?_, h⟩
  show (setKey k target plan.desired).lookup k = _
  rw [lookup_setKey, if_pos rfl]

theorem deleted_delete (h : plan.desired.lookup k = none) :
    Deleted { plan with deletions := plan.deletions ++ [k] } k :=
  ⟨h, List.mem_append_right _ List.mem_cons_self⟩

/-- the plan has what an entry asks for its key -/
def PlansEntry (current : List DeploymentVar) (declared : Fields) (plan : VarPlan) (k : String)
    (entry : VarWrite) : Prop :=
  entry.value = some none ∧ Deleted plan k ∨
    entry.value ≠ some none ∧ ∃ target, Sets plan k target ∧
      entry.text (current.find? fun v => v.key = k) = some target.1 ∧
      resolveSensitive k entry declared (current.find? fun v => v.key = k) = .ok target.2

theorem PlansEntry.same {entry : VarWrite} (h : PlansEntry current declared plan k entry)
    (hs : SamePlan plan plan' k) : PlansEntry current declared plan' k entry := by
  rcases h with ⟨hvalue, hd⟩ | ⟨hvalue, target, hset, htext, hflag⟩
  · exact .inl ⟨hvalue, hd.same hs⟩
  · exact .inr ⟨hvalue, target, hset.same hs, htext, hflag⟩

/-- one entry plans its own key and no other -/
theorem planEntry_plans {e : String × VarWrite} (hfresh : Unplanned plan e.1)
    (h : planEntry cfg c current declared plan e = .ok plan') :
    PlansEntry current declared plan' e.1 e.2 ∧ ∀ k, k ≠ e.1 → SamePlan plan plan' k := by
  obtain ⟨key, entry⟩ := e
  simp only [planEntry, bind_eq_ok] at h
  obtain ⟨-, -, h⟩ := h
  cases hvalue : entry.value with
  | none =>
    simp only [hvalue, bind_eq_ok, found_eq_ok, require_eq_ok, pure_eq_ok] at h
    obtain ⟨row, hrow, value, hplain, sensitive, hs, -, -, rfl⟩ := h
    have hne : entry.value ≠ some none := by
      rw [hvalue]
      simp
    refine ⟨.inr ⟨hne, (value, sensitive), sets_setKey hfresh.2, ?_, hs⟩,
      fun k hk => samePlan_setKey hk⟩
    rw [VarWrite.text, hvalue, hrow]
    exact text_of_plaintext hplain
  | some value =>
    cases value with
    | none =>
      simp only [hvalue, pure_eq_ok] at h
      obtain rfl := h
      exact ⟨.inl ⟨hvalue, deleted_delete hfresh.1⟩, fun k hk => samePlan_delete hk⟩
    | some value =>
      simp only [hvalue, bind_eq_ok, pure_eq_ok] at h
      obtain ⟨sensitive, hs, rfl⟩ := h
      have hne : entry.value ≠ some none := by
        rw [hvalue]
        simp
      refine ⟨.inr ⟨hne, (value, sensitive), sets_setKey hfresh.2, ?_, hs⟩,
        fun k hk => samePlan_setKey hk⟩
      rw [VarWrite.text, hvalue]

/-- the entries plan their own keys and no others -/
theorem planEntries {entries : List (String × VarWrite)} (hunique : (entries.map Prod.fst).Nodup)
    (hfresh : ∀ k ∈ entries.map Prod.fst, Unplanned plan k)
    (h : entries.foldlM (planEntry cfg c current declared) plan = .ok plan') :
    (∀ e ∈ entries, PlansEntry current declared plan' e.1 e.2) ∧
      ∀ k, k ∉ entries.map Prod.fst → SamePlan plan plan' k := by
  induction entries generalizing plan with
  | nil =>
    cases h
    exact ⟨fun e he => absurd he List.not_mem_nil, fun k _ => .refl plan' k⟩
  | cons e entries ih =>
    rw [List.foldlM_cons, bind_eq_ok] at h
    obtain ⟨plan₁, h₁, h⟩ := h
    rw [List.map_cons, List.nodup_cons] at hunique
    obtain ⟨hplans, hothers⟩ := planEntry_plans (hfresh e.1 List.mem_cons_self) h₁
    have hfresh₁ : ∀ k ∈ entries.map Prod.fst, Unplanned plan₁ k := fun k hk =>
      (hfresh k (List.mem_cons_of_mem _ hk)).same (hothers k fun he => hunique.1 (he ▸ hk))
    obtain ⟨hall, hsame⟩ := ih hunique.2 hfresh₁ h
    refine ⟨fun x hx => ?_, fun k hk => ?_⟩
    · rcases List.mem_cons.mp hx with rfl | hx
      · exact hplans.same (hsame x.1 hunique.1)
      · exact hall x hx
    · rw [List.map_cons, List.mem_cons, not_or] at hk
      exact (hothers k hk.1).trans (hsame k hk.2)

/-- the plan has what becomes of a row of head: what it had already, or a deletion when the write
replaces, or the row as it is -/
def PlansRow (replace : Bool) (plan plan' : VarPlan) (row : DeploymentVar) : Prop :=
  ¬ Unplanned plan row.key ∧ SamePlan plan plan' row.key ∨
    Unplanned plan row.key ∧ (replace = true ∧ Deleted plan' row.key ∨
      replace = false ∧ ∃ target, row.shown = some target ∧ Sets plan' row.key target)

theorem planRest_plans {replace : Bool} {row : DeploymentVar}
    (h : planRest cfg replace plan row = .ok plan') :
    PlansRow replace plan plan' row ∧ ∀ k, k ≠ row.key → SamePlan plan plan' k := by
  unfold planRest at h
  split at h
  · rename_i hplanned
    cases h
    refine ⟨.inl ⟨fun hu => ?_, .refl plan row.key⟩, fun k _ => .refl plan k⟩
    rcases hplanned with hsome | hmem
    · rw [hu.1] at hsome
      cases hsome
    · exact hu.2 hmem
  · rename_i hplanned
    rw [not_or, Option.not_isSome_iff_eq_none] at hplanned
    split at h
    · rename_i hreplace
      cases h
      exact ⟨.inr ⟨hplanned, .inl ⟨hreplace, deleted_delete hplanned.1⟩⟩,
        fun k hk => samePlan_delete hk⟩
    · rename_i hreplace
      simp only [bind_eq_ok, pure_eq_ok] at h
      obtain ⟨value, hplain, rfl⟩ := h
      exact ⟨.inr ⟨hplanned, .inr ⟨by simpa using hreplace, _, shown_of_plaintext hplain,
        sets_setKey hplanned.2⟩⟩, fun k hk => samePlan_setKey hk⟩

/-- the rows of head plan their own keys and no others -/
theorem planRests {replace : Bool} {rows : List DeploymentVar}
    (hunique : (rows.map DeploymentVar.key).Nodup)
    (h : rows.foldlM (planRest cfg replace) plan = .ok plan') :
    (∀ row ∈ rows, PlansRow replace plan plan' row) ∧
      ∀ k, k ∉ rows.map DeploymentVar.key → SamePlan plan plan' k := by
  induction rows generalizing plan with
  | nil =>
    cases h
    exact ⟨fun row hrow => absurd hrow List.not_mem_nil, fun k _ => .refl plan' k⟩
  | cons row rows ih =>
    rw [List.foldlM_cons, bind_eq_ok] at h
    obtain ⟨plan₁, h₁, h⟩ := h
    rw [List.map_cons, List.nodup_cons] at hunique
    obtain ⟨hplans, hothers⟩ := planRest_plans h₁
    obtain ⟨hall, hsame⟩ := ih hunique.2 h
    refine ⟨fun x hx => ?_, fun k hk => ?_⟩
    · rcases List.mem_cons.mp hx with rfl | hx
      · have hown := hsame x.key hunique.1
        rcases hplans with ⟨hp, hs⟩ | ⟨hu, ⟨hr, hd⟩ | ⟨hr, target, hshown, hset⟩⟩
        · exact .inl ⟨hp, hs.trans hown⟩
        · exact .inr ⟨hu, .inl ⟨hr, hd.same hown⟩⟩
        · exact .inr ⟨hu, .inr ⟨hr, target, hshown, hset.same hown⟩⟩
      · have hne : x.key ≠ row.key := fun he =>
          hunique.1 (he ▸ List.mem_map_of_mem (f := DeploymentVar.key) hx)
        have hfirst := hothers x.key hne
        have hunplanned : Unplanned plan₁ x.key ↔ Unplanned plan x.key :=
          ⟨fun hu => ⟨hfirst.1.symm.trans hu.1, fun hk => hu.2 (hfirst.2.mpr hk)⟩,
            fun hu => hu.same hfirst⟩
        rcases hall x hx with ⟨hp, hs⟩ | ⟨hu, hrest⟩
        · exact .inl ⟨fun hu => hp (hunplanned.mpr hu), hfirst.trans hs⟩
        · exact .inr ⟨hunplanned.mp hu, hrest⟩
    · rw [List.map_cons, List.mem_cons, not_or] at hk
      exact (hothers k hk.1).trans (hsame k hk.2)

/-! ## The planned head -/

theorem nodup_planEntry {e : String × VarWrite} (hp : (plan.desired.map Prod.fst).Nodup)
    (h : planEntry cfg c current declared plan e = .ok plan') :
    (plan'.desired.map Prod.fst).Nodup := by
  obtain ⟨key, entry⟩ := e
  simp only [planEntry, bind_eq_ok] at h
  obtain ⟨-, -, h⟩ := h
  cases hvalue : entry.value with
  | none =>
    simp only [hvalue, bind_eq_ok, found_eq_ok, require_eq_ok, pure_eq_ok] at h
    obtain ⟨row, -, value, -, sensitive, -, -, -, rfl⟩ := h
    exact nodup_setKey hp
  | some value =>
    cases value with
    | none =>
      simp only [hvalue, pure_eq_ok] at h
      obtain rfl := h
      exact hp
    | some value =>
      simp only [hvalue, bind_eq_ok, pure_eq_ok] at h
      obtain ⟨sensitive, -, rfl⟩ := h
      exact nodup_setKey hp

theorem nodup_planRest {replace : Bool} {row : DeploymentVar}
    (hp : (plan.desired.map Prod.fst).Nodup) (h : planRest cfg replace plan row = .ok plan') :
    (plan'.desired.map Prod.fst).Nodup := by
  unfold planRest at h
  split at h
  · cases h
    exact hp
  · split at h
    · cases h
      exact hp
    · simp only [bind_eq_ok, pure_eq_ok] at h
      obtain ⟨value, -, rfl⟩ := h
      exact nodup_setKey hp

/-- what an accepted plan says of each key, by the entry and the row of head that name it -/
structure Planned (declared : Fields) (vars : Table DeploymentVar) (id : DeploymentId)
    (entries : List (String × VarWrite)) (replace : Bool) (plan : VarPlan) : Prop where
  unique : (plan.desired.map Prod.fst).Nodup
  entry : ∀ k entry, entries.lookup k = some entry →
    PlansEntry (head vars id) declared plan k entry
  row : ∀ k row, entries.lookup k = none → headRow vars id k = some row →
    replace = true ∧ Deleted plan k ∨
      replace = false ∧ ∃ target, row.shown = some target ∧ Sets plan k target
  rest : ∀ k, entries.lookup k = none → headRow vars id k = none → Unplanned plan k

theorem planned_of_planVars {d : Deployment} {entries : List (String × VarWrite)} {replace : Bool}
    {documentError : String → Refusal} (hunique : (entries.map Prod.fst).Nodup)
    (h : planVars cfg c vars d entries replace documentError = .ok plan) :
    Planned (declaredVars c d.desiredTemplateId) vars d.id entries replace plan := by
  simp only [planVars, bind_eq_ok, found_eq_ok] at h
  obtain ⟨template, htemplate, -, -, plan₁, h₁, plan₂, h₂, -, -, h⟩ := h
  have h₁ : entries.foldlM (planEntry cfg c (head vars d.id)
      (declaredVars c d.desiredTemplateId)) ⟨[], []⟩ = .ok plan₁ := by
    rw [declaredVars_eq htemplate]
    exact h₁
  have hplan : plan₂ = plan := by
    split at h
    · cases h
    · simp only [bind_eq_ok, pure_eq_ok] at h
      obtain ⟨-, -, h⟩ := h
      exact h
  subst hplan
  have hempty : ∀ k, Unplanned ⟨[], []⟩ k := fun k => ⟨rfl, List.not_mem_nil⟩
  obtain ⟨hentries, hothers⟩ := planEntries hunique (fun k _ => hempty k) h₁
  obtain ⟨hrows, hrest⟩ := planRests (nodup_head vars d.id) h₂
  have hunplanned : ∀ k, entries.lookup k = none → Unplanned plan₁ k := fun k hk =>
    (hempty k).same (hothers k (lookup_eq_none_iff_notMem.mp hk))
  have hnodup₀ : ((⟨[], []⟩ : VarPlan).desired.map Prod.fst).Nodup := List.nodup_nil
  have hnodup₁ : (plan₁.desired.map Prod.fst).Nodup :=
    foldlM_ok (P := fun p : VarPlan => (p.desired.map Prod.fst).Nodup)
      (fun _ _ _ hp h => nodup_planEntry hp h) hnodup₀ h₁
  refine ⟨foldlM_ok (P := fun p : VarPlan => (p.desired.map Prod.fst).Nodup)
    (fun _ _ _ hp h => nodup_planRest hp h) hnodup₁ h₂, ?_, ?_, ?_⟩
  · intro k entry hk
    have hplans := hentries (k, entry) ((lookup_eq_some_iff_mem hunique).mp hk)
    have hplanned : ¬ Unplanned plan₁ k := by
      rintro ⟨hnone, hnot⟩
      rcases hplans with ⟨-, hd⟩ | ⟨-, target, hset, -⟩
      · exact hnot hd.2
      · have hset : plan₁.desired.lookup k = some target := hset.1
        rw [hnone] at hset
        cases hset
    by_cases hmem : k ∈ (head vars d.id).map DeploymentVar.key
    · obtain ⟨row, hrow, rfl⟩ := List.mem_map.mp hmem
      rcases hrows row hrow with ⟨-, hsame⟩ | ⟨hu, -⟩
      · exact hplans.same hsame
      · exact absurd hu hplanned
    · exact hplans.same (hrest k hmem)
  · intro k row hk hrow
    obtain ⟨hmem, rfl⟩ := headRow_eq_some.mp hrow
    rcases hrows row hmem with ⟨hp, -⟩ | ⟨-, hcase⟩
    · exact absurd (hunplanned row.key hk) hp
    · exact hcase
  · intro k hk hrow
    refine (hunplanned k hk).same (hrest k fun hmem => ?_)
    obtain ⟨row, hr, rfl⟩ := List.mem_map.mp hmem
    rw [headRow_eq_some.mpr ⟨hr, rfl⟩] at hrow
    cases hrow

/-- a plan deletes no key it sets -/
theorem Planned.disjoint {entries : List (String × VarWrite)} {replace : Bool}
    (h : Planned declared vars id entries replace plan) (k : String) :
    Unplanned plan k ∨ Deleted plan k ∨ ∃ target, Sets plan k target := by
  cases hentry : entries.lookup k with
  | some entry =>
    rcases h.entry k entry hentry with ⟨-, hd⟩ | ⟨-, target, hset, -⟩
    · exact .inr (.inl hd)
    · exact .inr (.inr ⟨target, hset⟩)
  | none =>
    cases hrow : headRow vars id k with
    | none => exact .inl (h.rest k hentry hrow)
    | some row =>
      rcases h.row k row hentry hrow with ⟨-, hd⟩ | ⟨-, target, -, hset⟩
      · exact .inr (.inl hd)
      · exact .inr (.inr ⟨target, hset⟩)

/-- the puts of a plan, in the order of its two loops -/
def VarPlan.targets (plan : VarPlan) : List (String × Target) :=
  (plan.desired.insertionSort fun a b => a.1 ≤ b.1).map (fun e => (e.1, some e.2)) ++
    (plan.deletions.dedup.insertionSort (· ≤ ·)).map fun k => (k, none)

theorem mem_targets {target : Target} : (k, target) ∈ plan.targets ↔
    (∃ x, target = some x ∧ (k, x) ∈ plan.desired) ∨ target = none ∧ k ∈ plan.deletions := by
  simp only [VarPlan.targets, List.mem_append, List.mem_map, List.mem_insertionSort,
    List.mem_dedup, Prod.mk.injEq]
  constructor
  · rintro (⟨⟨k', x⟩, hmem, rfl, rfl⟩ | ⟨k', hmem, rfl, rfl⟩)
    · exact .inl ⟨x, rfl, hmem⟩
    · exact .inr ⟨rfl, hmem⟩
  · rintro (⟨x, rfl, hmem⟩ | ⟨rfl, hmem⟩)
    · exact .inl ⟨(k, x), hmem, rfl, rfl⟩
    · exact .inr ⟨k, hmem, rfl, rfl⟩

theorem nodup_targets {entries : List (String × VarWrite)} {replace : Bool}
    (h : Planned declared vars id entries replace plan) : (plan.targets.map Prod.fst).Nodup := by
  rw [VarPlan.targets, List.map_append, List.map_map, List.map_map, List.nodup_append]
  refine ⟨?_, ?_, ?_⟩
  · exact (((List.perm_insertionSort _ _).map Prod.fst).nodup_iff).mpr h.unique
  · show (((plan.deletions.dedup.insertionSort (· ≤ ·)).map fun k => k).Nodup)
    rw [List.map_id', (List.perm_insertionSort _ _).nodup_iff]
    exact List.nodup_dedup _
  · intro a ha b hb
    rintro rfl
    obtain ⟨⟨k, x⟩, hmem, rfl⟩ := List.mem_map.mp ha
    obtain ⟨k', hmem', hk'⟩ := List.mem_map.mp hb
    have hset := (lookup_eq_some_iff_mem h.unique).mpr ((List.mem_insertionSort _).mp hmem)
    have hdeleted := List.mem_dedup.mp ((List.mem_insertionSort _).mp hmem')
    have hk' : k' = k := hk'
    subst hk'
    rcases h.disjoint k' with hu | hd | ⟨target, hs⟩
    · exact hu.2 hdeleted
    · rw [hd.1] at hset
      cases hset
    · exact hs.2 hdeleted

/-! ## The head after the write -/

/-- the text head has of a key -/
def headText (vars : Table DeploymentVar) (id : DeploymentId) (k : String) : Option String :=
  (shows vars id k).map Prod.fst

theorem headText_eq (vars : Table DeploymentVar) (id : DeploymentId) (k : String) :
    headText vars id k = (headRow vars id k).bind DeploymentVar.text := by
  rw [headText, shows]
  cases headRow vars id k with
  | none => rfl
  | some row =>
    show (row.text.map _).map _ = row.text
    rw [Option.map_map]
    exact Option.map_id_fun' ▸ rfl

/-- what an accepted write leaves: the documented head, the rows that were there and one more for
each key that shows something else now -/
structure VarsWritten (declared : Fields) (vars vars' : Table DeploymentVar) (id : DeploymentId)
    (entries : List (String × VarWrite)) (replace : Bool) : Prop where
  text : ∀ k, headText vars' id k = writtenText replace (headText vars id k) (entries.lookup k)
  sensitive : ∀ k entry target, entries.lookup k = some entry → shows vars' id k = some target →
    resolveSensitive k entry declared (headRow vars id k) = .ok target.2
  kept : ∀ k, entries.lookup k = none → replace = false → headRow vars' id k = headRow vars id k
  rows : ∃ added, vars'.rows = vars.rows ++ added ∧ (∀ v ∈ added, v.deploymentId = id) ∧
    (added.map DeploymentVar.key).Nodup ∧
    ∀ k, k ∈ added.map DeploymentVar.key ↔ shows vars id k ≠ shows vars' id k

section
variable {entries : List (String × VarWrite)} {replace : Bool} {vars' : Table DeploymentVar}

/-- what head shows after the puts of a plan, by what the plan says of the key -/
theorem shows_of_puts (hp : Planned declared vars id entries replace plan)
    (h : PutsAll (shows vars id) id vars plan.targets vars') (k : String) :
    (Unplanned plan k → headRow vars' id k = headRow vars id k) ∧
      (Deleted plan k → shows vars' id k = none) ∧
      ∀ target, Sets plan k target → shows vars' id k = some target := by
  have hshows : ∀ target, (k, target) ∈ plan.targets → shows vars' id k = target := fun _ hmem =>
    shows_putsAll h (nodup_targets hp) (fun _ _ => rfl) hmem
  refine ⟨fun hu => headRow_putsAll h fun target hmem => ?_, fun hd => ?_, fun target hs => ?_⟩
  · rcases mem_targets.mp hmem with ⟨x, -, hmem⟩ | ⟨-, hmem⟩
    · rw [Unplanned, (lookup_eq_some_iff_mem hp.unique).mpr hmem] at hu
      cases hu.1
    · exact absurd hmem hu.2
  · exact hshows none (mem_targets.mpr (.inr ⟨rfl, hd.2⟩))
  · exact hshows _ (mem_targets.mpr
      (.inl ⟨target, rfl, (lookup_eq_some_iff_mem hp.unique).mp hs.1⟩))

theorem written_of_puts (hp : Planned declared vars id entries replace plan)
    (h : PutsAll (shows vars id) id vars plan.targets vars') :
    VarsWritten declared vars vars' id entries replace := by
  refine ⟨fun k => ?_, fun k entry target hk hshown => ?_, fun k hk hr => ?_, ?_⟩
  · obtain ⟨hunplanned, hdeleted, hsets⟩ := shows_of_puts hp h k
    cases hentry : entries.lookup k with
    | some entry =>
      rcases hp.entry k entry hentry with ⟨hvalue, hd⟩ | ⟨hvalue, target, hset, htext, -⟩
      · rw [headText, hdeleted hd, writtenText, hvalue]
        rfl
      · rw [headText, hsets target hset, writtenText, headText_eq]
        show some target.1 = _
        rw [← htext, VarWrite.text, headRow]
        cases entry.value with
        | none => rfl
        | some value => rfl
    | none =>
      cases hrow : headRow vars id k with
      | none =>
        rw [headText_eq, headText_eq, hunplanned (hp.rest k hentry hrow), hrow, writtenText]
        cases replace <;> rfl
      | some row =>
        rcases hp.row k row hentry hrow with ⟨rfl, hd⟩ | ⟨rfl, target, hshown, hset⟩
        · rw [headText, hdeleted hd]
          rfl
        · rw [headText, hsets target hset, writtenText, headText, shows, hrow, Option.bind_some,
            hshown]
          rfl
  · obtain ⟨-, hdeleted, hsets⟩ := shows_of_puts hp h k
    rcases hp.entry k entry hk with ⟨-, hd⟩ | ⟨-, target', hset, -, hflag⟩
    · rw [hdeleted hd] at hshown
      cases hshown
    · rw [hsets target' hset] at hshown
      cases hshown
      exact hflag
  · refine headRow_putsAll h fun target hmem => ?_
    cases hrow : headRow vars id k with
    | none =>
      have hu := hp.rest k hk hrow
      rcases mem_targets.mp hmem with ⟨x, -, hmem⟩ | ⟨-, hmem⟩
      · rw [Unplanned, (lookup_eq_some_iff_mem hp.unique).mpr hmem] at hu
        cases hu.1
      · exact absurd hmem hu.2
    | some row =>
      rcases hp.row k row hk hrow with ⟨hreplace, -⟩ | ⟨-, target', hshown, hset⟩
      · rw [hr] at hreplace
        cases hreplace
      · rcases mem_targets.mp hmem with ⟨x, rfl, hdesired⟩ | ⟨-, hdeleted⟩
        · have hx := (lookup_eq_some_iff_mem hp.unique).mpr hdesired
          rw [hset.1] at hx
          cases hx
          rw [shows, hrow, Option.bind_some, hshown]
        · exact absurd hdeleted hset.2
  · obtain ⟨added, hrows, hid, hkeys⟩ := putsAll_rows h
    refine ⟨added, hrows, hid, ?_, fun k => ?_⟩
    · rw [hkeys]
      exact (nodup_targets hp).sublist (List.filter_sublist.map Prod.fst)
    · rw [hkeys, List.mem_map]
      have hshows : ∀ target, (k, target) ∈ plan.targets → shows vars' id k = target :=
        fun _ hmem => shows_putsAll h (nodup_targets hp) (fun _ _ => rfl) hmem
      constructor
      · rintro ⟨⟨k', target⟩, hmem, rfl⟩
        obtain ⟨hmem, hdiff⟩ := List.mem_filter.mp hmem
        rw [hshows target hmem]
        exact of_decide_eq_true hdiff
      · intro hdiff
        by_contra hnone
        refine hdiff ?_
        rw [shows, shows, headRow_putsAll h fun target hmem => ?_]
        by_contra hne
        exact hnone ⟨(k, target), List.mem_filter.mpr ⟨hmem, decide_eq_true hne⟩, rfl⟩

end

/-- an accepted write carries out a plan -/
theorem puts_of_writeVars {now : Time} {d : Deployment} {actor : UserId}
    {entries : List (String × VarWrite)} {replace : Bool} {documentError : String → Refusal}
    {vars' : Table DeploymentVar} (hunique : (entries.map Prod.fst).Nodup)
    (h : writeVars cfg c now vars d actor entries replace documentError = .ok vars') :
    ∃ plan, planVars cfg c vars d entries replace documentError = .ok plan ∧
      Planned (declaredVars c d.desiredTemplateId) vars d.id entries replace plan ∧
      PutsAll (shows vars d.id) d.id vars plan.targets vars' := by
  rw [writeVars_eq] at h
  simp only [bind_eq_ok] at h
  obtain ⟨plan, hplan, middle, hset, hdelete⟩ := h
  refine ⟨plan, hplan, planned_of_planVars hunique hplan, ?_⟩
  exact (putsAll_of_foldlM (e := fun e : String × String × Bool => (e.1, some e.2))
    (fun _ _ _ h => puts_of_insertVar h) hset).append
    (putsAll_of_foldlM (e := fun k => (k, none)) (fun _ _ _ h => puts_of_insertTombstone h) hdelete)

/-- **an accepted write leaves the head its entries ask for** -/
theorem writeVars_written {now : Time} {d : Deployment} {actor : UserId}
    {entries : List (String × VarWrite)} {replace : Bool} {documentError : String → Refusal}
    {vars' : Table DeploymentVar} (hunique : (entries.map Prod.fst).Nodup)
    (h : writeVars cfg c now vars d actor entries replace documentError = .ok vars') :
    VarsWritten (declaredVars c d.desiredTemplateId) vars vars' d.id entries replace := by
  obtain ⟨plan, -, hp, hputs⟩ := puts_of_writeVars hunique h
  exact written_of_puts hp hputs

/-! ## The transaction -/

/-- `write_vars` in a transaction its caller commits -/
def writeVarsTransaction (cfg : Settings) (c : Context) (d : Deployment) (actor : UserId)
    (entries : List (String × VarWrite)) (replace : Bool) (documentError : String → Refusal) :
    Transaction Refusal State Unit := do
  writeVarsSession cfg c d actor entries replace documentError
  Transaction.commit fun _ => .ok ()

theorem writeVarsTransaction_commits (cfg : Settings) (c : Context) (d : Deployment)
    (actor : UserId) (entries : List (String × VarWrite)) (replace : Bool)
    (documentError : String → Refusal) :
    (writeVarsTransaction cfg c d actor entries replace documentError).Commits fun s =>
      writeVars cfg c s.now s.vars d actor entries replace documentError >>= fun vars =>
        pure { s with vars := vars } := by
  open Transaction in
  refine (commits_bind (writeVarsSession_follows cfg c d actor entries replace documentError)
    fun _ => commits_commit _).congr fun s => ?_
  simp only [bind_assoc, pure_bind, ok_bind]

/-- **a var write computes the documented head**: accepted, it leaves the rows that were there and
one more for each key that shows something else; refused, it leaves the database as it was -/
theorem write_computes_head (cfg : Settings) (c : Context) (s : State) (d : Deployment)
    (actor : UserId) (entries : VarEntries) (replace : Bool) (documentError : String → Refusal) :
    (∃ vars, (writeVarsTransaction cfg c d actor entries.list replace documentError).exec s =
        (.ok (), { s with vars := vars }) ∧
      VarsWritten (declaredVars c d.desiredTemplateId) s.vars vars d.id entries.list replace) ∨
    ∃ e, (writeVarsTransaction cfg c d actor entries.list replace documentError).exec s =
      (.error e, s) := by
  have hcommits := writeVarsTransaction_commits cfg c d actor entries.list replace documentError
  rcases Transaction.exec_of_commits hcommits s with ⟨t, hwrite, hexec⟩ | ⟨e, -, hexec⟩
  · simp only [bind_eq_ok, pure_eq_ok] at hwrite
    obtain ⟨vars, hwrite, rfl⟩ := hwrite
    exact .inl ⟨vars, hexec, writeVars_written entries.unique hwrite⟩
  · exact .inr ⟨e, hexec⟩

end Freepod

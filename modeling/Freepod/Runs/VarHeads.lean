import Freepod.Platform.Pending

/-!
# Head over an append-only history

`shows vars id k` is what head has of a key: its plaintext and whether it is sensitive.  A write
ends in a loop of `Puts`, one for each key: nothing where head already shows the target, else one
more row.

* `shows_insert_self`: a new row decides its own key.
* `putsAll_rows`: a loop of puts adds one row for each key whose target head did not show.
* `shows_putsAll`: after the loop head shows the targets.
-/

namespace Freepod
open Base

variable {vars t t' : Table DeploymentVar} {id : DeploymentId} {k : String}

/-- what a row says of its key; nothing for a tombstone -/
def DeploymentVar.shown (v : DeploymentVar) : Option (String × Bool) :=
  v.text.map fun text => (text, v.sensitive)

/-- the row of head with the key -/
def headRow (vars : Table DeploymentVar) (id : DeploymentId) (k : String) : Option DeploymentVar :=
  (head vars id).find? fun v => v.key = k

/-- what head has of a key -/
def shows (vars : Table DeploymentVar) (id : DeploymentId) (k : String) : Option (String × Bool) :=
  (headRow vars id k).bind DeploymentVar.shown

theorem headRow_eq_some {v : DeploymentVar} :
    headRow vars id k = some v ↔ v ∈ head vars id ∧ v.key = k :=
  (keyedOnce_head vars id).find?

/-- head has each key once -/
theorem nodup_head (vars : Table DeploymentVar) (id : DeploymentId) :
    ((head vars id).map DeploymentVar.key).Nodup := by
  have hrows : vars.rows.Nodup := List.Nodup.of_map Row.key vars.keys
  have hhead : (head vars id).Nodup := by
    rw [head, (List.perm_insertionSort _ _).nodup_iff]
    exact (hrows.filter _).filter _
  exact hhead.map_on fun x hx y hy h => head_unique hx hy h

/-- a row of head has a text -/
theorem shown_of_mem_head {v : DeploymentVar} (hv : v ∈ head vars id) :
    ∃ text, v.text = some text ∧ v.shown = some (text, v.sensitive) := by
  obtain ⟨-, -, hsome, -⟩ := mem_head.mp hv
  obtain ⟨value, hvalue⟩ := Option.isSome_iff_exists.mp hsome
  have htext : v.text = some value.plaintext := by
    rw [DeploymentVar.text, hvalue, Option.map_some]
  exact ⟨value.plaintext, htext, by rw [DeploymentVar.shown, htext, Option.map_some]⟩

theorem shows_eq_none : shows vars id k = none ↔ headRow vars id k = none := by
  constructor
  · intro h
    cases hrow : headRow vars id k with
    | none => rfl
    | some v =>
      obtain ⟨text, -, hshown⟩ := shown_of_mem_head (headRow_eq_some.mp hrow).1
      rw [shows, hrow, Option.bind_some, hshown] at h
      cases h
  · intro h
    rw [shows, h, Option.bind_none]

/-- a row newer than all others is in head unless it is a tombstone, and hides no other key's -/
theorem mem_head_insert {v x : DeploymentVar} (h : t.insert? v = some t') (hid : v.id = t.nextKey) :
    x ∈ head t' id ↔
      (x = v ∧ v.deploymentId = id ∧ v.value.isSome = true) ∨
        (x ∈ head t id ∧ ¬ (v.deploymentId = id ∧ v.key = x.key)) := by
  have hnew : ∀ y ∈ t.rows, y.id < v.id := by
    intro y hy
    have hle : y.id ≤ (t.rows.map Row.key).foldr max 0 :=
      le_foldr_max (List.mem_map_of_mem (f := Row.key) hy)
    rw [hid]
    exact Nat.lt_succ_of_le hle
  constructor
  · intro hx
    obtain ⟨hmem, hxid, hsome, hmax⟩ := mem_head.mp hx
    rcases (Table.mem_insert? h).mp hmem with hold | rfl
    · refine .inr ⟨mem_head.mpr ⟨hold, hxid, hsome, fun y hy hyid hkey =>
        hmax y ((Table.mem_insert? h).mpr (.inl hy)) hyid hkey⟩, ?_⟩
      intro ⟨hvid, hkey⟩
      have hle := hmax v ((Table.mem_insert? h).mpr (.inr rfl)) hvid hkey
      exact Nat.not_le_of_lt (hnew x hold) hle
    · exact .inl ⟨rfl, hxid, hsome⟩
  · rintro (⟨rfl, hvid, hsome⟩ | ⟨hx, hother⟩)
    · refine mem_head.mpr ⟨(Table.mem_insert? h).mpr (.inr rfl), hvid, hsome, ?_⟩
      intro y hy hyid hkey
      rcases (Table.mem_insert? h).mp hy with hy | rfl
      · exact Nat.le_of_lt (hnew y hy)
      · exact Nat.le_refl _
    · obtain ⟨hmem, hxid, hsome, hmax⟩ := mem_head.mp hx
      refine mem_head.mpr ⟨(Table.mem_insert? h).mpr (.inl hmem), hxid, hsome, ?_⟩
      intro y hy hyid hkey
      rcases (Table.mem_insert? h).mp hy with hy | rfl
      · exact hmax y hy hyid hkey
      · exact absurd ⟨hyid, hkey⟩ hother

/-- a new row of another key leaves the key's row of head -/
theorem headRow_insert_ne {v : DeploymentVar} (h : t.insert? v = some t') (hid : v.id = t.nextKey)
    (hne : ¬ (v.deploymentId = id ∧ v.key = k)) : headRow t' id k = headRow t id k := by
  apply Option.ext
  intro x
  rw [headRow_eq_some, headRow_eq_some, mem_head_insert h hid]
  constructor
  · rintro ⟨⟨rfl, hvid, -⟩ | ⟨hx, -⟩, hkey⟩
    · exact absurd ⟨hvid, hkey⟩ hne
    · exact ⟨hx, hkey⟩
  · rintro ⟨hx, rfl⟩
    exact ⟨.inr ⟨hx, hne⟩, rfl⟩

/-- **a new row decides its own key** -/
theorem shows_insert_self {v : DeploymentVar} (h : t.insert? v = some t') (hid : v.id = t.nextKey)
    (hvid : v.deploymentId = id) : shows t' id v.key = v.shown := by
  cases hvalue : v.value with
  | none =>
    have hnone : headRow t' id v.key = none := by
      cases hrow : headRow t' id v.key with
      | none => rfl
      | some x =>
        obtain ⟨hx, hkey⟩ := headRow_eq_some.mp hrow
        rcases (mem_head_insert h hid).mp hx with ⟨rfl, -, hsome⟩ | ⟨-, hother⟩
        · rw [hvalue] at hsome
          cases hsome
        · exact absurd ⟨hvid, hkey.symm⟩ hother
    rw [shows_eq_none.mpr hnone, DeploymentVar.shown, DeploymentVar.text, hvalue]
    rfl
  | some value =>
    have hmem : v ∈ head t' id :=
      (mem_head_insert h hid).mpr (.inl ⟨rfl, hvid, by rw [hvalue]; rfl⟩)
    rw [shows, headRow_eq_some.mpr ⟨hmem, rfl⟩, Option.bind_some]

/-! ## One put for each key -/

/-- what a key is to show: its text and whether it is sensitive, or nothing -/
abbrev Target := Option (String × Bool)

/-- nothing where the key already shows its target, else one more row that shows it -/
def Puts (before : String → Target) (id : DeploymentId) (t t' : Table DeploymentVar) (k : String)
    (target : Target) : Prop :=
  before k = target ∧ t' = t ∨
    before k ≠ target ∧ ∃ v, t.insert? v = some t' ∧ v.id = t.nextKey ∧ v.deploymentId = id ∧
      v.key = k ∧ v.shown = target

/-- a loop of puts -/
inductive PutsAll (before : String → Target) (id : DeploymentId) :
    Table DeploymentVar → List (String × Target) → Table DeploymentVar → Prop
  | nil (t : Table DeploymentVar) : PutsAll before id t [] t
  | cons {t t' t'' : Table DeploymentVar} {k : String} {target : Target}
      {l : List (String × Target)} (put : Puts before id t t' k target)
      (rest : PutsAll before id t' l t'') : PutsAll before id t ((k, target) :: l) t''

variable {before : String → Target} {l l' : List (String × Target)}

theorem PutsAll.append {t'' : Table DeploymentVar} (h : PutsAll before id t l t')
    (h' : PutsAll before id t' l' t'') : PutsAll before id t (l ++ l') t'' := by
  induction h with
  | nil => exact h'
  | cons put rest ih => exact .cons put (ih h')

/-- an accepted loop of which each step is a put -/
theorem putsAll_of_foldlM {ε γ : Type} {f : Table DeploymentVar → γ → Except ε (Table DeploymentVar)}
    {e : γ → String × Target} {items : List γ}
    (hf : ∀ t c t', f t c = .ok t' → Puts before id t t' (e c).1 (e c).2)
    (h : items.foldlM f t = .ok t') : PutsAll before id t (items.map e) t' := by
  induction items generalizing t with
  | nil =>
    cases h
    exact .nil _
  | cons c items ih =>
    rw [List.foldlM_cons, bind_eq_ok] at h
    obtain ⟨t₁, h₁, h⟩ := h
    exact .cons (hf t c t₁ h₁) (ih h)

/-- **the rows a loop of puts adds**: one for each key whose target was not shown before -/
theorem putsAll_rows (h : PutsAll before id t l t') :
    ∃ added, t'.rows = t.rows ++ added ∧ (∀ v ∈ added, v.deploymentId = id) ∧
      added.map DeploymentVar.key =
        (l.filter fun e => decide (before e.1 ≠ e.2)).map Prod.fst := by
  induction h with
  | nil t => exact ⟨[], by simp, by simp, rfl⟩
  | @cons t t₁ t₂ k target l put rest ih =>
    obtain ⟨added, hrows, hid, hkeys⟩ := ih
    rcases put with ⟨hsame, rfl⟩ | ⟨hdiff, v, hinsert, -, hvid, hkey, -⟩
    · refine ⟨added, hrows, hid, ?_⟩
      rw [hkeys, List.filter_cons_of_neg (by simpa using hsame)]
    · refine ⟨v :: added, ?_, ?_, ?_⟩
      · rw [hrows, Table.insert?_eq_some.mp hinsert, List.append_assoc]
        rfl
      · intro x hx
        rcases List.mem_cons.mp hx with rfl | hx
        · exact hvid
        · exact hid x hx
      · rw [List.filter_cons_of_pos (by simpa using hdiff), List.map_cons, List.map_cons, hkeys, hkey]

/-- a loop of puts leaves the rows of the keys that show their targets already, and of keys it is
not about -/
theorem headRow_putsAll (h : PutsAll before id t l t')
    (hk : ∀ target, (k, target) ∈ l → before k = target) : headRow t' id k = headRow t id k := by
  induction h with
  | nil t => rfl
  | @cons t t₁ t₂ k' target l put rest ih =>
    rw [ih fun target' hmem => hk target' (List.mem_cons_of_mem _ hmem)]
    rcases put with ⟨-, rfl⟩ | ⟨hdiff, v, hinsert, hnew, -, hkey, -⟩
    · rfl
    · refine headRow_insert_ne hinsert hnew fun h => ?_
      have heq : k' = k := hkey.symm.trans h.2
      subst heq
      exact hdiff (hk target List.mem_cons_self)

/-- **after a loop of puts head shows the targets** -/
theorem shows_putsAll (h : PutsAll before id t l t') (hl : (l.map Prod.fst).Nodup)
    (hbefore : ∀ k ∈ l.map Prod.fst, shows t id k = before k) {target : Target}
    (hk : (k, target) ∈ l) : shows t' id k = target := by
  induction h with
  | nil t => cases hk
  | @cons t t₁ t₂ k' target' l put rest ih =>
    rw [List.map_cons, List.nodup_cons] at hl
    have hput : shows t₁ id k' = target' := by
      rcases put with ⟨hsame, rfl⟩ | ⟨-, v, hinsert, hnew, hvid, rfl, hshown⟩
      · rw [hbefore k' List.mem_cons_self, hsame]
      · rw [shows_insert_self hinsert hnew hvid, hshown]
    rcases List.mem_cons.mp hk with heq | hmem
    · cases heq
      rw [shows, headRow_putsAll rest fun target hmem =>
        absurd (List.mem_map_of_mem (f := Prod.fst) hmem) hl.1]
      exact hput
    · refine ih hl.2 (fun x hx => ?_) hmem
      have hne : x ≠ k' := fun h => hl.1 (h ▸ hx)
      rw [← hbefore x (List.mem_cons_of_mem _ hx)]
      rcases put with ⟨-, rfl⟩ | ⟨-, v, hinsert, hnew, -, hkey, -⟩
      · rfl
      · rw [shows, shows, headRow_insert_ne hinsert hnew fun h => hne (h.2.symm.trans hkey)]

/-! ## The statements of a write -/

theorem shown_of_plaintext {cfg : Settings} {row : DeploymentVar} {text : String}
    (h : plaintext cfg row = .ok text) : row.shown = some (text, row.sensitive) := by
  rw [DeploymentVar.shown, text_of_plaintext h, Option.map_some]

/-- a var is unchanged when head already shows it -/
theorem unchangedVar_eq {cfg : Settings} {key value : String} {sensitive unchanged : Bool}
    (h : unchangedVar cfg (head vars id) key value sensitive = .ok unchanged) :
    unchanged = true ↔ shows vars id key = some (value, sensitive) := by
  unfold unchangedVar at h
  rw [shows, headRow]
  split at h
  · rename_i hrow
    cases h
    rw [hrow]
    simp
  · rename_i row hrow
    rw [hrow, Option.bind_some]
    split at h
    · rename_i hs
      simp only [bind_eq_ok, pure_eq_ok] at h
      obtain ⟨old, hplain, rfl⟩ := h
      rw [shown_of_plaintext hplain, decide_eq_true_eq]
      simp [hs]
    · rename_i hs
      cases h
      rw [DeploymentVar.shown]
      simp only [Bool.false_eq_true, false_iff, Option.map_eq_some_iff, Prod.mk.injEq, not_exists,
        not_and]
      exact fun _ _ _ => hs

theorem puts_of_insertVar {cfg : Settings} {now : Time} {actor : UserId}
    {e : String × String × Bool} (h : insertVar cfg now id actor (head vars id) t e = .ok t') :
    Puts (shows vars id) id t t' e.1 (some e.2) := by
  simp only [insertVar, bind_eq_ok] at h
  obtain ⟨unchanged, hunchanged, h⟩ := h
  cases unchanged with
  | true =>
    cases h
    exact .inl ⟨(unchangedVar_eq hunchanged).mp rfl, rfl⟩
  | false =>
    simp only [Bool.false_eq_true, if_false, bind_eq_ok, found_eq_ok] at h
    obtain ⟨token, htoken, hinsert⟩ := h
    have htext : token.plaintext = e.2.1 := by
      unfold encrypt at htoken
      split at htoken
      · cases htoken
      · cases htoken
        rfl
    refine .inr ⟨fun hshown => ?_, _, hinsert, rfl, rfl, rfl, ?_⟩
    · have := (unchangedVar_eq hunchanged).mpr hshown
      cases this
    · show (some (token.plaintext, e.2.2) : Target) = some e.2
      rw [htext]

theorem puts_of_insertTombstone {now : Time} {actor : UserId} {key : String}
    (h : insertTombstone now id actor (head vars id) t key = .ok t') :
    Puts (shows vars id) id t t' key none := by
  unfold insertTombstone at h
  split at h
  · rename_i hany
    refine .inr ⟨fun hnone => ?_, _, found_eq_ok.mp h, rfl, rfl, rfl, rfl⟩
    obtain ⟨row, hrow, hkey⟩ := List.any_eq_true.mp hany
    have hfind := headRow_eq_some.mpr ⟨hrow, of_decide_eq_true hkey⟩
    rw [shows_eq_none.mp hnone] at hfind
    cases hfind
  · rename_i hany
    cases h
    refine .inl ⟨shows_eq_none.mpr ?_, rfl⟩
    cases hrow : headRow vars id key with
    | none => rfl
    | some row =>
      obtain ⟨hmem, hkey⟩ := headRow_eq_some.mp hrow
      exact absurd (List.any_eq_true.mpr ⟨row, hmem, decide_eq_true hkey⟩) hany

/-! ## Rotations -/

/-- a row of a table without its token: id, deployment, key, text and sensitivity -/
abbrev PlainRow := VarId × DeploymentId × String × Option String × Bool

/-- head, of rows without their tokens -/
def plainHead (rows : List PlainRow) (id : DeploymentId) : List PlainRow :=
  let rows := rows.filter fun v => v.2.1 = id
  (rows.filter fun v =>
      (rows.all fun v' => !(decide (v'.2.2.1 = v.2.2.1)) || decide (v'.1 ≤ v.1)) &&
        v.2.2.2.1.isSome).insertionSort
    fun a b => a.2.2.1 ≤ b.2.2.1

theorem map_plain_sort (l : List DeploymentVar) :
    (l.insertionSort fun a b => a.key ≤ b.key).map DeploymentVar.plain =
      (l.map DeploymentVar.plain).insertionSort fun a b => a.2.2.1 ≤ b.2.2.1 :=
  List.map_insertionSort _ _ DeploymentVar.plain l fun _ _ _ _ => Iff.rfl

/-- head looks at no token -/
theorem map_plain_head (vars : Table DeploymentVar) (id : DeploymentId) :
    (head vars id).map DeploymentVar.plain = plainHead (vars.rows.map DeploymentVar.plain) id := by
  have hrows : (vars.rows.map DeploymentVar.plain).filter (fun v => decide (v.2.1 = id)) =
      (vars.rows.filter fun v => decide (v.deploymentId = id)).map DeploymentVar.plain :=
    List.filter_map
  unfold plainHead
  dsimp only
  rw [hrows, head, map_plain_sort, List.filter_map]
  congr 2
  refine List.filter_congr fun v _ => ?_
  show _ = ((List.map DeploymentVar.plain _).all _ && v.text.isSome)
  rw [List.all_map, text_isSome]
  rfl

/-- **a rotation leaves head but for its tokens** -/
theorem head_samePlain (h : SamePlain vars t) (id : DeploymentId) :
    (head t id).map DeploymentVar.plain = (head vars id).map DeploymentVar.plain := by
  rw [map_plain_head, map_plain_head, h]

/-- **a rotation leaves what head shows** -/
theorem shows_samePlain (h : SamePlain vars t) (id : DeploymentId) (k : String) :
    shows t id k = shows vars id k := by
  have hplain : ∀ l : List DeploymentVar, (l.find? fun v => v.key = k).bind DeploymentVar.shown =
      ((l.map DeploymentVar.plain).find? fun v => v.2.2.1 = k).bind fun v =>
        v.2.2.2.1.map fun text => (text, v.2.2.2.2) := by
    intro l
    rw [List.find?_map, Option.bind_map]
    rfl
  rw [shows, shows, headRow, headRow, hplain, hplain, head_samePlain h]

/-- a rotation leaves the snapshots but for their tokens -/
theorem snapshot_samePlain {s : State} (h : SamePlain s.vars t) (r : ReleaseId) :
    (snapshot { s with vars := t } r).map DeploymentVar.plain =
      (snapshot s r).map DeploymentVar.plain := by
  have hrows : ∀ vars : Table DeploymentVar, (vars.rows.filter fun v =>
        decide ((⟨r, v.id⟩ : ReleaseVar) ∈ s.releaseVars)).map DeploymentVar.plain =
      (vars.rows.map DeploymentVar.plain).filter fun v =>
        decide ((⟨r, v.1⟩ : ReleaseVar) ∈ s.releaseVars) := fun vars => by
    rw [List.filter_map]
    rfl
  rw [snapshot, snapshot, map_plain_sort, map_plain_sort, hrows, hrows, h]

/-- **a rotation leaves `pending`** -/
theorem pending_samePlain {s : State} (h : SamePlain s.vars t) (d : Deployment) :
    pending { s with vars := t } d = pending s d := by
  have hids : ∀ l : List DeploymentVar, l.map DeploymentVar.id =
      (l.map DeploymentVar.plain).map Prod.fst := fun l => by
    rw [List.map_map]
    rfl
  have hhead : (head t d.id).map DeploymentVar.id = (head s.vars d.id).map DeploymentVar.id := by
    rw [hids, hids, head_samePlain h]
  unfold pending
  rw [hhead]

end Freepod

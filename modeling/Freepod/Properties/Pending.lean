import Freepod.Runs.Environments

/-!
# Pending vars

`pending` compares the rows of head with the rows bound to the applied release.

* `pending_eq_false_iff`: in every run it is false exactly when the two environments agree and no
  key has its row in head twice, under another id and bound to the applied release.
* `pending_exact`: in runs whose writes never repeat a text bound to a live release it is false
  exactly when the environments agree.
* `pending_repeated`: a var set to another value and back leaves it true over one environment.
-/

namespace Freepod
open Base

variable {cfg : Settings} {s : State} {d : Deployment} {id : DeploymentId}

theorem mem_appliedRows {v : DeploymentVar} :
    v ∈ appliedRows s d ↔ ∃ k, d.appliedReleaseId = some k ∧ v ∈ snapshot s k := by
  unfold appliedRows
  cases h : d.appliedReleaseId with
  | none => simp
  | some k => simp

/-- the rows bound to the applied release are the deployment's, one for each key -/
theorem Bound.appliedRows (hb : Bound s) (hd : s.deployments.get? id = some d) :
    KeyedOnce (appliedRows s d) ∧
      ∀ v ∈ Freepod.appliedRows s d, v ∈ s.vars.rows ∧ v.deploymentId = id ∧
        v.text.isSome = true := by
  constructor
  · intro a ha b hb' hkey
    obtain ⟨k, hk, ha⟩ := mem_appliedRows.mp ha
    obtain ⟨k', hk', hb'⟩ := mem_appliedRows.mp hb'
    obtain rfl : k = k' := Option.some.inj (hk.symm.trans hk')
    exact hb.once k a ha b hb' hkey
  · intro v hv
    obtain ⟨k, hk, hv⟩ := mem_appliedRows.mp hv
    obtain ⟨r, hr, hvd, htext⟩ := hb.snapshot hv
    obtain ⟨-, r', hr', hid⟩ := hb.live id k (.inl ⟨d, hd, .inr hk⟩)
    rw [hr] at hr'
    cases hr'
    exact ⟨(mem_snapshot.mp hv).1, hvd.trans hid, htext⟩

/-- `pending` is false exactly when head is what is bound to the applied release -/
theorem pending_eq_false (hb : Bound s) : pending s d = false ↔
    ∀ v, v ∈ head s.vars d.id ↔ v ∈ appliedRows s d := by
  unfold pending
  cases ha : d.appliedReleaseId with
  | none =>
    simp only [Bool.not_eq_false', decide_eq_true_eq, List.toFinset_eq_empty_iff,
      List.map_eq_nil_iff, appliedRows, ha, Option.elim_none, List.not_mem_nil, iff_false]
    exact List.eq_nil_iff_forall_not_mem
  | some k =>
    have hids : ∀ n, (⟨k, n⟩ : ReleaseVar) ∈ s.releaseVars ↔ ∃ v ∈ snapshot s k, v.id = n := by
      intro n
      constructor
      · intro hn
        obtain ⟨-, v, -, hv, hid, -⟩ := hb.rows _ hn
        have hid : v.id = n := hid
        exact ⟨v, mem_snapshot.mpr ⟨hv, hid ▸ hn⟩, hid⟩
      · intro ⟨v, hv, hid⟩
        exact hid ▸ (mem_snapshot.mp hv).2
    have happlied : ∀ n, n ∈ (s.releaseVars.filter fun b => b.releaseId = k).map
        ReleaseVar.varId ↔ ∃ v ∈ snapshot s k, v.id = n := by
      intro n
      rw [← hids, List.mem_map]
      constructor
      · intro ⟨b, hmem, hn⟩
        obtain ⟨hmem, hk⟩ := List.mem_filter.mp hmem
        have hk : b.releaseId = k := of_decide_eq_true hk
        rw [← hk, ← hn]
        exact hmem
      · intro hmem
        exact ⟨_, List.mem_filter.mpr ⟨hmem, decide_eq_true rfl⟩, rfl⟩
    simp only [decide_eq_false_iff_not, ne_eq, not_not, Finset.ext_iff, List.mem_toFinset,
      happlied, List.mem_map, appliedRows, ha, Option.elim_some]
    constructor
    · intro h v
      constructor
      · intro hv
        obtain ⟨x, hx, hid⟩ := (h v.id).mp ⟨v, hv, rfl⟩
        exact eq_of_varId (mem_snapshot.mp hx).1 (mem_head.mp hv).1 hid ▸ hx
      · intro hv
        obtain ⟨x, hx, hid⟩ := (h v.id).mpr ⟨v, hv, rfl⟩
        exact eq_of_varId (mem_head.mp hx).1 (mem_snapshot.mp hv).1 hid ▸ hx
    · intro h n
      constructor
      · intro ⟨v, hv, hid⟩
        exact ⟨v, (h v).mp hv, hid⟩
      · intro ⟨v, hv, hid⟩
        exact ⟨v, (h v).mpr hv, hid⟩

/-- the environments of head and of the applied release agree -/
def SameEnvironment (s : State) (d : Deployment) : Prop :=
  ∀ key, environment (head s.vars d.id) key = environment (appliedRows s d) key

theorem sameEnvironment_of_rows (hb : Bound s) (hd : s.deployments.get? id = some d)
    (h : ∀ v, v ∈ head s.vars d.id ↔ v ∈ appliedRows s d) : SameEnvironment s d := by
  intro key
  have hsome : ∀ x, environment (head s.vars d.id) key = some x ↔
      environment (appliedRows s d) key = some x := by
    intro x
    rw [environment_eq_some (keyedOnce_head _ _), environment_eq_some (hb.appliedRows hd).1]
    simp only [h]
  exact Option.ext hsome

/-- **what `pending` compares**: it is false exactly when the environments agree and no key has two
rows, one in head and one bound to the applied release -/
theorem pending_eq_false_iff (hb : Bound s) (hd : s.deployments.get? id = some d) :
    pending s d = false ↔ SameEnvironment s d ∧
      ∀ v ∈ head s.vars d.id, ∀ b ∈ appliedRows s d, v.key = b.key → v.text = b.text → v = b := by
  obtain ⟨honce, happlied⟩ := hb.appliedRows hd
  rw [pending_eq_false hb]
  constructor
  · intro h
    refine ⟨sameEnvironment_of_rows hb hd h, fun v hv b hb' hkey _ => ?_⟩
    exact honce v ((h v).mp hv) b hb' hkey
  · intro ⟨hsame, hrows⟩ v
    have hhead := keyedOnce_head s.vars d.id
    constructor
    · intro hv
      obtain ⟨-, -, hsome, -⟩ := mem_head.mp hv
      obtain ⟨x, hx⟩ := Option.isSome_iff_exists.mp (text_isSome v ▸ hsome)
      have hin : environment (head s.vars d.id) v.key = some x :=
        (environment_eq_some hhead).mpr ⟨v, hv, rfl, hx⟩
      rw [hsame v.key] at hin
      obtain ⟨b, hb', hkey, htext⟩ := (environment_eq_some honce).mp hin
      rw [hrows v hv b hb' hkey.symm (hx.trans htext.symm)]
      exact hb'
    · intro hv
      obtain ⟨x, hx⟩ := Option.isSome_iff_exists.mp (happlied v hv).2.2
      have hin : environment (appliedRows s d) v.key = some x :=
        (environment_eq_some honce).mpr ⟨v, hv, rfl, hx⟩
      rw [← hsame v.key] at hin
      obtain ⟨y, hy, hkey, htext⟩ := (environment_eq_some hhead).mp hin
      rw [← hrows y hy v hv hkey (htext.trans hx.symm)]
      exact hy

/-- every reachable state has its rows bound as they should be -/
theorem bound_of_reach {ok : State → KeyedAction → Prop}
    (hs : (keyedPlatform cfg).Reach ok .init s) : Bound s :=
  hs.invariant bound_init fun _ _ _ hb _ h => bound_keyedStep hb h

/-- **`pending` is exact** in runs whose writes repeat no text bound to a live release -/
theorem pending_exact (hs : (keyedPlatform cfg).Reach keyedRepeatsNothing .init s)
    (hd : s.deployments.get? id = some d) : pending s d = false ↔ SameEnvironment s d := by
  have hboth : Bound s ∧ KeepsApart s := by
    refine hs.invariant (P := fun s => Bound s ∧ KeepsApart s) ⟨bound_init, keepsApart_init⟩ ?_
    intro s x t hinv hok h
    exact ⟨bound_keyedStep hinv.1 h, keepsApart_keyedStep hinv.1 hinv.2 hok h⟩
  obtain ⟨hb, hk⟩ := hboth
  rw [pending_eq_false_iff hb hd]
  refine ⟨fun h => h.1, fun h => ⟨h, fun v hv b hb' hkey htext => ?_⟩⟩
  -- the row of head is the newest of its key, so the bound row is as new or has another text
  have hid : d.id = id := Table.key_of_get? hd
  obtain ⟨hv, hvd, -, hnewest⟩ := mem_head.mp hv
  obtain ⟨hbrows, hbd, -⟩ := (hb.appliedRows hd).2 b hb'
  obtain ⟨k, hka, hsnapshot⟩ := mem_appliedRows.mp hb'
  have hle : b.id ≤ v.id := hnewest b hbrows (hbd.trans hid.symm) hkey.symm
  obtain hlt | he := Nat.lt_or_eq_of_le hle
  · have hne := hk id k (.inl ⟨d, hd, .inr hka⟩) b hsnapshot v hv (hvd.trans hid) hkey hlt
    exact absurd htext hne
  · exact eq_of_varId hv hbrows he.symm

/-! ## Runs -/

/-- a check that an entry gives a text no row of its key has -/
def newText (s : State) (entries : List (String × VarWrite)) : Bool :=
  entries.all fun e => s.vars.rows.all fun v => decide (v.key ≠ e.1) ||
    match e.2.value with
    | some (some x) => decide (v.text ≠ some x)
    | _ => false

def repeatsNothingCheck (s : State) : KeyedAction → Bool
  | .platform _ (.update _ u) => newText s u.vars
  | .platform _ (.writeVars _ r) => newText s r.entries
  | _ => true

theorem not_repeats_of_newText {declared : Fields} {entries : List (String × VarWrite)}
    (h : newText s entries = true) : ¬ Repeats s id declared entries := by
  intro hrepeats
  obtain ⟨key, entry, k, b, hentry, -, hb, hkey, htext, -⟩ := hrepeats
  have hrow := List.all_eq_true.mp (List.all_eq_true.mp h _ hentry) b (mem_snapshot.mp hb).1
  simp only [hkey, ne_eq, not_true_eq_false, decide_false, Bool.false_or] at hrow
  unfold VarWrite.text at htext
  split at hrow
  · rename_i x hvalue
    rw [hvalue] at htext
    exact of_decide_eq_true hrow htext.symm
  · cases hrow

theorem repeatsNothing_of_check (s : State) (x : KeyedAction)
    (h : repeatsNothingCheck s x = true) : keyedRepeatsNothing s x := by
  cases x with
  | rotate keyIds batchSize => trivial
  | platform keyIds a =>
    cases a with
    | update c u => exact not_repeats_of_newText h
    | writeVars c r => exact fun d _ => not_repeats_of_newText h
    | _ => trivial

/-- sets one var -/
def VarsRequest.sample (key value : String) : VarsRequest where
  userId := 7
  caller := 7
  callerIsAdmin := false
  deploymentId := 1
  phase := runtimePhase
  entries := [(key, ⟨some (some value), none⟩)]
  replace := false

/-- a deployment with one var, deployed; then the writes -/
def pendingRun (writes : List Action) : List KeyedAction :=
  (.create .sample { CreateRequest.sample .null none with
      vars := [("LOG_LEVEL", ⟨some (some "info"), none⟩)] } :: Action.turn "w1" .clean ++
    writes).map (.platform ["key-1"])

/-- the rows of head and of the applied release have the same keys and texts -/
def sameTexts (s : State) (d : Deployment) : Bool :=
  decide ((head s.vars d.id).map (fun v => (v.key, v.text)) =
    (appliedRows s d).map fun v => (v.key, v.text))

theorem environment_congr {rows rows' : List DeploymentVar}
    (h : rows.map (fun v => (v.key, v.text)) = rows'.map fun v => (v.key, v.text))
    (key : String) : environment rows key = environment rows' key := by
  have hmap : ∀ l : List DeploymentVar, environment l key =
      ((l.map fun v => (v.key, v.text)).find? fun e => e.1 = key).bind Prod.snd := by
    intro l
    induction l with
    | nil => rfl
    | cons v l ih =>
      unfold environment at ih ⊢
      rw [List.map_cons, List.find?_cons, List.find?_cons]
      by_cases hk : v.key = key
      · simp only [hk, decide_true]
        rfl
      · simp only [hk, decide_false]
        exact ih
  rw [hmap, hmap, h]

theorem sameEnvironment_of_sameTexts (h : sameTexts s d = true) : SameEnvironment s d :=
  fun key => environment_congr (of_decide_eq_true h) key

/-- a rotation, an update and its rollout after a write: nothing is pending -/
theorem pending_exact_rolled : ∃ s d, (keyedPlatform .sample).Reach keyedRepeatsNothing .init s ∧
    s.deployments.get? 1 = some d ∧ pending s d = false ∧ SameEnvironment s d := by
  obtain ⟨s, hs, -, hp⟩ := Machine.exists_reach_of_runIf (M := keyedPlatform .sample)
    (P := fun _ => True) (fun _ _ _ _ _ _ => trivial)
    (fun s a _ h => repeatsNothing_of_check s a h)
    (s := .init) (p := fun s : State => (s.deployments.get? 1).any fun d => !pending s d)
    (l := pendingRun [.writeVars .sample (.sample "LOG_LEVEL" "debug")] ++
      .rotate ["key-2", "key-1"] 200 :: (.update .sample (.sample none 2) ::
        Action.turn "w2" .clean).map (.platform ["key-2"]))
    trivial (by decide +kernel)
  obtain ⟨d, hd, hp⟩ := (Option.any_eq_true _ _).mp hp
  have hp : pending s d = false := by simpa using hp
  exact ⟨s, d, hs, hd, hp, (pending_exact hs hd).mp hp⟩

/-- **a var set to another value and back**: one environment, and `pending` -/
theorem pending_repeated : ∃ s d, (keyedPlatform .sample).Reach (fun _ _ => True) .init s ∧
    s.deployments.get? 1 = some d ∧ pending s d = true ∧ SameEnvironment s d := by
  obtain ⟨s, hs, hp⟩ := Machine.exists_reach_of_run (M := keyedPlatform .sample) (s := .init)
    (p := fun s : State => (s.deployments.get? 1).any fun d => pending s d && sameTexts s d)
    (l := pendingRun [.writeVars .sample (.sample "LOG_LEVEL" "debug"),
      .writeVars .sample (.sample "LOG_LEVEL" "info")]) (by decide +kernel)
  obtain ⟨d, hd, hp⟩ := (Option.any_eq_true _ _).mp hp
  rw [Bool.and_eq_true] at hp
  exact ⟨s, d, hs, hd, hp.1, sameEnvironment_of_sameTexts hp.2⟩

end Freepod

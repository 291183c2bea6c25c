import Freepod.Properties.MoveSafe

/-!
# A copy or a move without problems is complete

`Accounted`, that every object is handled or in someone's hand, is kept by every step;
`move_complete` says what a run leaves that ends and has reported nothing.
-/

namespace Freepod.Cli

open Base

variable {β : Type} {l : Limits} {move : Bool} {plan : Plan} {objs objects objects' : Objects β}

namespace Transfer

variable {t t' : Transfer β}

/-! ## nothing is left out -/

/-- an object is where it goes, and by a move no longer where it was -/
def Handled (move : Bool) (plan : Plan) (objs objects : Objects β) (k : Str) : Prop :=
  Copied plan objs objects k ∧ (move = true → objects.content k = none)

/-- the run will not end well -/
def Trouble (t : Transfer β) : Prop :=
  t.tally.problems ≠ [] ∨ t.failed = true ∨ t.main = .stop ∨ t.main = .done true

/-- the main thread has yet to come to a key -/
def ahead : Main → Str → Prop
  | .list after, k => Later after k
  | .items rest next, k => (∃ info ∈ rest, info.key = k) ∨ ∃ n, next = some n ∧ n < k
  | _, _ => False

/-- a worker is busy with a key -/
def held (k : Str) (task : Task β) : Prop :=
  match task.phase with
  | .deleting batch => k ∈ batch
  | _ => task.source.key = k

/-- someone has a key in hand -/
def Pending (t : Transfer β) (k : Str) : Prop :=
  ahead t.main k ∨ (∃ task ∈ t.tasks, held k task) ∨ k ∈ t.batch ∨ k ∈ flushing t.main

/-- **every object is handled, or in someone's hand** -/
def Accounted (move : Bool) (plan : Plan) (objs : Objects β) (t : Transfer β) : Prop :=
  Trouble t ∨ ∀ k c, Item plan objs k c → Pending t k ∨ Handled move plan objs t.objects k

/-- when the workers are done, they are done -/
def Closed (t : Transfer β) : Prop :=
  (t.main = .done false ∨ ∃ batch, t.main = .flush batch) →
    t.tasks = [] ∧ t.batch = [] ∧ t.failed = false

theorem Handled.mono {k : Str} (h : Handled move plan objs objects k) (ha : Apart plan objs)
    (e : Effect move plan objs objects objects') : Handled move plan objs objects' k := by
  refine ⟨e.copied ha h.1, ?_⟩
  intro hmove
  obtain ⟨c, hitem, -⟩ := h.1
  obtain hsame | ⟨-, hnone, -⟩ := e.content_source ha hitem.1
  · rw [hsame]
    exact h.2 hmove
  · exact hnone

theorem ahead_yield {rest : List ObjectInfo} {next : Option Str} {k : Str}
    (h : (∃ info ∈ rest, info.key = k) ∨ ∃ n, next = some n ∧ n < k) :
    ahead (.yield rest next) k := by
  cases rest with
  | cons info rest => exact h
  | nil =>
    obtain ⟨info, hinfo, -⟩ | ⟨n, rfl, hn⟩ := h
    · exact absurd hinfo List.not_mem_nil
    · intro a hnext
      cases hnext
      exact hn

/-- of a list, an entry is the one at a place or stays when that one goes -/
theorem mem_eraseIdx_or {α : Type} {xs : List α} {i : Nat} {x y : α} (hi : xs[i]? = some y)
    (hx : x ∈ xs) : x = y ∨ x ∈ xs.eraseIdx i := by
  obtain ⟨j, hj⟩ := List.mem_iff_getElem?.mp hx
  by_cases hij : j = i
  · rw [hij, hi] at hj
    exact .inl (Option.some.inj hj).symm
  · exact .inr (List.mem_eraseIdx_iff_getElem?.mpr ⟨j, hij, hj⟩)

/-- or when another comes for it -/
theorem mem_set_or {α : Type} {xs : List α} {i : Nat} {x y z : α} (hi : xs[i]? = some y)
    (hx : x ∈ xs) : x = y ∨ x ∈ xs.set i z := by
  obtain ⟨j, hj⟩ := List.mem_iff_getElem?.mp hx
  by_cases hij : i = j
  · subst hij
    rw [hi] at hj
    exact .inl (Option.some.inj hj).symm
  · refine .inr (List.mem_iff_getElem?.mpr ⟨j, ?_⟩)
    rw [List.getElem?_set_ne hij]
    exact hj

theorem mem_set_self {α : Type} {xs : List α} {i : Nat} {y z : α} (hi : xs[i]? = some y) :
    z ∈ xs.set i z := by
  obtain ⟨hlt, -⟩ := List.getElem?_eq_some_iff.mp hi
  exact List.mem_set hlt z

/-! ### what an answer to a delete leaves -/

theorem deleteBatch_problems {a : DeleteAnswer} {batch : List Str} {tally tally' : Tally}
    (h : deleteBatch (fun _ => a) tally batch = .ok tally') :
    ∃ more, tally'.problems = tally.problems ++ more := by
  unfold deleteBatch at h
  split at h
  · cases h
    exact ⟨[], (List.append_nil _).symm⟩
  · split at h
    · cases h
      exact ⟨_, rfl⟩
    · cases h
      exact ⟨_, rfl⟩
    · cases h

theorem dict_ne_nil {pairs : List (Str × Str)} (h : pairs ≠ []) : dict pairs ≠ [] := by
  obtain ⟨p, hp⟩ := List.exists_mem_of_ne_nil _ h
  intro hempty
  have hmem : p.1 ∈ (dict pairs).map Prod.fst := mem_dict.mpr (List.mem_map.mpr ⟨p, hp, rfl⟩)
  rw [hempty] at hmem
  cases hmem

theorem deleteMany_ok {a : DeleteAnswer} {batch : List Str} {failures : List (Str × Str)}
    (hne : batch ≠ []) (h : deleteMany (fun _ => a) batch = .ok failures) :
    ∃ body errors, (deleteXml batch).encode = some body ∧ a = .ok (some errors) := by
  unfold deleteMany at h
  rw [if_neg hne] at h
  split at h
  · cases h
  · rename_i body hbody
    cases a with
    | error why => cases h
    | ok answer =>
      cases answer with
      | none => cases h
      | some errors => exact ⟨body, errors, hbody, rfl⟩

/-- **a batch is reported, or gone** -/
theorem removed_of_deleteBatch {a : DeleteAnswer} {batch : List Str} {tally tally' : Tally}
    (hreturn : ¬ HasReturn batch) (ha : answerable batch a = true)
    (h : deleteBatch (fun _ => a) tally batch = .ok tally') :
    tally'.problems ≠ [] ∨ ∀ k ∈ batch, k ∈ removed batch a := by
  by_cases hne : batch = []
  · rw [hne]
    exact .inr (List.forall_mem_nil _)
  unfold deleteBatch at h
  rw [if_neg hne] at h
  split at h
  · rename_i failures hfailures
    cases h
    by_cases hnone : failures = []
    · refine .inr ?_
      obtain ⟨body, errors, hbody, rfl⟩ := deleteMany_ok hne hfailures
      have hread : (Xml.read body).isSome = true := by
        simpa [answerable, hbody] using ha
      intro k hk
      rw [removed, hfailures, hnone]
      refine List.mem_filter.mpr ⟨?_, by simp⟩
      rw [named_eq hreturn hbody hread]
      exact hk
    · refine .inl ?_
      intro hempty
      exact dict_ne_nil hnone (List.append_eq_nil_iff.mp hempty).2
  · cases h
    refine .inl ?_
    intro hempty
    exact dict_ne_nil (by simpa using hne) (List.append_eq_nil_iff.mp hempty).2
  · cases h

/-! ### one step -/

/-- a step of a worker is none of the main thread -/
def SameMain (t t' : Transfer β) : Prop :=
  t'.main = t.main ∧ t'.tally = t.tally ∧ t'.failed = t.failed

theorem sameMain_beginCopy {i : Nat} {task : Task β} : SameMain t (t.beginCopy l i task) := by
  unfold beginCopy
  split <;> exact ⟨rfl, rfl, rfl⟩

theorem sameMain_nextPart {i : Nat} {task : Task β} {rest : List (Nat × Nat)}
    {parts : List (List β)} : SameMain t (t.nextPart i task rest parts) := by
  unfold nextPart
  split <;> exact ⟨rfl, rfl, rfl⟩

theorem sameMain_addToBatch {i : Nat} {task : Task β} : SameMain t (t.addToBatch l i task) := by
  unfold addToBatch
  dsimp only
  split <;> exact ⟨rfl, rfl, rfl⟩

theorem sameMain_added {i : Nat} {task : Task β} :
    SameMain t (if move then t.addToBatch l i task else t.endTask i) := by
  split
  · exact sameMain_addToBatch
  · exact ⟨rfl, rfl, rfl⟩

theorem batch_beginCopy {i : Nat} {task : Task β} : (t.beginCopy l i task).batch = t.batch := by
  unfold beginCopy
  split <;> rfl

theorem batch_nextPart {i : Nat} {task : Task β} {rest : List (Nat × Nat)}
    {parts : List (List β)} : (t.nextPart i task rest parts).batch = t.batch := by
  unfold nextPart
  split <;> rfl

/-- a run that goes on is troubled by what was reported or raised, and that stays -/
theorem Trouble.going (h : Trouble t) (hstop : t.main ≠ .stop) (hdone : t.main ≠ .done true) :
    t.tally.problems ≠ [] ∨ t.failed = true := by
  obtain h | h | h | h := h
  · exact .inl h
  · exact .inr h
  · exact absurd h hstop
  · exact absurd h hdone

theorem Trouble.step {e : TransferEvent} (h : Trouble t) (hd : Does l move plan t e t') :
    Trouble t' := by
  have hkeep : SameMain t t' → Trouble t' := by
    rintro ⟨hmain, htally, hfailed⟩
    unfold Trouble
    rw [htally, hfailed, hmain]
    exact h
  have hdelete : ∀ {batch : List Str} {a : DeleteAnswer} {u : Transfer β},
      t.delete batch a = some u → t.tally.problems ≠ [] → u.tally.problems ≠ [] := by
    intro batch a u hu hne
    obtain ⟨tally, htally, rfl⟩ := delete_cases hu
    obtain ⟨more, hmore⟩ := deleteBatch_problems htally
    intro hempty
    rw [show tally.problems = _ from hmore] at hempty
    exact hne (List.append_eq_nil_iff.mp hempty).1
  have hgoing : t'.tally = t.tally → t'.failed = t.failed → t.main ≠ .stop →
      t.main ≠ .done true → Trouble t' := by
    intro htally hfailed hstop hdone
    unfold Trouble
    rw [htally, hfailed]
    exact (h.going hstop hdone).elim .inl fun hf => .inr (.inl hf)
  cases hd with
  | page hmain =>
    exact hgoing rfl rfl (by simp [hmain]) (by simp [hmain])
  | submit hmain =>
    exact hgoing rfl rfl (by simp [hmain]) (by simp [hmain])
  | pick => exact hkeep sameMain_beginCopy
  | copied => exact hkeep ⟨rfl, rfl, rfl⟩
  | created => exact hkeep sameMain_nextPart
  | part => exact hkeep sameMain_nextPart
  | completed => exact hkeep ⟨rfl, rfl, rfl⟩
  | failed hi =>
    refine .inl ?_
    show _ ++ _ ≠ []
    simp
  | added => exact hkeep sameMain_added
  | deleted hi hphase ha hu =>
    obtain h | h := h
    · have hne := hdelete hu h
      exact .inl hne
    · obtain ⟨tally, -, rfl⟩ := delete_cases hu
      exact .inr h
  | broke => exact .inr (.inl rfl)
  | raised => exact .inr (.inl rfl)
  | flush hmain =>
    exact hgoing rfl rfl (by simp [hmain]) (by simp [hmain])
  | finish hmain =>
    exact hgoing rfl rfl (by simp [hmain]) (by simp [hmain])
  | flushed hmain ha hu =>
    obtain h | h := h.going (by simp [hmain]) (by simp [hmain])
    · have hne := hdelete hu h
      exact .inl hne
    · obtain ⟨tally, -, rfl⟩ := delete_cases hu
      exact .inr (.inl h)
  | flushRaised => exact .inr (.inr (.inl rfl))
  | interrupt => exact .inr (.inr (.inl rfl))
  | stopped => exact .inr (.inr (.inr rfl))
  | again => exact hkeep ⟨rfl, rfl, rfl⟩

theorem yield_not_closed {rest : List ObjectInfo} {next : Option Str} :
    ¬ (Main.yield rest next = .done false ∨ ∃ batch, Main.yield rest next = .flush batch) := by
  cases rest with
  | cons => simp [Main.yield]
  | nil => cases next <;> simp [Main.yield]

theorem Closed.step {e : TransferEvent} (h : Closed t) (hs : Sound l move plan objs t)
    (hd : Does l move plan t e t') : Closed t' := by
  -- a worker that moves shows that the main thread is not past its workers
  have hbusy : ∀ {i : Nat} {task : Task β}, t.tasks[i]? = some task →
      ¬ (t.main = .done false ∨ ∃ batch, t.main = .flush batch) := by
    intro i task hi hmain
    rw [(h hmain).1] at hi
    cases hi
  have hother : ∀ {i : Nat} {task : Task β}, t.tasks[i]? = some task → t'.main = t.main →
      Closed t' := by
    intro i task hi hmain hclosed
    rw [hmain] at hclosed
    exact absurd hclosed (hbusy hi)
  cases hd with
  | page hmain => exact fun hclosed => absurd hclosed yield_not_closed
  | submit hmain => exact fun hclosed => absurd hclosed yield_not_closed
  | pick hi => exact hother hi sameMain_beginCopy.1
  | copied hi => exact hother hi rfl
  | created hi => exact hother hi sameMain_nextPart.1
  | part hi => exact hother hi sameMain_nextPart.1
  | completed hi => exact hother hi rfl
  | failed hi => exact hother hi rfl
  | added hi => exact hother hi sameMain_added.1
  | deleted hi hphase ha hu =>
    obtain ⟨tally, -, rfl⟩ := delete_cases hu
    exact hother hi rfl
  | broke hi => exact hother hi rfl
  | raised hi => exact hother hi rfl
  | flush hmain htasks hfailed hmove => exact fun _ => ⟨htasks, rfl, hfailed⟩
  | finish hmain htasks hfailed hbatch =>
    refine fun _ => ⟨htasks, ?_, hfailed⟩
    obtain hcopy | hempty := hbatch
    · apply List.eq_nil_iff_forall_not_mem.mpr
      intro k hk
      have hmove := (hs.batch k hk).1
      rw [hcopy] at hmove
      cases hmove
    · exact hempty
  | @flushed batch a u hmain ha hu =>
    obtain ⟨tally, -, rfl⟩ := delete_cases hu
    exact fun _ => h (.inr ⟨batch, hmain⟩)
  | flushRaised =>
    intro hclosed
    simp at hclosed
  | interrupt =>
    intro hclosed
    simp at hclosed
  | stopped =>
    intro hclosed
    simp at hclosed
  | again => exact h

/-- who holds a key goes on holding it as its worker moves on -/
theorem held_setPhase {i : Nat} {task : Task β} {phase : Phase β} {k : Str}
    (hi : t.tasks[i]? = some task) (hnext : held k task → held k { task with phase := phase })
    (h : ∃ task ∈ t.tasks, held k task) : ∃ task' ∈ (t.setPhase i task phase).tasks,
      held k task' := by
  obtain ⟨other, hother, hk⟩ := h
  obtain rfl | hkept := mem_set_or (z := { task with phase := phase }) hi hother
  · exact ⟨_, mem_set_self hi, hnext hk⟩
  · exact ⟨other, hkept, hk⟩

/-- a key that a copy under way holds is that of its source -/
theorem held_copying {task : Task β} {k : Str} {phase : Phase β}
    (hphase : ∀ batch, task.phase ≠ .deleting batch) (hnext : ∀ batch, phase ≠ .deleting batch)
    (h : held k task) : held k { task with phase := phase } := by
  have hkey : task.source.key = k := by
    unfold held at h
    split at h
    · rename_i batch hdeleting
      exact absurd hdeleting (hphase batch)
    · exact h
  cases phase with
  | deleting batch => exact absurd rfl (hnext batch)
  | _ => exact hkey

theorem held_beginCopy {i : Nat} {task : Task β} {k : Str} (hi : t.tasks[i]? = some task)
    (hphase : ∀ batch, task.phase ≠ .deleting batch) (h : ∃ task ∈ t.tasks, held k task) :
    ∃ task' ∈ (t.beginCopy l i task).tasks, held k task' := by
  unfold beginCopy
  split
  · exact held_setPhase hi (held_copying hphase (by simp)) h
  · exact held_setPhase hi (held_copying hphase (by simp)) h

theorem held_nextPart {i : Nat} {task : Task β} {rest : List (Nat × Nat)} {parts : List (List β)}
    {k : Str} (hi : t.tasks[i]? = some task) (hphase : ∀ batch, task.phase ≠ .deleting batch)
    (h : ∃ task ∈ t.tasks, held k task) :
    ∃ task' ∈ (t.nextPart i task rest parts).tasks, held k task' := by
  unfold nextPart
  split
  · exact held_setPhase hi (held_copying hphase (by simp)) h
  · exact held_setPhase hi (held_copying hphase (by simp)) h

/-- a copied item's key goes to the batch, or out with it -/
theorem held_addToBatch {i : Nat} {task : Task β} {k : Str} (hi : t.tasks[i]? = some task)
    (hphase : task.phase = .copied) (h : (∃ task ∈ t.tasks, held k task) ∨ k ∈ t.batch) :
    (∃ task' ∈ (t.addToBatch l i task).tasks, held k task') ∨
      k ∈ (t.addToBatch l i task).batch := by
  have hcases : k ∈ t.batch ++ [task.source.key] ∨ ∃ other ∈ t.tasks.eraseIdx i, held k other := by
    obtain ⟨other, hother, hk⟩ | hbatch := h
    · obtain rfl | hkept := mem_eraseIdx_or hi hother
      · rw [held, hphase] at hk
        have hk : other.source.key = k := hk
        exact .inl (List.mem_append_right _ (List.mem_singleton.mpr hk.symm))
      · exact .inr ⟨other, hkept, hk⟩
    · exact .inl (List.mem_append_left _ hbatch)
  unfold addToBatch
  dsimp only
  split
  · exact hcases.symm
  · obtain hbatch | ⟨other, hother, hk⟩ := hcases
    · exact .inl ⟨_, mem_set_self hi, hbatch⟩
    · refine .inl ⟨other, ?_, hk⟩
      obtain ⟨j, hj, hother⟩ := List.mem_eraseIdx_iff_getElem?.mp hother
      refine List.mem_iff_getElem?.mpr ⟨j, ?_⟩
      show (t.tasks.set i _)[j]? = some other
      rw [List.getElem?_set_ne (Ne.symm hj)]
      exact hother

/-- when all items are done, only the batch has keys in hand -/
theorem Pending.drained {k : Str} (h : Pending t k) (hmain : t.main = .drain)
    (htasks : t.tasks = []) : k ∈ t.batch := by
  obtain hahead | ⟨task, htask, -⟩ | hbatch | hflush := h
  · rw [hmain] at hahead
    exact hahead.elim
  · rw [htasks] at htask
    cases htask
  · exact hbatch
  · rw [hmain] at hflush
    cases hflush

/-- the keys of a batch that was answered without a problem are handled -/
theorem handled_of_delete {batch : List Str} {a : DeleteAnswer} {u : Transfer β}
    (ha : Apart plan objs) (hreturn : NoReturns plan objs)
    (hbatch : ∀ k ∈ batch, Doomed move plan objs t.objects k) (hanswer : answerable batch a = true)
    (hu : t.delete batch a = some u) : Trouble u ∨
      ∀ k ∈ batch, Handled move plan objs u.objects k := by
  have heffect := effect_delete hreturn hbatch hu
  obtain ⟨tally, htally, rfl⟩ := delete_cases hu
  obtain hproblems | hremoved :=
    removed_of_deleteBatch (not_hasReturn hreturn hbatch) hanswer htally
  · exact .inl (.inl hproblems)
  · refine .inr fun k hk => ⟨heffect.copied ha (hbatch k hk).2, fun _ => ?_⟩
    rw [content_remove, if_pos (hremoved k hk)]

/-- **the step lemma**: no object slips out of every hand -/
theorem Accounted.step {e : TransferEvent} (h : Accounted move plan objs t) (ha : Apart plan objs)
    (hreturn : NoReturns plan objs) (hs : Sound l move plan objs t)
    (hlists : Lists plan t e) (hd : Does l move plan t e t')
    (heffect : Effect move plan objs t.objects t'.objects) : Accounted move plan objs t' := by
  obtain htrouble | h := h
  · exact .inl (htrouble.step hd)
  -- what is handled stays handled, so a step has to keep what is pending
  have hkeep : (∀ k c, Item plan objs k c → Pending t k →
      Pending t' k ∨ Handled move plan objs t'.objects k) → Accounted move plan objs t' := by
    intro hpending
    refine .inr ?_
    intro k c hitem
    obtain hp | hhandled := h k c hitem
    · exact hpending k c hitem hp
    · exact .inr (hhandled.mono ha heffect)
  have hsame : t'.main = t.main → t'.batch = t.batch →
      (∀ k, (∃ task ∈ t.tasks, held k task) → ∃ task ∈ t'.tasks, held k task) →
      Accounted move plan objs t' := by
    intro hmain hbatch htasks
    refine hkeep ?_
    intro k c hitem hp
    refine .inl ?_
    unfold Pending
    rw [hmain, hbatch]
    obtain hp | hp | hp := hp
    · exact .inl hp
    · exact .inr (.inl (htasks k hp))
    · exact .inr (.inr hp)
  cases hd with
  | @page items next after hmain =>
    refine hkeep ?_
    intro k c hitem hp
    obtain hahead | htask | hbatch | hflush := hp
    · obtain hin | ⟨hmove, hnone, hc⟩ := hs.kept.items k c hitem
      · have hlater : Later after k := by
          rw [hmain] at hahead
          exact hahead
        have hfound := hlists.all items next after rfl hmain k hitem.1 (by rw [hin]; rfl) hlater
        exact .inl (.inl (ahead_yield hfound))
      · exact .inr ⟨⟨c, hitem, hc⟩, fun _ => hnone⟩
    · exact .inl (.inr (.inl htask))
    · exact .inl (.inr (.inr (.inl hbatch)))
    · rw [hmain] at hflush
      cases hflush
  | @submit info rest next hmain =>
    refine hkeep ?_
    intro k c hitem hp
    refine .inl ?_
    obtain hahead | ⟨task, htask, hk⟩ | hbatch | hflush := hp
    · rw [hmain] at hahead
      obtain ⟨info', hinfo, hkey⟩ | hnext := hahead
      · obtain rfl | hinfo := List.mem_cons.mp hinfo
        · exact .inr (.inl ⟨_, List.mem_append_right _ (List.mem_singleton.mpr rfl), hkey⟩)
        · exact .inl (ahead_yield (.inl ⟨info', hinfo, hkey⟩))
      · exact .inl (ahead_yield (.inr hnext))
    · exact .inr (.inl ⟨task, List.mem_append_left _ htask, hk⟩)
    · exact .inr (.inr (.inl hbatch))
    · rw [hmain] at hflush
      cases hflush
  | pick hi hphase =>
    exact hsame sameMain_beginCopy.1 batch_beginCopy fun k =>
      held_beginCopy hi (by simp [hphase])
  | copied hi hphase hc =>
    exact hsame rfl rfl fun k => held_setPhase hi (held_copying (by simp [hphase]) (by simp))
  | created hi hphase =>
    exact hsame sameMain_nextPart.1 batch_nextPart fun k => held_nextPart hi (by simp [hphase])
  | part hi hphase hc =>
    exact hsame sameMain_nextPart.1 batch_nextPart fun k => held_nextPart hi (by simp [hphase])
  | completed hi hphase =>
    exact hsame rfl rfl fun k => held_setPhase hi (held_copying (by simp [hphase]) (by simp))
  | failed hi =>
    refine .inl (.inl ?_)
    show _ ++ _ ≠ []
    simp
  | @added i task hi hphase =>
    refine hkeep ?_
    intro k c hitem hp
    split
    · obtain hahead | hheld | hbatch | hflush := hp
      · exact .inl (.inl (by rw [(sameMain_addToBatch).1]; exact hahead))
      · exact .inl ((held_addToBatch hi hphase (.inl hheld)).elim (fun h => .inr (.inl h))
          fun h => .inr (.inr (.inl h)))
      · exact .inl ((held_addToBatch hi hphase (.inr hbatch)).elim (fun h => .inr (.inl h))
          fun h => .inr (.inr (.inl h)))
      · exact .inl (.inr (.inr (.inr (by rw [(sameMain_addToBatch).1]; exact hflush))))
    · rename_i hcopy
      obtain hahead | ⟨other, hother, hk⟩ | hbatch | hflush := hp
      · exact .inl (.inl hahead)
      · obtain rfl | hkept := mem_eraseIdx_or hi hother
        · rw [held, hphase] at hk
          have hk : other.source.key = k := hk
          have hcopied := hs.copied hi hphase
          rw [hk] at hcopied
          exact .inr ⟨hcopied, fun hmove => absurd hmove hcopy⟩
        · exact .inl (.inr (.inl ⟨other, hkept, hk⟩))
      · exact .inl (.inr (.inr (.inl hbatch)))
      · exact .inl (.inr (.inr (.inr hflush)))
  | @deleted i task batch a u hi hphase hanswer hu =>
    obtain htrouble | hhandled :=
      handled_of_delete ha hreturn (hs.deleting hi hphase) hanswer hu
    · exact .inl htrouble
    · obtain ⟨tally, -, rfl⟩ := delete_cases hu
      refine hkeep ?_
      intro k c hitem hp
      obtain hahead | ⟨other, hother, hk⟩ | hrest := hp
      · exact .inl (.inl hahead)
      · obtain rfl | hkept := mem_eraseIdx_or hi hother
        · rw [held, hphase] at hk
          exact .inr (hhandled k hk)
        · exact .inl (.inr (.inl ⟨other, hkept, hk⟩))
      · exact .inl (.inr (.inr hrest))
  | broke hi => exact .inl (.inr (.inl rfl))
  | raised hi => exact .inl (.inr (.inl rfl))
  | flush hmain htasks hfailed hmove =>
    refine hkeep ?_
    intro k c hitem hp
    exact .inl (.inr (.inr (.inr (hp.drained hmain htasks))))
  | finish hmain htasks hfailed hbatch =>
    refine hkeep ?_
    intro k c hitem hp
    exact .inl (.inr (.inr (.inl (hp.drained hmain htasks))))
  | @flushed batch a u hmain hanswer hu =>
    obtain htrouble | hhandled := handled_of_delete ha hreturn (hs.flushed hmain) hanswer hu
    · obtain ⟨tally, -, rfl⟩ := delete_cases hu
      exact .inl ((htrouble.going (by simp [hmain]) (by simp [hmain])).elim .inl
        fun hf => .inr (.inl hf))
    · obtain ⟨tally, -, rfl⟩ := delete_cases hu
      refine hkeep ?_
      intro k c hitem hp
      obtain hahead | hheld | hin | hflush := hp
      · rw [hmain] at hahead
        exact hahead.elim
      · exact .inl (.inr (.inl hheld))
      · exact .inl (.inr (.inr (.inl hin)))
      · rw [hmain] at hflush
        exact .inr (hhandled k hflush)
  | flushRaised => exact .inl (.inr (.inr (.inl rfl)))
  | interrupt => exact .inl (.inr (.inr (.inl rfl)))
  | stopped => exact .inl (.inr (.inr (.inr rfl)))
  | again => exact hsame rfl rfl fun k h => h

theorem start_accounted {path arg destination : Str}
    (h : planWithin objs path arg destination move = .ok plan) :
    Accounted move plan objs (start objs plan) ∧ Closed (start objs plan) := by
  obtain ⟨info, key, rfl, -⟩ | ⟨folder, base, rfl, -⟩ := planWithin_cases h
  · refine ⟨.inr fun k c hitem => .inl (.inl (.inl ⟨info, List.mem_cons_self, ?_⟩)), ?_⟩
    · exact (of_decide_eq_true hitem.1).symm
    · simp [Closed, start]
  · refine ⟨.inr fun k c hitem => .inl (.inl ?_), ?_⟩
    · intro a hafter
      cases hafter
    · simp [Closed, start]

/-- **a run without problems is complete**: when a copy or a move ends without an exception and has
reported nothing, every object it took up is where it goes, whole, and by a move no longer where it
was, though requests failed, were late or came twice, and the listing went on meanwhile -/
theorem move_complete {path arg destination : Str}
    (hplan : planWithin objs path arg destination move = .ok plan) (hout : Outside plan objs)
    (hreturn : NoReturns plan objs) (hpart : 0 < l.copyPartSize)
    (h : (machine l move plan).Reach (Lists plan) (start objs plan) t)
    (hdone : t.main = .done false) (hproblems : t.tally.problems = []) :
    ∀ k c, Item plan objs k c → t.objects.content (plan.dest k) = some c ∧
      (move = true → t.objects.content k = none) := by
  have ha := apart_of_outside hplan hout
  obtain ⟨haccounted, hclosed⟩ := start_accounted hplan
  have hend : Sound l move plan objs t ∧ Accounted move plan objs t ∧ Closed t := by
    refine h.invariant (P := fun s => Sound l move plan objs s ∧ Accounted move plan objs s ∧
      Closed s) ⟨start_sound hplan, haccounted, hclosed⟩ ?_
    rintro s e u ⟨hs, hacc, hcl⟩ hlists hstep
    have hd := step_cases hstep
    exact ⟨hs.step ha hreturn hpart (hs.lists ha hlists) hd,
      hacc.step ha hreturn hs hlists hd (hs.effect ha hreturn hd), hcl.step hs hd⟩
  obtain ⟨hs, htrouble | hall, hcl⟩ := hend
  · obtain ⟨-, -, hfailed⟩ := hcl (.inl hdone)
    obtain h | h := htrouble.going (by simp [hdone]) (by simp [hdone])
    · exact absurd hproblems h
    · rw [hfailed] at h
      cases h
  · intro k c hitem
    obtain ⟨htasks, hbatch, -⟩ := hcl (.inl hdone)
    obtain hpending | hhandled := hall k c hitem
    · obtain h | ⟨task, htask, -⟩ | h | h := hpending
      · rw [hdone] at h
        exact h.elim
      · rw [htasks] at htask
        cases htask
      · rw [hbatch] at h
        cases h
      · rw [hdone] at h
        cases h
    · obtain ⟨⟨c', hitem', hc⟩, hgone⟩ := hhandled
      rw [hitem'.eq hitem] at hc
      exact ⟨hc, hgone⟩

/-- an object in two parts and one in a single request, then the batch of both -/
theorem move_complete_two : ∃ t : Transfer Nat,
    t.objects.content (Str.lit "c/x") = some [1, 2, 3] ∧
      t.objects.content (Str.lit "a/x") = none := by
  have hrun : ((machine Sample.small true Sample.toC).runIf (Sample.lists Sample.toC)
      (start Sample.bucket Sample.toC) (Sample.listed ++ [.pick 0, .pick 1, .answer 0 (.ok ()),
        .answer 0 (.ok ()), .answer 1 (.ok ()), .add 1, .answer 0 (.ok ()), .answer 0 (.ok ()),
        .add 0, .deleted 0 (.ok (some [])), .finish])).any (fun t =>
          decide (t.tally.problems = []) && Sample.isDone false t.main) = true := by
    decide +kernel
  obtain ⟨t, ht, -, hp⟩ := Machine.exists_reach_of_runIf (P := fun _ => True)
    (fun _ _ _ _ _ _ => trivial) (fun _ _ _ h => Sample.lists_ok h) trivial hrun
  obtain ⟨hproblems, hend⟩ := (Bool.and_eq_true _ _).mp hp
  have hx : Item Sample.toC Sample.bucket (Str.lit "a/x") [1, 2, 3] := ⟨by decide, by decide⟩
  have hdone := Sample.isDone_iff.mp hend
  obtain ⟨hcopied, hgone⟩ := move_complete Sample.planned Sample.toC_outside
    Sample.bucket_noReturns (by decide) ht hdone (of_decide_eq_true hproblems) _ _ hx
  exact ⟨t, hcopied, hgone rfl⟩

/-- to the root, a folder's marker is lost: its copy addresses the bucket -/
example : ((machine limits true (.below (Str.lit "a/") [])).run
    (start [(Str.lit "a/", [1]), (Str.lit "a/x", [2])] (.below (Str.lit "a/") []))
    [.page [⟨Str.lit "a/", 1⟩, ⟨Str.lit "a/x", 1⟩] none, .submit, .submit, .pick 0, .pick 1,
      .answer 0 (.ok ()), .answer 1 (.ok ()), .add 0, .add 0, .finish,
      .flushed (.ok (some []))]).any (fun t =>
        decide (t.objects = [(Str.lit "x", [2])] ∧ t.tally.problems = [])) = true := by
  decide +kernel

/-- into an ancestor, what lands under the folder is lost: the one object overwrites the other, and
is deleted with it -/
example : ((machine limits true (.below (Str.lit "a/b/") (Str.lit "a/"))).run
    (start [(Str.lit "a/b/b/x", [1]), (Str.lit "a/b/x", [2])]
      (.below (Str.lit "a/b/") (Str.lit "a/")))
    [.page [⟨Str.lit "a/b/b/x", 1⟩, ⟨Str.lit "a/b/x", 1⟩] none, .submit, .pick 0,
      .answer 0 (.ok ()), .add 0, .submit, .pick 0, .answer 0 (.ok ()), .add 0, .finish,
      .flushed (.ok (some []))]).any (fun t =>
        decide (t.objects = [(Str.lit "a/x", [1])] ∧ t.tally.problems = [])) = true := by
  decide +kernel

end Transfer

end Freepod.Cli

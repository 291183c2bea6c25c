import Freepod.Accounts.Contract

/-!
# Accounts: runs

What every run of the requests keeps, under any condition on its steps.

* `last_call`: the states around the last call of a request.
* `BoundTo`, `LiveAt`, `HoldsHandle`: what is asked of the record of an id.
* `not_lost`: a record that was written to is there ever after.
-/

namespace Freepod.Accounts
open Base

set_option linter.unusedSectionVars false

abbrev AccountTrace := List (Entry Ret Request Unit)

/-- a condition on the steps of a run -/
abbrev Condition [Database] := AccountPool → AccountEvent → Prop

section
variable [Database] {cfg : Config} {ok : Condition} {t t' : Table User} {p q : AccountPool}

/-! ## Records -/

/-- the record is there, and bound to the subject -/
def BoundTo (t : Table User) (id : UserId) (s : String) : Prop :=
  ∃ u, t.get? id = some u ∧ u.keycloakSubject = some s

/-- the record is there, and live -/
def LiveAt (t : Table User) (id : UserId) : Prop := ∃ u, t.get? id = some u ∧ u.deletedAt = none

/-- the record is there, and holds the handle -/
def HoldsHandle (t : Table User) (id : UserId) (h : String) : Prop :=
  ∃ u, t.get? id = some u ∧ u.handle = some h

/-- the call shows that a record is there -/
inductive Writes : Base.Call Ret → UserId → Prop where
  | updates (id : UserId) (c : Column) : Writes ⟨.update id c, true⟩ id
  | inserts {e : String} {s : Option String} (id : UserId) : Writes ⟨.insertUser e s, some id⟩ id

theorem Writes.now {c : Base.Call Ret} {id : UserId} (hd : Does t c t') (h : Writes c id) :
    ∃ u, t'.get? id = some u := by
  cases h with
  | updates =>
    cases hd with
    | nothing h => cases h
    | updates hu ht => exact ⟨_, get?_of_update hu ht⟩
  | inserts =>
    cases hd with
    | nothing h => cases h
    | inserts ht => exact ⟨_, Table.get?_insert?_self ht⟩

theorem there_step {c : Base.Call Ret} {id : UserId} {u : User} (hd : Does t c t')
    (h : t.get? id = some u) : ∃ v, t'.get? id = some v := by
  rcases hd.get? h with hu | ⟨column, -, hu⟩
  · exact ⟨u, hu⟩
  · exact ⟨_, hu⟩

/-- every record that was written to is there -/
def AllThere (t : Table User) (tr : AccountTrace) : Prop :=
  ∀ e ∈ tr, ∀ id, Writes e.call id → ∃ u, t.get? id = some u

/-- would the statement violate no index? -/
def Fits (t : Table User) : Op → Prop
  | .update id column => ∃ t', setColumn t id column = some t'
  | .insertUser email subject => ∃ t', t.insert? (newUser t email subject) = some t'
  | _ => True

theorem fits_of_update {id : UserId} {column : Column} {clock : Time}
    (hp : perform t (.update id column) clock = some (true, t')) : Fits t (.update id column) := by
  simp only [perform] at hp
  split at hp
  · rename_i t1 hset
    exact ⟨t1, hset⟩
  · cases hp

/-- a column whose entry is free fits -/
theorem fits_of_free {id : UserId} {column : Column} {u : User} (hu : t.get? id = some u)
    (hfree : ∀ x, column.entry = some x → IndexFree x t) : Fits t (.update id column) := by
  have hid : (column.set u).id = id := (column.set_id u).trans (Table.key_of_get? hu)
  have hself : t.get? (Row.key (column.set u)) = some u := by
    show t.get? (column.set u).id = some u
    rw [hid]
    exact hu
  obtain ⟨t', ht⟩ := Table.put?_isSome_of_apart hself (nodup_indexed _) fun v hv hne x hx hnew => by
    rcases mem_indexed_set hnew with hold | hnew
    · have heq := Table.eq_of_entry hv (Table.mem_of_get? hu) hx hold
      exact hne (heq ▸ (column.set_id u).symm)
    · exact hfree x hnew v hv hx
  exact ⟨t', Option.bind_eq_some_iff.mpr ⟨u, hu, ht⟩⟩

/-- and so does a new record whose entries are free -/
theorem fits_of_free_insert {e : String} {s : Option String}
    (hfree : ∀ x ∈ gives ⟨.insertUser e s, some t.nextKey⟩, IndexFree x t) :
    Fits t (.insertUser e s) := by
  refine Table.insert?_isSome (fun r hr hid => ?_) (fun r hr x hx hnew => ?_) (nodup_indexed _)
  · have hnone := Table.get?_nextKey t
    have hid : r.id = t.nextKey := hid
    rw [← hid, show t.get? r.id = some r from Table.get?_of_mem hr] at hnone
    cases hnone
  · exact hfree x (mem_indexed_newUser.mp hnew) r hr hx

/-- a write that fits is not refused -/
theorem not_refused_of_fits {o : Op} {x : Ret o} {clock : Time} (hp : perform t o clock = some (x, t'))
    (hfit : Fits t o) : ¬ Refused ⟨o, x⟩ := by
  rintro ⟨hres, hun⟩
  cases o with
  | update id column =>
    obtain ⟨t1, ht1⟩ := hfit
    simp only [perform, ht1] at hp
    cases hp
    cases hun
  | insertUser email subject =>
    obtain ⟨t1, ht1⟩ := hfit
    simp only [perform, ht1] at hp
    cases hp
    cases hun
  | _ => cases hres

/-! ## Runs -/

/-- what one step does to the records -/
theorem does_of_step {a : AccountEvent} (h : (service cfg).step p a = some q) :
    q.store = p.store ∨ ∃ i c req o k x, a = .run i c ∧ p.threads[i]? = some ⟨req, .call o k⟩ ∧
      perform p.store o c = some (x, q.store) := by
  obtain ⟨req, rfl, rfl⟩ | ⟨i, c, req, o, k, x, s, rfl, hth, hp, rfl⟩ | ⟨w, s, rfl, hc, rfl⟩ :=
    step_cases h
  · exact .inl rfl
  · exact .inr ⟨i, c, req, o, k, x, rfl, hth, hp⟩
  · exact nomatch w

section
variable {t0 : Table User} {i : Nat} (h : (service cfg).machine.Reach ok (Service.start t0) p)
include h

theorem allThere : AllThere p.store p.trace := by
  refine (h.history (C := contract cfg) (meets_handler cfg) (I := AllThere)
    (F := fun _ _ => True) (fun e he => by cases he) (fun _ w _ _ _ => nomatch w) ?_).2.1
  intro p i c req o k x s _ _ hall _ _ _ hp
  have hd := does_of_perform hp
  refine ⟨fun e he id hw => ?_, trivial⟩
  rcases List.mem_cons.mp he with rfl | he
  · exact Writes.now hd hw
  · obtain ⟨u, hu⟩ := hall e he id hw
    exact there_step hd hu

/-- **the last call of a request**: the states before and after it -/
theorem last_call {o : Op} {x : Ret o} {log : Log Ret} (hlog : logOf i p.trace = ⟨o, x⟩ :: log) :
    ∃ r p' clock req k, (service cfg).machine.Reach ok (Service.start t0) r ∧
      logOf i r.trace = log ∧ ok r (.run i clock) ∧
      r.threads[i]? = some ⟨req, .call o k⟩ ∧ perform r.store o clock = some (x, p'.store) ∧
      AtWork p' i ∧ (service cfg).machine.Reach ok r p' ∧ (service cfg).machine.Reach ok p' p := by
  have hl : ⟨o, x⟩ :: log <:+ logOf i p.trace := by rw [hlog]
  obtain ⟨r, c, req, k, t, hr, hlog', hok, hth, hp, hafter⟩ := h.made_of_logOf hl
  have hi := (List.getElem?_eq_some_iff.mp hth).1
  refine ⟨r, ⟨t, r.threads.set i ⟨req, k x⟩, ⟨i, req, ⟨o, x⟩, ()⟩ :: r.trace⟩, c, req, k, hr, hlog',
    hok, hth, hp, ?_, Machine.Reach.tail .refl hok (step_of_perform hth hp), hafter⟩
  exact ⟨_, List.getElem?_set_self hi, .inr ⟨_, _, rfl, rfl⟩⟩

/-- **no record that was written to is gone** -/
theorem not_lost : ¬ Lost (logOf i p.trace) := by
  rintro ⟨id, older, hlog, hw⟩
  obtain ⟨r, p', c, req, k, hr, hlog', -, -, hp, -⟩ := last_call h hlog
  have hthere : ∃ u, r.store.get? id = some u := by
    obtain ⟨column, hm⟩ | ⟨e', s', hm⟩ := hw
    · obtain ⟨en, older', hsuf, -, hc⟩ := entry_of_mem_logOf (hlog' ▸ hm)
      exact allThere hr en (mem_of_cons_suffix hsuf) id (hc ▸ .updates id column)
    · obtain ⟨en, older', hsuf, -, hc⟩ := entry_of_mem_logOf (hlog' ▸ hm)
      exact allThere hr en (mem_of_cons_suffix hsuf) id (hc ▸ .inserts id)
  obtain ⟨u, hu⟩ := hthere
  have hnone : r.store.get? id = none := (Prod.mk.inj (Option.some.inj hp)).1
  rw [hu] at hnone
  cases hnone

end

/-- a step of a request that comes before `p`: the call it made is in the request's log -/
theorem call_of_step {r r' : AccountPool} {i : Nat} {c : Time}
    (hstep : (service cfg).step r (.run i c) = some r')
    (hafter : (service cfg).machine.Reach ok r' p) :
    ∃ req o k x, r.threads[i]? = some ⟨req, .call o k⟩ ∧ Does r.store ⟨o, x⟩ r'.store ∧
      (⟨o, x⟩ : Base.Call Ret) ∈ logOf i p.trace ∧ ∃ th, p.threads[i]? = some th ∧ th.req = req := by
  obtain ⟨req, heq, -⟩ | ⟨j, c', req, o, k, x, t, heq, hth, hp, rfl⟩ | ⟨w, t, heq, -⟩ :=
    step_cases hstep
  · cases heq
  · cases heq
    have hi := (List.getElem?_eq_some_iff.mp hth).1
    exact ⟨req, o, k, x, hth, does_of_perform hp,
      mem_logOf (hafter.trace_suffix.subset List.mem_cons_self),
      hafter.thread_stays (List.getElem?_set_self hi)⟩
  · cases heq

end

/-! ## A small service -/

namespace Sample

/-- of ASCII -/
def lower (s : String) : String := String.ofList (s.toList.map Char.toLower)

@[reducible] def database : Database := ⟨lower⟩

def config : Config where
  strip := id
  lower := lower
  repr := fun s => "'" ++ s ++ "'"
  reservedHandles := ["www"]
  tenantDomain := "apps.freepod.example"

/-- the next `n` calls of request `i` -/
def runs (i n : Nat) : List AccountEvent := List.replicate n (.run i 0)

end Sample

end Freepod.Accounts

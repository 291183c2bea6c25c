import Freepod.Base.Pool
import Freepod.Platform.Hostnames

/-!
# Accounts: the user records

The `user` table of `models/core.py` under its three partial unique indexes, and the statements
that `deps.py` and `services/users.py` run against it.  Each is a step of its own: a query, or a
write with the commit that follows it at once.  A write that violates an index is rolled back.

* `User`, and `Row User`: the indexes are over the live records only.
* `Op`, `perform`: the statements and what they do.
* `does_of_perform`: a statement leaves the table, overwrites one row, or appends one.
-/

namespace Freepod.Accounts
open Base

/-- the database's `lower()`, which is not Python's -/
class Database where
  lower : String → String

structure User where
  id : UserId
  email : String
  keycloakSubject : Option String
  handle : Option String
  deletedAt : Option Time
  deriving DecidableEq

/-- an entry in one of the three indexes -/
inductive IndexEntry
  | email (lowered : String)
  | handle (lowered : String)
  | keycloakSubject (subject : String)
  deriving DecidableEq

section
variable [Database]

/-- a deleted record is in no index, and neither is a null -/
def User.indexed (u : User) : List IndexEntry :=
  if u.deletedAt = none then
    .email (Database.lower u.email) ::
      ((u.handle.map fun h => .handle (Database.lower h)).toList ++
        (u.keycloakSubject.map .keycloakSubject).toList)
  else []

instance : Row User UserId IndexEntry where
  key := User.id
  entries := User.indexed

/-- a column, and the value an `UPDATE` sets it to -/
inductive Column
  | email (value : String)
  | keycloakSubject (value : String)
  | handle (value : String)
  | deletedAt (value : Time)
  deriving DecidableEq

def Column.set (c : Column) (u : User) : User :=
  match c with
  | .email value => { u with email := value }
  | .keycloakSubject value => { u with keycloakSubject := some value }
  | .handle value => { u with handle := some value }
  | .deletedAt value => { u with deletedAt := some value }

omit [Database] in
@[simp] theorem Column.set_id (c : Column) (u : User) : (c.set u).id = u.id := by
  cases c <;> rfl

/-- a statement -/
inductive Op
  /-- `_live_user` by `keycloak_subject` -/
  | bySubject (subject : String)
  /-- `_live_user` by `lower(email)` -/
  | byEmail (email : String)
  /-- the live record of an id -/
  | byId (id : UserId)
  /-- the record of an id: a refresh, or the reload of an expired one -/
  | load (id : UserId)
  /-- does any record, live or deleted, hold the handle? -/
  | handleHeld (candidate : String)
  | now
  /-- `UPDATE` and `COMMIT`; false is an `IntegrityError` -/
  | update (id : UserId) (column : Column)
  /-- `INSERT` and `COMMIT`; none is an `IntegrityError` -/
  | insertUser (email : String) (subject : Option String)
  deriving DecidableEq

abbrev Ret : Op → Type
  | .bySubject _ => Option User
  | .byEmail _ => Option User
  | .byId _ => Option User
  | .load _ => Option User
  | .handleHeld _ => Bool
  | .now => Time
  | .update _ _ => Bool
  | .insertUser _ _ => Option UserId

/-- the live record that meets `p`, which the indexes make the only one -/
def liveUser (t : Table User) (p : User → Bool) : Option User :=
  t.rows.find? fun u => p u && u.deletedAt.isNone

/-- the table once a column of a record is set -/
def setColumn (t : Table User) (id : UserId) (c : Column) : Option (Table User) :=
  (t.get? id).bind fun u => t.put? (c.set u)

/-- the record that an `INSERT` makes -/
def newUser (t : Table User) (email : String) (subject : Option String) : User :=
  { id := t.nextKey, email := email, keycloakSubject := subject, handle := none, deletedAt := none }

/-- one statement; `clock` is the instant it is run at -/
def perform (t : Table User) (o : Op) (clock : Time) : Option (Ret o × Table User) :=
  match o with
  | .bySubject subject => some (liveUser t fun u => decide (u.keycloakSubject = some subject), t)
  | .byEmail email => some (liveUser t fun u => decide (Database.lower u.email = email), t)
  | .byId id => some (liveUser t fun u => decide (u.id = id), t)
  | .load id => some (t.get? id, t)
  | .handleHeld candidate =>
    some (t.rows.any fun u => decide (u.handle.map Database.lower = some candidate), t)
  | .now => some (clock, t)
  | .update id column =>
    match setColumn t id column with
    | some t' => some (true, t')
    | none => some (false, t)
  | .insertUser email subject =>
    match t.insert? (newUser t email subject) with
    | some t' => some (some t.nextKey, t')
    | none => some (none, t)

/-! ## What a statement does -/

/-- a call that changed nothing: a query, or a write that was refused -/
def Unwritten (c : Base.Call Ret) : Prop :=
  match c with
  | ⟨.update _ _, x⟩ => x = false
  | ⟨.insertUser _ _, x⟩ => x = none
  | _ => True

/-- **what one statement can do** -/
inductive Does (t : Table User) : (c : Base.Call Ret) → Table User → Prop where
  | nothing {c : Base.Call Ret} (h : Unwritten c) : Does t c t
  | updates {id : UserId} {column : Column} {u : User} {t' : Table User} (hu : t.get? id = some u)
      (ht : t.put? (column.set u) = some t') : Does t ⟨.update id column, true⟩ t'
  | inserts {email : String} {subject : Option String} {t' : Table User}
      (ht : t.insert? (newUser t email subject) = some t') :
      Does t ⟨.insertUser email subject, some t.nextKey⟩ t'

variable {t t' : Table User} {o : Op} {clock : Time} {x : Ret o}

theorem does_of_perform (h : perform t o clock = some (x, t')) : Does t ⟨o, x⟩ t' := by
  cases o with
  | update id column =>
    simp only [perform] at h
    split at h
    · rename_i t'' hset
      obtain ⟨u, hu, ht⟩ := Option.bind_eq_some_iff.mp hset
      cases h
      exact .updates hu ht
    · cases h
      exact .nothing rfl
  | insertUser email subject =>
    simp only [perform] at h
    split at h
    · rename_i t'' hins
      cases h
      exact .inserts hins
    · cases h
      exact .nothing rfl
  | _ =>
    cases h
    exact .nothing trivial

/-- a query finds a live record that meets it -/
theorem liveUser_eq_some {p : User → Bool} {u : User} (h : liveUser t p = some u) :
    t.get? u.id = some u ∧ u.deletedAt = none ∧ p u = true := by
  have hp := List.find?_some h
  rw [Bool.and_eq_true, Option.isNone_iff_eq_none] at hp
  exact ⟨Table.get?_of_mem (List.mem_of_find?_eq_some h), hp.2, hp.1⟩

theorem of_bySubject {s : String} {y : Option User}
    (h : perform t (.bySubject s) clock = some (y, t')) {u : User} (hy : y = some u) :
    t.get? u.id = some u ∧ u.deletedAt = none ∧ u.keycloakSubject = some s := by
  cases h
  obtain ⟨h1, h2, h3⟩ := liveUser_eq_some hy
  exact ⟨h1, h2, of_decide_eq_true h3⟩

theorem of_byEmail {e : String} {y : Option User}
    (h : perform t (.byEmail e) clock = some (y, t')) {u : User} (hy : y = some u) :
    t.get? u.id = some u ∧ u.deletedAt = none ∧ Database.lower u.email = e := by
  cases h
  obtain ⟨h1, h2, h3⟩ := liveUser_eq_some hy
  exact ⟨h1, h2, of_decide_eq_true h3⟩

/-- the row of an id after a write of its own -/
theorem get?_of_update {id : UserId} {column : Column} {u : User} (hu : t.get? id = some u)
    (h : t.put? (column.set u) = some t') : t'.get? id = some (column.set u) := by
  have hid : (column.set u).id = id := (column.set_id u).trans (Table.key_of_get? hu)
  have hself : t.get? (Row.key (column.set u)) = some u := by
    show t.get? (column.set u).id = some u
    rw [hid]
    exact hu
  have := Table.get?_put?_self h hself
  rwa [show Row.key (column.set u) = id from hid] at this

/-- and of any other -/
theorem get?_of_update_ne {id id' : UserId} {column : Column} {u : User} (hu : t.get? id = some u)
    (h : t.put? (column.set u) = some t') (hne : id' ≠ id) : t'.get? id' = t.get? id' := by
  refine Table.get?_put?_of_ne h ?_
  show id' ≠ (column.set u).id
  rwa [column.set_id u, show u.id = id from Table.key_of_get? hu]

/-- a call that wrote nothing left the table as it was -/
theorem Does.unwritten {c : Base.Call Ret} (h : Does t c t') (hc : Unwritten c) : t' = t := by
  cases h with
  | nothing _ => rfl
  | updates _ _ => cases hc
  | inserts _ => cases hc

/-- the row that an `UPDATE` leaves -/
theorem row_of_update {id : UserId} {column : Column} {v : User}
    (hp : perform t (.update id column) clock = some (true, t')) (hv : t.get? id = some v) :
    t'.get? id = some (column.set v) := by
  cases does_of_perform hp with
  | nothing hq => cases hq
  | updates hw ht =>
    rw [hv] at hw
    obtain rfl := Option.some.inj hw
    exact get?_of_update hv ht

/-- the row that an `INSERT` leaves -/
theorem row_of_insert {id : UserId} {e : String} {s : Option String}
    (hp : perform t (.insertUser e s) clock = some (some id, t')) :
    t'.get? id = some (newUser t e s) := by
  cases does_of_perform hp with
  | nothing hq => cases hq
  | inserts ht => exact Table.get?_insert?_self ht

/-- **a record stays**, and only an `UPDATE` of its own changes it -/
theorem Does.get? {c : Base.Call Ret} (h : Does t c t') {id : UserId} {u : User}
    (hu : t.get? id = some u) : t'.get? id = some u ∨
      ∃ column, c = ⟨.update id column, true⟩ ∧ t'.get? id = some (column.set u) := by
  cases h with
  | nothing _ => exact .inl hu
  | @updates id' column u' _ hu' ht =>
    by_cases hid : id = id'
    · subst hid
      rw [hu] at hu'
      obtain rfl := Option.some.inj hu'
      exact .inr ⟨column, rfl, get?_of_update hu ht⟩
    · exact .inl ((get?_of_update_ne hu' ht hid).trans hu)
  | inserts ht => exact .inl (Table.get?_insert?_of_get? ht hu)

/-- and a record of the table was there, or has just been inserted -/
theorem Does.origin {c : Base.Call Ret} (h : Does t c t') {id : UserId} {v : User}
    (hv : t'.get? id = some v) : (∃ u, t.get? id = some u) ∨
      ∃ e s, c = ⟨.insertUser e s, some id⟩ ∧ v = newUser t e s := by
  cases h with
  | nothing _ => exact .inl ⟨v, hv⟩
  | @updates id' column u' _ hu' ht =>
    by_cases hid : id = id'
    · exact .inl ⟨u', hid ▸ hu'⟩
    · exact .inl ⟨v, (get?_of_update_ne hu' ht hid).symm.trans hv⟩
  | @inserts e s _ ht =>
    rw [Table.get?_insert? ht] at hv
    split at hv
    · rename_i hid
      exact .inr ⟨e, s, by rw [hid]; rfl, (Option.some.inj hv).symm⟩
    · exact .inl ⟨v, hv⟩

/-! ## The indexes -/

theorem mem_indexed_email {u : User} (h : u.deletedAt = none) :
    IndexEntry.email (Database.lower u.email) ∈ u.indexed := by
  unfold User.indexed
  rw [if_pos h]
  exact List.mem_cons_self

theorem mem_indexed_handle {u : User} {a : String} (h : u.deletedAt = none)
    (ha : u.handle = some a) : IndexEntry.handle (Database.lower a) ∈ u.indexed := by
  unfold User.indexed
  rw [if_pos h, ha]
  simp

theorem mem_indexed_subject {u : User} {s : String} (h : u.deletedAt = none)
    (hs : u.keycloakSubject = some s) : IndexEntry.keycloakSubject s ∈ u.indexed := by
  unfold User.indexed
  rw [if_pos h, hs]
  simp

theorem email_of_indexed {u : User} {lowered : String} (h : .email lowered ∈ u.indexed) :
    u.deletedAt = none ∧ Database.lower u.email = lowered := by
  unfold User.indexed at h
  split at h
  · rename_i hlive
    have hemail : lowered = Database.lower u.email := by simpa using h
    exact ⟨hlive, hemail.symm⟩
  · cases h

theorem subject_of_indexed {u : User} {s : String} (h : .keycloakSubject s ∈ u.indexed) :
    u.deletedAt = none ∧ u.keycloakSubject = some s := by
  unfold User.indexed at h
  split at h
  · rename_i hlive
    exact ⟨hlive, by simpa using h⟩
  · cases h

theorem nodup_indexed (u : User) : u.indexed.Nodup := by
  unfold User.indexed
  split
  · cases u.handle <;> cases u.keycloakSubject <;> simp
  · exact List.nodup_nil

/-- the entry that a column has in an index -/
def Column.entry : Column → Option IndexEntry
  | .email value => some (.email (Database.lower value))
  | .keycloakSubject value => some (.keycloakSubject value)
  | .handle value => some (.handle (Database.lower value))
  | .deletedAt _ => none

/-- a record whose column is set has the column's entry, and those it had -/
theorem mem_indexed_set {c : Column} {u : User} {x : IndexEntry} (h : x ∈ (c.set u).indexed) :
    x ∈ u.indexed ∨ c.entry = some x := by
  unfold User.indexed at h ⊢
  cases c <;> simp only [Column.set, Column.entry] at h ⊢ <;> grind

/-- the entries that a call has put into the indexes -/
def gives : Base.Call Ret → List IndexEntry
  | ⟨.update _ column, true⟩ => column.entry.toList
  | ⟨.insertUser email subject, some _⟩ =>
    .email (Database.lower email) :: (subject.map .keycloakSubject).toList
  | _ => []

theorem mem_indexed_newUser {email : String} {subject : Option String} {x : IndexEntry} :
    x ∈ (newUser t email subject).indexed ↔
      x ∈ IndexEntry.email (Database.lower email) :: (subject.map .keycloakSubject).toList := Iff.rfl

/-- no record has the entry -/
def IndexFree (x : IndexEntry) (t : Table User) : Prop := ∀ u ∈ t.rows, x ∉ u.indexed

/-- **an entry stays free** until a call gives it -/
theorem IndexFree.step {c : Base.Call Ret} {y : IndexEntry} (hf : IndexFree y t) (hd : Does t c t')
    (hc : y ∉ gives c) : IndexFree y t' := by
  intro v hv hy
  have hget : t'.get? v.id = some v := Table.get?_of_mem hv
  obtain ⟨u, hu⟩ | ⟨e, s, rfl, rfl⟩ := hd.origin hget
  · rcases hd.get? hu with hu' | ⟨column, rfl, hu'⟩
    · rw [hget] at hu'
      exact hf u (Table.mem_of_get? hu) (Option.some.inj hu' ▸ hy)
    · rw [hget] at hu'
      obtain rfl := Option.some.inj hu'
      rcases mem_indexed_set hy with hy | hy
      · exact hf u (Table.mem_of_get? hu) hy
      · exact hc (Option.mem_toList.mpr hy)
  · exact hc (mem_indexed_newUser.mp hy)

/-- a query that found no live record -/
theorem indexFree_of_byEmail {e : String} (h : perform t (.byEmail e) clock = some (none, t'))
    (he : Database.lower e = e) : IndexFree (.email (Database.lower e)) t' := by
  obtain ⟨hnone, rfl⟩ := Prod.mk.inj (Option.some.inj h)
  intro u hu hx
  obtain ⟨hlive, hemail⟩ := email_of_indexed hx
  refine List.find?_eq_none.mp hnone u hu ?_
  simp [hlive, hemail, he]

theorem indexFree_of_bySubject {s : String}
    (h : perform t (.bySubject s) clock = some (none, t')) : IndexFree (.keycloakSubject s) t' := by
  obtain ⟨hnone, rfl⟩ := Prod.mk.inj (Option.some.inj h)
  intro u hu hx
  obtain ⟨hlive, hs⟩ := subject_of_indexed hx
  refine List.find?_eq_none.mp hnone u hu ?_
  simp [hlive, hs]

/-- **at most one live record holds an address**, ignoring case -/
theorem eq_of_email {a b : User} (ha : a ∈ t.rows) (hb : b ∈ t.rows) (hda : a.deletedAt = none)
    (hdb : b.deletedAt = none) (h : Database.lower a.email = Database.lower b.email) : a = b :=
  Table.eq_of_entry ha hb (mem_indexed_email hda) (h ▸ mem_indexed_email hdb)

/-- **at most one live record holds a subject** -/
theorem eq_of_subject {a b : User} {s : String} (ha : a ∈ t.rows) (hb : b ∈ t.rows)
    (hda : a.deletedAt = none) (hdb : b.deletedAt = none) (hsa : a.keycloakSubject = some s)
    (hsb : b.keycloakSubject = some s) : a = b :=
  Table.eq_of_entry ha hb (mem_indexed_subject hda hsa) (mem_indexed_subject hdb hsb)

/-- **at most one live record holds a handle**, ignoring case -/
theorem eq_of_handle {a b : User} {x y : String} (ha : a ∈ t.rows) (hb : b ∈ t.rows)
    (hda : a.deletedAt = none) (hdb : b.deletedAt = none) (hx : a.handle = some x)
    (hy : b.handle = some y) (h : Database.lower x = Database.lower y) : a = b :=
  Table.eq_of_entry ha hb (mem_indexed_handle hda hx) (h ▸ mem_indexed_handle hdb hy)

end

end Freepod.Accounts

import Freepod.Platform.Pending
import Freepod.Platform.TemplateValues

/-!
# Reading the vars

`read_vars` of `services/vars.py`, the serializer of `VarRead` and the body a client submits that
sends back what it has read.  A sensitive var is read without its `value`, and a write that leaves a
`value` out leaves the var as it is.

* `varWriteOf_serialize`: how a var comes back.
* `entries_of_read`: the body that sends back what is read of a head that can be decrypted.
-/

namespace Freepod
open Base

structure VarWriter where
  id : UserId
  email : Option String

structure VarRead where
  value : Option String
  sensitive : Bool
  updatedAt : Time
  updatedBy : VarWriter

structure VarsRead where
  vars : List (String × VarRead)
  pending : Bool

/-- `_read_entry`; `emails` is what the query of `_writers` finds of the writers -/
def readEntry (cfg : Settings) (emails : UserId → Option String) (row : DeploymentVar) :
    Except Refusal VarRead := do
  let value ← if row.sensitive = true then pure none else do
    let text ← plaintext cfg row
    pure (some text)
  pure
    { value := value
      sensitive := row.sensitive
      updatedAt := row.createdAt
      updatedBy := ⟨row.createdBy, emails row.createdBy⟩ }

/-- `read_vars` -/
def readVars (cfg : Settings) (emails : UserId → Option String) (s : State) (d : Deployment) :
    Except Refusal VarsRead := do
  let vars ← (head s.vars d.id).mapM fun row => do
    let entry ← readEntry cfg emails row
    pure (row.key, entry)
  pure ⟨vars, pending s d⟩

/-- a text of the wire that may be missing -/
def textOrNull (text : Option String) : Json := (text.map Json.str).getD .null

/-- `VarRead` on the wire: `_omit_sensitive_value` drops the value of a sensitive var -/
def VarRead.serialize (isoformat : Time → String) (r : VarRead) : Fields :=
  let data :=
    [("value", textOrNull r.value), ("sensitive", .bool r.sensitive),
      ("updated_at", .str (isoformat r.updatedAt)),
      ("updated_by", .obj [("id", .num r.updatedBy.id 0), ("email", textOrNull r.updatedBy.email)])]
  if r.sensitive = true then data.filter fun field => field.1 ≠ "value" else data

/-- the `VarWrite` that an object of a body is, when its fields have their declared types; other
fields are ignored -/
def varWriteOf (fields : Fields) : Option VarWrite := do
  let value ← match fields.lookup "value" with
    | none => some none
    | some .null => some (some none)
    | some (.str text) => some (some (some text))
    | some _ => none
  let sensitive ← match fields.lookup "sensitive" with
    | none | some .null => some none
    | some (.bool sensitive) => some (some sensitive)
    | some _ => none
  some ⟨value, sensitive⟩

/-- the body that sends back what was read -/
def VarsRead.entries (isoformat : Time → String) (read : VarsRead) :
    Option (List (String × VarWrite)) :=
  read.vars.mapM fun e => (varWriteOf (e.2.serialize isoformat)).map fun write => (e.1, write)

/-! ## What comes back of a row -/

/-- the text of a row; empty for a tombstone -/
def DeploymentVar.content (v : DeploymentVar) : String := v.text.getD ""

/-- a row of head can be decrypted -/
def Decrypts (cfg : Settings) (row : DeploymentVar) : Prop :=
  plaintext cfg row = .ok row.content

theorem decrypts_of_plaintext {cfg : Settings} {row : DeploymentVar} {text : String}
    (h : plaintext cfg row = .ok text) : Decrypts cfg row ∧ row.content = text := by
  have htext : row.content = text := by
    simp only [plaintext, decrypt, bind_eq_ok, found_eq_ok, require_eq_ok, pure_eq_ok] at h
    obtain ⟨value, hvalue, -, -, rfl⟩ := h
    rw [DeploymentVar.content, DeploymentVar.text, hvalue]
    rfl
  refine ⟨?_, htext⟩
  rw [Decrypts, htext]
  exact h

/-- the entry of a var that is sent back as it was read -/
def writeBack (row : DeploymentVar) : VarWrite :=
  ⟨if row.sensitive = true then none else some (some row.content), some row.sensitive⟩

variable {cfg : Settings} {emails : UserId → Option String} {isoformat : Time → String}
  {row : DeploymentVar}

theorem readEntry_ok (h : Decrypts cfg row) : readEntry cfg emails row =
    .ok ⟨if row.sensitive = true then none else some row.content, row.sensitive, row.createdAt,
      ⟨row.createdBy, emails row.createdBy⟩⟩ := by
  unfold readEntry
  split
  · rfl
  · rw [h]
    rfl

/-- **a sensitive var comes back without a value**, any other one with the text it has -/
theorem varWriteOf_serialize {entry : VarRead} (h : Decrypts cfg row)
    (hread : readEntry cfg emails row = .ok entry) :
    varWriteOf (entry.serialize isoformat) = some (writeBack row) := by
  rw [readEntry_ok h] at hread
  cases hread
  cases hsensitive : row.sensitive with
  | true => simp [VarRead.serialize, varWriteOf, writeBack, hsensitive, lookup_cons_ite]
  | false =>
    simp [VarRead.serialize, varWriteOf, writeBack, hsensitive, lookup_cons_ite, textOrNull]

variable (emails isoformat) in
/-- a loop over rows that can all be read -/
theorem mapM_read {rows : List DeploymentVar} (h : ∀ row ∈ rows, Decrypts cfg row) :
    ∃ vars, (rows.mapM fun row => do
        let entry ← readEntry cfg emails row
        pure (row.key, entry)) = .ok vars ∧
      vars.mapM (fun e => (varWriteOf (e.2.serialize isoformat)).map fun write => (e.1, write)) =
        some (rows.map fun row => (row.key, writeBack row)) := by
  induction rows with
  | nil => exact ⟨[], rfl, rfl⟩
  | cons row rows ih =>
    obtain ⟨vars, hvars, hentries⟩ := ih fun x hx => h x (List.mem_cons_of_mem _ hx)
    have hrow := h row List.mem_cons_self
    obtain ⟨entry, hread⟩ : ∃ entry, readEntry cfg emails row = .ok entry := ⟨_, readEntry_ok hrow⟩
    refine ⟨(row.key, entry) :: vars, ?_, ?_⟩
    · rw [List.mapM_cons, hvars, hread]
      rfl
    · rw [List.mapM_cons, hentries, varWriteOf_serialize hrow hread]
      rfl

/-- **what is read of a head that can be decrypted, and the body that sends it back** -/
theorem entries_of_read {s : State} {d : Deployment}
    (h : ∀ row ∈ head s.vars d.id, Decrypts cfg row) (emails : UserId → Option String)
    (isoformat : Time → String) : ∃ read, readVars cfg emails s d = .ok read ∧
      read.entries isoformat = some ((head s.vars d.id).map fun row => (row.key, writeBack row)) := by
  obtain ⟨vars, hvars, hentries⟩ := mapM_read emails isoformat h
  refine ⟨⟨vars, pending s d⟩, ?_, hentries⟩
  rw [readVars, hvars]
  rfl

end Freepod

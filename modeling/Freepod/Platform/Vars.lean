import Mathlib.Algebra.Order.Ring.Int
import Mathlib.Data.List.Sort
import Freepod.Platform.State

/-!
# Deployment vars

`services/vars.py` and the write endpoints of `api/vars.py`.  `deployment_var` is append-only: a
write inserts a row for each var that changes and a tombstone for each one it deletes, and the
effective set, `head`, is the newest row of each key without the tombstones.

`writeVars_rows`: an accepted write only appends rows of its own deployment.
-/

namespace Freepod
open Base

/-- one entry of a write: `value` is absent, `null` or a string -/
structure VarWrite where
  value : Option (Option String)
  sensitive : Option Bool

def maxVarValueBytes : Nat := 8 * 1024
def maxVarsTotalBytes : Nat := 128 * 1024
def maxVarsPerDeployment : Nat := 256
def sensitiveKey : String := "x-caelus-sensitive"
def runtimePhase : String := "runtime"

/-- `head`: the newest row of each key, tombstones excluded, by key -/
def head (vars : Table DeploymentVar) (id : DeploymentId) : List DeploymentVar :=
  let rows := vars.rows.filter fun v => v.deploymentId = id
  (rows.filter fun v =>
      (rows.all fun v' => !(decide (v'.key = v.key)) || decide (v'.id ≤ v.id)) &&
        v.value.isSome).insertionSort
    fun a b => a.key ≤ b.key

/-- `Keyring.decrypt` -/
def decrypt (cfg : Settings) (value : Sealed) : Except Refusal String := do
  require (value.keyId ∈ cfg.varKeyIds)
    (.varEncryption ("value was encrypted with key " ++ value.keyId ++ ", which is not configured"))
  pure value.plaintext

/-- `Keyring.encrypt` -/
def encrypt (cfg : Settings) (plaintext : String) : Except Refusal Sealed :=
  match cfg.varKeyIds with
  | [] => .error (.varEncryption
      "no encryption key is configured (CAELUS_VAR_ENCRYPTION_KEYS is empty)")
  | keyId :: _ => .ok ⟨keyId, plaintext⟩

/-- `_plaintext` of a row of head -/
def plaintext (cfg : Settings) (row : DeploymentVar) : Except Refusal String := do
  let value ← found row.value (.invalid "")
  decrypt cfg value

/-- `_resolve_sensitive` -/
def resolveSensitive (key : String) (entry : VarWrite) (declared : Fields)
    (existing : Option DeploymentVar) : Except Refusal Bool :=
  match declared.lookup key with
  | some (.obj property) =>
    let schemaSensitive := ((Json.obj property).get? sensitiveKey).elim false Json.truthy
    match entry.sensitive with
    | none => .ok schemaSensitive
    | some sensitive =>
      if sensitive = schemaSensitive then .ok schemaSensitive
      else .error (.validation (key ++ ": this product template declares sensitive=" ++
        (if schemaSensitive then "true" else "false") ++ " for this var"))
  | _ =>
    match entry.sensitive with
    | some sensitive => .ok sensitive
    | none => .ok (existing.elim false DeploymentVar.sensitive)

/-- the head a write would produce, and the keys it would delete -/
structure VarPlan where
  desired : List (String × String × Bool)
  deletions : List String

/-- one entry of the write -/
def planEntry (cfg : Settings) (c : Context) (current : List DeploymentVar) (declared : Fields)
    (plan : VarPlan) (e : String × VarWrite) : Except Refusal VarPlan := do
  let (key, entry) := e
  c.checkVarName key
  let existing := current.find? fun v => v.key = key
  match entry.value with
  | some none => pure { plan with deletions := plan.deletions ++ [key] }
  | some (some value) =>
    let sensitive ← resolveSensitive key entry declared existing
    pure { plan with desired := setKey key (value, sensitive) plan.desired }
  | none =>
    let row ← found existing
      (.validation (key ++ ": no value supplied and this var does not exist"))
    let value ← plaintext cfg row
    let sensitive ← resolveSensitive key entry declared existing
    require (¬ (row.sensitive = true ∧ sensitive = false))
      (.validation (key ++ ": making a sensitive var readable requires a new value"))
    pure { plan with desired := setKey key (value, sensitive) plan.desired }

/-- one var of head that the write does not name -/
def planRest (cfg : Settings) (replace : Bool) (plan : VarPlan) (row : DeploymentVar) :
    Except Refusal VarPlan :=
  if (plan.desired.lookup row.key).isSome ∨ row.key ∈ plan.deletions then .ok plan
  else if replace then .ok { plan with deletions := plan.deletions ++ [row.key] }
  else do
    let value ← plaintext cfg row
    pure { plan with desired := setKey row.key (value, row.sensitive) plan.desired }

/-- `_check_limits` -/
def checkLimits (desired : List (String × String × Bool)) : Except Refusal Unit := do
  require (desired.length ≤ maxVarsPerDeployment)
    (.validation ("a deployment may hold at most " ++ toString maxVarsPerDeployment ++
      " vars; this write would leave " ++ toString desired.length))
  match desired.find? fun e => decide (maxVarValueBytes < e.2.1.utf8ByteSize) with
  | some e => .error (.validation (e.1 ++ ": value exceeds the " ++ toString maxVarValueBytes ++
      " byte limit"))
  | none =>
    let total := (desired.map fun e => e.2.1.utf8ByteSize).sum
    require (total ≤ maxVarsTotalBytes)
      (.validation ("a deployment's vars may total at most " ++ toString maxVarsTotalBytes ++
        " bytes; this write would leave " ++ toString total))

/-- head already holds exactly this var -/
def unchangedVar (cfg : Settings) (current : List DeploymentVar) (key value : String)
    (sensitive : Bool) : Except Refusal Bool :=
  match current.find? fun v => v.key = key with
  | none => .ok false
  | some row =>
    if row.sensitive = sensitive then do
      let old ← plaintext cfg row
      pure (decide (old = value))
    else .ok false

/-- one var of the resulting head: a row unless it is unchanged -/
def insertVar (cfg : Settings) (now : Time) (id : DeploymentId) (actor : UserId)
    (current : List DeploymentVar) (vars : Table DeploymentVar) (e : String × String × Bool) :
    Except Refusal (Table DeploymentVar) := do
  let unchanged ← unchangedVar cfg current e.1 e.2.1 e.2.2
  if unchanged then pure vars
  else do
    let token ← encrypt cfg e.2.1
    found (vars.insert?
      { id := vars.nextKey
        deploymentId := id
        key := e.1
        value := some token
        sensitive := e.2.2
        createdBy := actor
        createdAt := now }) constraintViolated

/-- one deletion: a tombstone over a var that is there -/
def insertTombstone (now : Time) (id : DeploymentId) (actor : UserId)
    (current : List DeploymentVar) (vars : Table DeploymentVar) (key : String) :
    Except Refusal (Table DeploymentVar) :=
  if current.any fun v => decide (v.key = key) then
    found (vars.insert?
      { id := vars.nextKey
        deploymentId := id
        key := key
        value := none
        sensitive := false
        createdBy := actor
        createdAt := now }) constraintViolated
  else .ok vars

/-- `write_vars`; `documentError` builds the exception a document that does not fit raises -/
def writeVars (cfg : Settings) (c : Context) (now : Time) (vars : Table DeploymentVar)
    (d : Deployment) (actor : UserId) (entries : List (String × VarWrite)) (replace : Bool)
    (documentError : String → Refusal) : Except Refusal (Table DeploymentVar) := do
  let current := head vars d.id
  let template ← found (c.templates d.desiredTemplateId) (.notFound "Template not found")
  let projection := c.varsProjection template.valuesSchemaJson
  require (entries.isEmpty ∨ projection.isSome)
    (.validation "vars are not supported on this product template")
  let declared := match projection.bind fun p => p.get? "properties" with
    | some (.obj fields) => fields
    | _ => []
  let plan ← entries.foldlM (planEntry cfg c current declared) ⟨[], []⟩
  let plan ← current.foldlM (planRest cfg replace) plan
  let plaintexts := plan.desired.map fun e => (e.1, e.2.1)
  c.validateVars plaintexts projection
  match c.validateDocument d.userValuesJson plaintexts template.valuesSchemaJson with
  | some message => .error (documentError message)
  | none => do
    checkLimits plan.desired
    let sorted := plan.desired.insertionSort fun a b => a.1 ≤ b.1
    let vars ← sorted.foldlM (insertVar cfg now d.id actor current) vars
    (plan.deletions.dedup.insertionSort (· ≤ ·)).foldlM (insertTombstone now d.id actor current)
      vars

/-- `vars'` is `vars` with more rows of one deployment -/
structure VarsAppended (vars vars' : Table DeploymentVar) (id : DeploymentId) : Prop where
  kept : ∀ v ∈ vars.rows, v ∈ vars'.rows
  own : ∀ v ∈ vars'.rows, v ∈ vars.rows ∨ v.deploymentId = id

theorem VarsAppended.refl (vars : Table DeploymentVar) (id : DeploymentId) :
    VarsAppended vars vars id := ⟨fun _ h => h, fun _ h => .inl h⟩

theorem VarsAppended.insert {vars vars' vars'' : Table DeploymentVar} {id : DeploymentId}
    {v : DeploymentVar} (h : VarsAppended vars vars' id) (hv : v.deploymentId = id)
    (hi : vars'.insert? v = some vars'') : VarsAppended vars vars'' id := by
  refine ⟨fun x hx => (Table.mem_insert? hi).mpr (.inl (h.kept x hx)), fun x hx => ?_⟩
  rcases (Table.mem_insert? hi).mp hx with hx | rfl
  · exact h.own x hx
  · exact .inr hv

theorem insertVar_rows {cfg : Settings} {now : Time} {id : DeploymentId} {actor : UserId}
    {current : List DeploymentVar} {e : String × String × Bool}
    {vars vars' vars'' : Table DeploymentVar} (h : VarsAppended vars vars' id)
    (hi : insertVar cfg now id actor current vars' e = .ok vars'') :
    VarsAppended vars vars'' id := by
  unfold insertVar at hi
  simp only [bind_eq_ok] at hi
  obtain ⟨unchanged, -, hi⟩ := hi
  cases unchanged with
  | true =>
    cases hi
    exact h
  | false =>
    simp only [Bool.false_eq_true, if_false, bind_eq_ok, found_eq_ok] at hi
    obtain ⟨token, -, hi⟩ := hi
    exact h.insert rfl hi

theorem insertTombstone_rows {now : Time} {id : DeploymentId} {actor : UserId}
    {current : List DeploymentVar} {key : String} {vars vars' vars'' : Table DeploymentVar}
    (h : VarsAppended vars vars' id)
    (hi : insertTombstone now id actor current vars' key = .ok vars'') :
    VarsAppended vars vars'' id := by
  unfold insertTombstone at hi
  split at hi
  · exact h.insert rfl (found_eq_ok.mp hi)
  · cases hi
    exact h

/-- **an accepted write appends rows of its own deployment, and does nothing else** -/
theorem writeVars_rows {cfg : Settings} {c : Context} {now : Time} {d : Deployment}
    {actor : UserId} {entries : List (String × VarWrite)} {replace : Bool}
    {documentError : String → Refusal} {vars vars' : Table DeploymentVar}
    (h : writeVars cfg c now vars d actor entries replace documentError = .ok vars') :
    VarsAppended vars vars' d.id := by
  simp only [writeVars, bind_eq_ok] at h
  obtain ⟨template, -, -, -, plan₀, -, plan, -, -, -, h⟩ := h
  split at h
  · cases h
  · simp only [bind_eq_ok] at h
    obtain ⟨-, -, middle, hm, h⟩ := h
    have hmiddle : VarsAppended vars middle d.id :=
      foldlM_ok (P := fun v => VarsAppended vars v d.id) (fun _ _ _ => insertVar_rows)
        (.refl vars d.id) hm
    exact foldlM_ok (P := fun v => VarsAppended vars v d.id) (fun _ _ _ => insertTombstone_rows)
      hmiddle h

/-- `snapshot_release` -/
def snapshotRelease (vars : Table DeploymentVar) (releaseVars : List ReleaseVar)
    (releaseId : ReleaseId) (id : DeploymentId) : List ReleaseVar :=
  releaseVars ++ (head vars id).map fun v => ⟨releaseId, v.id⟩

/-- a write to the vars endpoints: `PATCH`, `PUT` with `replace`, or `DELETE` of one key, which is
a merge of a `null` -/
structure VarsRequest where
  userId : UserId
  caller : UserId
  callerIsAdmin : Bool
  deploymentId : DeploymentId
  phase : String
  entries : List (String × VarWrite)
  replace : Bool

/-- the body `delete_var` writes -/
def deleteVarEntries (key : String) : List (String × VarWrite) := [(key, ⟨some none, none⟩)]

/-- `_require_readable_deployment` -/
def readableDeployment (s : State) (id : DeploymentId) (userId : Option UserId) :
    Except Refusal Deployment := do
  let d ← found (s.deployments.get? id) (.notFound "Deployment not found")
  require (∀ u ∈ userId, d.userId = u) (.notFound "Deployment not found")
  require (d.status ≠ .deleted) (.notFound "Deployment not found")
  pure d

/-- `assert_writable` -/
def assertWritable (d : Deployment) : Except Refusal Unit :=
  require (d.status ≠ .deleting)
    (.inProgress "Deployment is being deleted; its vars cannot be written")

/-- `merge_vars`, `replace_vars` and `delete_var` of `api/vars.py` -/
def writeVarsRequest (cfg : Settings) (c : Context) (s : State) (r : VarsRequest) :
    Except Refusal State := do
  require (r.phase = runtimePhase) (.notFound "Unknown phase")
  let d ← readableDeployment s r.deploymentId (if r.callerIsAdmin then none else some r.userId)
  assertWritable d
  let vars ← writeVars cfg c s.now s.vars d r.caller r.entries r.replace .validation
  pure { s with vars := vars }

end Freepod

import Mathlib.Data.List.Sort
import Mathlib.Logic.Function.Basic
import Freepod.Platform.Pending
import Freepod.Platform.TenantDb

/-!
# Encrypted columns and the rotation of their keys

`services/var_crypto.py`: the keyring, the registered columns and `rotate_encrypted_values`.  Fernet
itself is a parameter that carries what is known of it; each encryption draws a nonce of its own.
The sweep is a machine that takes one row or one commit a step and that can be interrupted at any
point, after which it is run again from its start.

* `Keyring.decrypt_encrypt`: what is encrypted is decrypted, under the key it names.
-/

namespace Freepod
open Base

/-- a Fernet key; `decrypt` gives nothing where it raises `InvalidToken` -/
structure Fernet where
  encrypt : (nonce : Nat) → String → String
  decrypt : String → Option String
  inverse : ∀ nonce text, decrypt (encrypt nonce text) = some text

/-- a ciphertext and the fingerprint of the key that produced it -/
structure Token where
  ciphertext : String
  keyId : String
  deriving DecidableEq

/-- `Keyring`: keys by their fingerprints, newest first; it refuses two of one fingerprint -/
structure Keyring where
  fernets : List (String × Fernet)
  unique : (fernets.map Prod.fst).Nodup

/-- `current_key_id` -/
def Keyring.currentKeyId (keyring : Keyring) : Except Refusal String :=
  match keyring.fernets with
  | [] => .error (.varEncryption
      "no encryption key is configured (CAELUS_VAR_ENCRYPTION_KEYS is empty)")
  | (keyId, _) :: _ => .ok keyId

/-- `Keyring.encrypt` -/
def Keyring.encrypt (keyring : Keyring) (nonce : Nat) (plaintext : String) :
    Except Refusal Token :=
  match keyring.fernets with
  | [] => .error (.varEncryption
      "no encryption key is configured (CAELUS_VAR_ENCRYPTION_KEYS is empty)")
  | (keyId, fernet) :: _ => .ok ⟨fernet.encrypt nonce plaintext, keyId⟩

/-- `Keyring.decrypt` -/
def Keyring.decrypt (keyring : Keyring) (token : Token) : Except Refusal String := do
  let fernet ← found (keyring.fernets.lookup token.keyId) (.varEncryption
    ("value was encrypted with key " ++ token.keyId ++ ", which is not configured"))
  found (fernet.decrypt token.ciphertext) (.varEncryption
    ("value naming key " ++ token.keyId ++ " could not be decrypted with it"))

/-- **what is encrypted is decrypted**, and names the current key -/
theorem Keyring.decrypt_encrypt {keyring : Keyring} {nonce : Nat} {plaintext : String}
    {token : Token} (h : keyring.encrypt nonce plaintext = .ok token) :
    keyring.decrypt token = .ok plaintext ∧ keyring.currentKeyId = .ok token.keyId := by
  unfold Keyring.encrypt at h
  unfold Keyring.decrypt Keyring.currentKeyId
  cases hfernets : keyring.fernets with
  | nil =>
    rw [hfernets] at h
    cases h
  | cons e later =>
    rw [hfernets] at h
    cases h
    refine ⟨?_, rfl⟩
    rw [lookup_cons_ite, if_pos rfl]
    show found (e.2.decrypt (e.2.encrypt nonce plaintext)) _ = _
    rw [e.2.inverse]
    rfl

/-! ## The registered columns -/

/-- a row with a token that may be missing; `rest` are its other columns -/
structure EncryptedRow (β : Type) where
  id : Nat
  token : Option Token
  rest : β

instance {β : Type} : Row (EncryptedRow β) Nat Unit := ⟨EncryptedRow.id, fun _ => []⟩

/-- the other columns of `deployment_var` -/
structure VarColumns where
  deploymentId : DeploymentId
  key : String
  sensitive : Bool
  createdBy : UserId
  createdAt : Time

/-- the other columns of `deployment_database` -/
structure DatabaseColumns where
  deploymentId : DeploymentId
  dbName : String
  roleName : String
  record : DatabaseRecord

/-- an `EncryptedColumn` -/
inductive EncryptedColumn
  | valueEncrypted | passwordEncrypted
  deriving DecidableEq

/-- `ENCRYPTED_COLUMNS` -/
def encryptedColumns : List EncryptedColumn := [.valueEncrypted, .passwordEncrypted]

/-- the other columns of the table a column is in -/
def EncryptedColumn.Rest : EncryptedColumn → Type
  | .valueEncrypted => VarColumns
  | .passwordEncrypted => DatabaseColumns

/-- the tables with an encrypted column -/
abbrev Store := (column : EncryptedColumn) → Table (EncryptedRow column.Rest)

/-! ## The sweep -/

section
variable {β : Type}

/-- the rows under another key than the current one -/
def stale (current : String) (t : Table (EncryptedRow β)) : List (EncryptedRow β) :=
  t.rows.filter fun r => r.token.any fun token => decide (token.keyId ≠ current)

/-- the query of one batch -/
def nextBatch (current : String) (batchSize : Nat) (t : Table (EncryptedRow β)) :
    List (EncryptedRow β) :=
  ((stale current t).insertionSort fun a b => a.id ≤ b.id).take batchSize

/-- one row of a batch, encrypted again -/
def rewriteRow (keyring : Keyring) (nonce : Nat) (t : Table (EncryptedRow β))
    (row : EncryptedRow β) : Except Refusal (Table (EncryptedRow β)) := do
  let token ← found row.token (.invalid "")
  let plaintext ← keyring.decrypt token
  let token' ← keyring.encrypt nonce plaintext
  found (t.put? { row with token := some token' }) constraintViolated

end

/-- how far a sweep got: before its checks, before the query of a batch, in a batch with these rows
left of so many, or at its end -/
inductive SweepPoint
  | checks
  | query (current : String) (column : EncryptedColumn) (later : List EncryptedColumn)
  | batch (current : String) (column : EncryptedColumn) (later : List EncryptedColumn)
      (rows : List (EncryptedRow column.Rest)) (size : Nat)
  | returned
  | raised (e : Refusal)

/-- a sweep: what is committed, what its session holds, and the rows it has counted -/
structure Sweep where
  stored : Store
  session : Store
  point : SweepPoint
  rotated : Nat

/-- a sweep before its first statement -/
def Sweep.start (stored : Store) : Sweep := ⟨stored, stored, .checks, 0⟩

/-- the next column to sweep -/
def SweepPoint.columns (current : String) : List EncryptedColumn → SweepPoint
  | [] => .returned
  | column :: later => .query current column later

inductive SweepAction
  | go (nonce : Nat)
  | interrupt

/-- one step of `rotate_encrypted_values` -/
def Sweep.go (keyring : Keyring) (batchSize nonce : Nat) (s : Sweep) : Option Sweep :=
  match s.point with
  | .checks =>
    if batchSize < 1 then
      some { s with point := .raised (.varEncryption "batch_size must be >= 1") }
    else
      match keyring.currentKeyId with
      | .error e => some { s with point := .raised e }
      | .ok current => some { s with point := .columns current encryptedColumns }
  | .query current column later =>
    match nextBatch current batchSize (s.session column) with
    | [] => some { s with point := .columns current later }
    | row :: rows =>
      some { s with point := .batch current column later (row :: rows) (row :: rows).length }
  | .batch current column later (row :: rows) size =>
    match rewriteRow keyring nonce (s.session column) row with
    | .error e => some { s with session := s.stored, point := .raised e }
    | .ok t =>
      some { s with
        session := Function.update s.session column t
        point := .batch current column later rows size }
  | .batch current column later [] size =>
    some { s with
      stored := s.session
      point := .query current column later
      rotated := s.rotated + size }
  | .returned | .raised _ => none

/-- `rotate_encrypted_values` run again and again: an interruption rolls the open batch back -/
def rotation (keyring : Keyring) (batchSize : Nat) : Machine Sweep SweepAction where
  step s
    | .go nonce => s.go keyring batchSize nonce
    | .interrupt => some (.start s.stored)

end Freepod

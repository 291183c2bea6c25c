import Std.Data.String.ToNat
import Freepod.Base.Interrupt
import Freepod.Platform.Rotation
import Freepod.Values.Json

/-!
# Provisioning a deployment's database and bucket

`services/relational_storage.py` (`ensure_database`) and `services/object_storage.py`
(`ensure_object_storage`) over the clients `postgres_admin.py` and `garage.py`.  The platform's
rows, the tenant cluster and the object store are one `World`; each call of a client, and each
commit, is one `Call`, and `provisioning` is what it does.

A role, a database, a row or a bucket alias is unique in its table, as the servers keep them.  The
name of an access key is not.
-/

namespace Freepod.Provisioning
open Base

/-! ## Rows, roles, databases, keys and buckets -/

/-- a row of `deployment_database` -/
structure DatabaseRow where
  deploymentId : DeploymentId
  dbName : String
  roleName : String
  /-- `password_encrypted` and `key_id` -/
  password : Token
  record : DatabaseRecord

/-- `uq_deployment_database_db_name`, and one row for a deployment -/
instance : Row DatabaseRow DeploymentId String := ⟨DatabaseRow.deploymentId, fun r => [r.dbName]⟩

structure ClusterRole where
  name : String
  login : Bool
  password : Option String
  /-- what `ALTER ROLE … SET` has set -/
  settings : List (String × String)
  /-- who may `SET ROLE` to it -/
  assumedBy : List String

instance : Row ClusterRole String Unit := ⟨ClusterRole.name, fun _ => []⟩

structure ClusterDatabase where
  name : String
  owner : String
  /-- `PUBLIC` holds `CONNECT` -/
  publicConnects : Bool
  /-- `default_transaction_read_only` -/
  readOnly : Bool

instance : Row ClusterDatabase String Unit := ⟨ClusterDatabase.name, fun _ => []⟩

/-- the secret of an access key, which Garage mints -/
abbrev Secret := { text : String // text ≠ "" }

structure AccessKey where
  id : Nat
  name : String
  secret : Secret

instance : Row AccessKey Nat Unit := ⟨AccessKey.id, fun _ => []⟩

structure Permissions where
  read : Bool
  write : Bool
  deriving DecidableEq

/-- flags that are set are activated, the others are ignored -/
def Permissions.widen (old new : Permissions) : Permissions :=
  ⟨old.read || new.read, old.write || new.write⟩

structure Quotas where
  maxSize : Nat
  maxObjects : Nat
  deriving DecidableEq

structure Bucket where
  id : Nat
  globalAliases : List String
  /-- what it grants to which keys -/
  grants : List (Nat × Permissions)
  quotas : Option Quotas
  corsRules : List Json
  lifecycleRules : List Json

instance : Row Bucket Nat String := ⟨Bucket.id, Bucket.globalAliases⟩

/-- what a bucket grants to a key -/
def Bucket.permits (b : Bucket) (key : Nat) : Permissions :=
  (b.grants.lookup key).getD ⟨false, false⟩

/-- the body of an `UpdateBucket`; a field that is left out is left alone -/
structure BucketUpdate where
  quotas : Option Quotas
  corsRules : Option (List Json)
  lifecycleRules : Option (List Json)

structure World where
  rows : Table DatabaseRow
  roles : Table ClusterRole
  databases : Table ClusterDatabase
  keys : Table AccessKey
  buckets : Table Bucket

/-! ## The calls -/

structure Settings where
  keyring : Keyring
  /-- `tenant_db_admin_user` -/
  adminUser : String
  /-- `tenant_db_pooler_host` and `tenant_db_pooler_port` -/
  poolerHost : String
  poolerPort : Nat
  /-- `deployment_bucket_max_objects` -/
  maxObjects : Nat

inductive Raised
  /-- an exception of the platform -/
  | platform (e : Refusal)
  /-- a constraint of the platform's database, or a row that is gone -/
  | database (message : String)
  /-- `PostgresAdminException` -/
  | postgres (message : String)
  /-- `GarageException` -/
  | garage (request : String) (status : Nat)
  | noSecret (key : Nat)

inductive Call
  /-- `secrets.token_hex(PASSWORD_BYTES)` -/
  | tokenHex
  /-- the nonce of an encryption -/
  | nonce
  | utcnow
  | getRecord (id : DeploymentId)
  /-- `session.add(record)` and its commit -/
  | storeRow (row : DatabaseRow)
  | refresh (id : DeploymentId)
  /-- the commit of an evaluation, of a row loaded as `loaded` -/
  | commitQuota (id : DeploymentId) (loaded new : DatabaseRecord)
  | roleExists (role : String)
  | createRole (role : String)
  /-- `GRANT {role} TO {admin} WITH SET TRUE, INHERIT FALSE` -/
  | grantRole (role admin : String)
  | alterPassword (role password : String)
  | databaseExists (database : String)
  | createDatabase (database role : String)
  /-- the session of `_revoke_public_access` -/
  | revokeFromPublic (database role : String)
  | publicCanConnect (database : String)
  | alterRoleSet (role name value : String)
  | databaseSizeBytes (database : String)
  /-- the session of `_apply_quota_state` -/
  | limitWrites (database role : String) (readOnly : Bool)
  | alterLogin (role : String) (login : Bool)
  | terminateBackends (role : String)
  | listKeys
  | createKey (name : String)
  | getKeyInfo (key : Nat)
  | listBuckets
  | createBucket (globalAlias : String)
  | allowBucketKey (bucket key : Nat) (permissions : Permissions)
  | getBucketInfo (bucket : Nat)
  | updateBucket (bucket : Nat) (body : BucketUpdate)

/-- what a call answers -/
abbrev Answer : Call → Type
  | .tokenHex => String
  | .nonce => Nat
  | .utcnow => Time
  | .getRecord _ => Option DatabaseRow
  | .refresh _ => DatabaseRow
  | .roleExists _ | .databaseExists _ | .publicCanConnect _ => Bool
  | .databaseSizeBytes _ => Nat
  | .listKeys => List AccessKey
  | .createKey _ | .getKeyInfo _ => AccessKey
  | .listBuckets => List Bucket
  | .createBucket _ | .getBucketInfo _ => Bucket
  | _ => Unit

/-- what only the outside decides -/
structure Draw where
  hex : String
  nonce : Nat
  now : Time
  sizeBytes : Nat
  secret : Secret

def noRole (role : String) : Raised := .postgres ("role \x22" ++ role ++ "\x22 does not exist")

def noDatabase (database : String) : Raised :=
  .postgres ("database \x22" ++ database ++ "\x22 does not exist")

namespace World

/-- an `ALTER ROLE` or a `GRANT` -/
def alterRole (w : World) (role : String) (f : ClusterRole → ClusterRole)
    (hname : ∀ r, (f r).name = r.name) : Except Raised (Unit × World) :=
  match w.roles.get? role with
  | some _ => .ok ((), { w with roles := w.roles.modify role f hname fun _ => rfl })
  | none => .error (noRole role)

/-- `SET ROLE`, by the administrator -/
def assume (w : World) (admin role : String) : Except Raised Unit := do
  let r ← found (w.roles.get? role) (noRole role)
  require (admin ∈ r.assumedBy)
    (.postgres ("permission denied to set role \x22" ++ role ++ "\x22"))

/-- a change of a database as its owner sees it -/
def alterDatabase (w : World) (database : String) (f : ClusterDatabase → ClusterDatabase)
    (hname : ∀ r, (f r).name = r.name) : World :=
  { w with databases := w.databases.modify database f hname fun _ => rfl }

/-- a change of a bucket -/
def alterBucket (w : World) (request : String) (bucket : Nat) (f : Bucket → Bucket)
    (hid : ∀ b, (f b).id = b.id) (haliases : ∀ b, (f b).globalAliases = b.globalAliases) :
    Except Raised (Unit × World) :=
  match w.buckets.get? bucket with
  | some _ => .ok ((), { w with buckets := w.buckets.modify bucket f hid haliases })
  | none => .error (.garage request 404)

end World

/-- an `UpdateBucket` of a bucket -/
def Bucket.update (b : Bucket) (body : BucketUpdate) : Bucket where
  id := b.id
  globalAliases := b.globalAliases
  grants := b.grants
  quotas := body.quotas.or b.quotas
  corsRules := body.corsRules.getD b.corsRules
  lifecycleRules := body.lifecycleRules.getD b.lifecycleRules

/-- an `AllowBucketKey` -/
def Bucket.allow (b : Bucket) (key : Nat) (permissions : Permissions) : Bucket :=
  { b with grants := setKey key ((b.permits key).widen permissions) b.grants }

/-- what each call does -/
def perform (cfg : Settings) (call : Call) (draw : Draw) (w : World) :
    Except Raised (Answer call × World) :=
  match call with
  | .tokenHex => .ok (draw.hex, w)
  | .nonce => .ok (draw.nonce, w)
  | .utcnow => .ok (draw.now, w)
  | .getRecord id => .ok (w.rows.get? id, w)
  | .storeRow row =>
    match w.rows.insert? row with
    | some rows => .ok ((), { w with rows })
    | none => .error (.database "duplicate key value violates unique constraint")
  | .refresh id =>
    match w.rows.get? id with
    | some row => .ok (row, w)
    | none => .error (.database "Could not refresh instance")
  | .commitQuota id loaded new =>
    match w.rows.get? id with
    | some _ => .ok ((), { w with
        rows := w.rows.modify id (fun r => { r with record := loaded.commit new r.record })
          (fun _ => rfl) fun _ => rfl })
    | none => .error (.database "UPDATE statement on table expected to update 1 row(s)")
  | .roleExists role => .ok ((w.roles.get? role).isSome, w)
  | .createRole role =>
    match w.roles.insert? ⟨role, true, none, [], []⟩ with
    | some roles => .ok ((), { w with roles })
    | none => .error (.postgres ("role \x22" ++ role ++ "\x22 already exists"))
  | .grantRole role admin =>
    w.alterRole role (fun r => { r with assumedBy := admin :: r.assumedBy }) fun _ => rfl
  | .alterPassword role password =>
    w.alterRole role (fun r => { r with password := some password }) fun _ => rfl
  | .databaseExists database => .ok ((w.databases.get? database).isSome, w)
  -- `PUBLIC` may connect to a new database
  | .createDatabase database role => do
    let () ← w.assume cfg.adminUser role
    match w.databases.insert? ⟨database, role, true, false⟩ with
    | some databases => .ok ((), { w with databases })
    | none => .error (.postgres ("database \x22" ++ database ++ "\x22 already exists"))
  -- a revocation that is not owner-scoped warns rather than failing
  | .revokeFromPublic database role => do
    let () ← w.assume cfg.adminUser role
    let d ← found (w.databases.get? database) (noDatabase database)
    if d.owner = role then
      .ok ((), w.alterDatabase database (fun d => { d with publicConnects := false }) fun _ => rfl)
    else .ok ((), w)
  | .publicCanConnect database => do
    let d ← found (w.databases.get? database) (noDatabase database)
    .ok (d.publicConnects, w)
  | .alterRoleSet role name value =>
    w.alterRole role (fun r => { r with settings := setKey name value r.settings }) fun _ => rfl
  | .databaseSizeBytes database => do
    let _ ← found (w.databases.get? database) (noDatabase database)
    .ok (draw.sizeBytes, w)
  | .limitWrites database role readOnly => do
    let () ← w.assume cfg.adminUser role
    let d ← found (w.databases.get? database) (noDatabase database)
    let () ← require (d.owner = role) (.postgres ("must be owner of database " ++ database))
    .ok ((), w.alterDatabase database (fun d => { d with readOnly }) fun _ => rfl)
  | .alterLogin role login => w.alterRole role (fun r => { r with login }) fun _ => rfl
  | .terminateBackends _ => .ok ((), w)
  | .listKeys => .ok (w.keys.rows, w)
  | .createKey name =>
    match w.keys.insert? ⟨w.keys.nextKey, name, draw.secret⟩ with
    | some keys => .ok (⟨w.keys.nextKey, name, draw.secret⟩, { w with keys })
    | none => .error (.garage "POST /v2/CreateKey" 500)
  | .getKeyInfo key =>
    match w.keys.get? key with
    | some k => .ok (k, w)
    | none => .error (.garage "GET /v2/GetKeyInfo" 404)
  | .listBuckets => .ok (w.buckets.rows, w)
  | .createBucket globalAlias =>
    match w.buckets.insert? ⟨w.buckets.nextKey, [globalAlias], [], none, [], []⟩ with
    | some buckets => .ok (⟨w.buckets.nextKey, [globalAlias], [], none, [], []⟩, { w with buckets })
    | none => .error (.garage "POST /v2/CreateBucket" 409)
  | .allowBucketKey bucket key permissions =>
    if (w.keys.get? key).isSome then
      w.alterBucket "POST /v2/AllowBucketKey" bucket (fun b => b.allow key permissions)
        (fun _ => rfl) fun _ => rfl
    else .error (.garage "POST /v2/AllowBucketKey" 404)
  | .getBucketInfo bucket =>
    match w.buckets.get? bucket with
    | some b => .ok (b, w)
    | none => .error (.garage "GET /v2/GetBucketInfo" 404)
  | .updateBucket bucket body =>
    w.alterBucket "POST /v2/UpdateBucket" bucket (fun b => b.update body) (fun _ => rfl) fun _ => rfl

def provisioning (cfg : Settings) : Remote Answer Raised World Draw := ⟨perform cfg⟩

abbrev Task := Prog Answer Raised

/-- make a call -/
def issue (o : Call) : Task (Answer o) := ask o

/-! ## The deployment -/

/-- the allowances of a plan -/
structure Plan where
  storageBytes : Option Int
  databaseBytes : Option Int

structure Deployment where
  id : DeploymentId
  /-- the plan of its subscription -/
  plan : Option Plan

/-- `database_name`; the id stands for its hex digits -/
def databaseName (id : DeploymentId) : String := "dpl_" ++ Nat.repr id

/-- `role_name` -/
def roleName (id : DeploymentId) : String := databaseName id

/-- `bucket_name` -/
def bucketName (id : DeploymentId) : String := "dep-" ++ Nat.repr id

/-- `key_name` -/
def keyName (id : DeploymentId) : String := "app-" ++ Nat.repr id

/-- an allowance of the plan; there is no fallback -/
def resolveAllowance (storage allowance unbounded : String) (bytes : Plan → Option Int)
    (d : Deployment) : Except Raised Nat :=
  let enabled := "Deployment " ++ Nat.repr d.id ++ " has " ++ storage ++ " storage enabled but "
  match d.plan with
  | none => .error (.platform (.integrity (enabled ++ "no subscription, so no " ++ allowance ++
      " allowance can be resolved")))
  | some plan =>
    match bytes plan with
    | some n =>
      if 0 < n then .ok n.toNat
      else .error (.platform (.integrity (enabled ++ "its plan declares no " ++ allowance ++
        " allowance; refusing to provision an unbounded " ++ unbounded)))
    | none => .error (.platform (.integrity (enabled ++ "its plan declares no " ++ allowance ++
        " allowance; refusing to provision an unbounded " ++ unbounded)))

/-- `relational_storage.resolve_quota_bytes` -/
def resolveDatabaseBytes : Deployment → Except Raised Nat :=
  resolveAllowance "relational" "database" "database" Plan.databaseBytes

/-- `object_storage.resolve_quota_bytes` -/
def resolveStorageBytes : Deployment → Except Raised Nat :=
  resolveAllowance "object" "storage" "bucket" Plan.storageBytes

/-- a value, or the exception instead of it -/
def orRaise {α : Type} : Except Raised α → Task α
  | .ok a => pure a
  | .error e => .exit e

/-- `if not exists` -/
def unlessExists (present : Bool) (create : Task Unit) : Task Unit :=
  if present then pure () else create

/-! ## The database -/

/-- `DatabaseCredentials` -/
structure DatabaseCredentials where
  host : String
  port : Nat
  database : String
  user : String
  password : String
  deriving DecidableEq

/-- `ROLE_SETTINGS` -/
def roleSettings : List (String × String) :=
  [("temp_file_limit", "64MB"), ("statement_timeout", "30s"),
    ("idle_in_transaction_session_timeout", "60s")]

/-- `_store_password`: the password of a row that is there is used again -/
def storePassword (cfg : Settings) (d : Deployment) :
    Option DatabaseRow → Task (DatabaseRow × String)
  | some record => do
    let password ← orRaise ((cfg.keyring.decrypt record.password).mapError .platform)
    pure (record, password)
  | none => do
    let password ← issue .tokenHex
    let nonce ← issue .nonce
    let token ← orRaise ((cfg.keyring.encrypt nonce password).mapError .platform)
    issue (.storeRow ⟨d.id, databaseName d.id, roleName d.id, token, {}⟩)
    let record ← issue (.refresh d.id)
    pure (record, password)

/-- `_revoke_public_access` -/
def revokePublicAccess (d : Deployment) (database role : String) : Task Unit := do
  issue (.revokeFromPublic database role)
  let holds ← issue (.publicCanConnect database)
  if holds then
    .exit (.platform (.integrity ("Deployment " ++ Nat.repr d.id ++ ": PUBLIC still holds CONNECT on " ++
      database ++ " after the revocation; refusing to report a provisioned database that every " ++
      "other role can reach")))
  else pure ()

/-- `_apply_quota_state` -/
def applyQuotaState (record : DatabaseRow) (state : QuotaState) : Task Unit := do
  issue (.limitWrites record.dbName record.roleName
    (decide (state = .readonly ∨ state = .blocked)))
  if state = .blocked then do
    issue (.alterLogin record.roleName false)
    issue (.terminateBackends record.roleName)
  else issue (.alterLogin record.roleName true)

/-- `evaluate_quota_state` as a reconcile calls it: it mails nobody -/
def evaluateQuotaState (d : Deployment) (record : DatabaseRow) : Task QuotaState :=
  if record.record.purgeAfter ≠ none then pure record.record.quotaState
  else do
    let allowance ← orRaise (resolveDatabaseBytes d)
    let sizeBytes ← issue (.databaseSizeBytes record.dbName)
    let m : Measurement := ⟨sizeBytes, allowance⟩
    applyQuotaState record m.state
    let now ← issue .utcnow
    issue (.commitQuota d.id record.record (record.record.evaluated m now false false))
    pure m.state

/-- the `ALTER ROLE … SET` of `ROLE_SETTINGS` -/
def applySettings (role : String) : List (String × String) → Task Unit
  | [] => pure ()
  | (name, value) :: rest => do
    issue (.alterRoleSet role name value)
    applySettings role rest

/-- `ensure_database` -/
def ensureDatabase (cfg : Settings) (d : Deployment) : Task DatabaseCredentials := do
  let _ ← orRaise (resolveDatabaseBytes d)
  let role := roleName d.id
  let database := databaseName d.id
  let loaded ← issue (.getRecord d.id)
  let (record, password) ← storePassword cfg d loaded
  unlessExists (← issue (.roleExists role)) (issue (.createRole role))
  issue (.grantRole role cfg.adminUser)
  issue (.alterPassword role password)
  unlessExists (← issue (.databaseExists database)) (issue (.createDatabase database role))
  revokePublicAccess d database role
  applySettings role roleSettings
  let _ ← evaluateQuotaState d record
  pure ⟨cfg.poolerHost, cfg.poolerPort, database, role, password⟩

/-! ## The bucket -/

/-- `ObjectStorageCredentials` -/
structure ObjectStorageCredentials where
  bucket : String
  accessKeyId : Nat
  secretAccessKey : String
  deriving DecidableEq

/-- `BUCKET_CORS_RULES` -/
def bucketCorsRules : List Json :=
  [.obj [("ID", .str "caelus-browser-access"), ("AllowedOrigin", .arr [.str "*"]),
    ("AllowedMethod", .arr [.str "GET", .str "PUT", .str "POST", .str "DELETE", .str "HEAD"]),
    ("AllowedHeader", .arr [.str "*"]), ("ExposeHeader", .arr [.str "ETag"])]]

/-- `ABORT_INCOMPLETE_UPLOAD_DAYS` -/
def abortIncompleteUploadDays : Int := 1

/-- `BUCKET_DEFAULT_LIFECYCLE_RULES` -/
def bucketDefaultLifecycleRules : List Json :=
  [.obj [("ID", .str "caelus-abort-incomplete-multipart-uploads"), ("Status", .str "Enabled"),
    ("Filter", .obj [("Prefix", .str "")]),
    ("AbortIncompleteMultipartUpload",
      .obj [("DaysAfterInitiation", .num abortIncompleteUploadDays 0)])]]

/-- `find_key`: the first key of the list with the name -/
def findKey (name : String) : Task (Option AccessKey) := do
  let keys ← issue .listKeys
  pure (keys.find? fun k => decide (k.name = name))

/-- `get_key_secret` -/
def getKeySecret (key : Nat) : Task String := do
  let info ← issue (.getKeyInfo key)
  if info.secret.1 = "" then .exit (.noSecret key) else pure info.secret.1

/-- `find_bucket` -/
def findBucket (globalAlias : String) : Task (Option Bucket) := do
  let buckets ← issue .listBuckets
  pure (buckets.find? fun b => decide (globalAlias ∈ b.globalAliases))

/-- the access key and its secret, which is not rotated -/
def accessKey (name : String) : Task (Nat × String) := do
  let key ← findKey name
  match key with
  | none => do
    let created ← issue (.createKey name)
    pure (created.id, created.secret.1)
  | some key => do
    let secret ← getKeySecret key.id
    pure (key.id, secret)

/-- the bucket, checked on its own -/
def bucketFor (globalAlias : String) : Task Nat := do
  let bucket ← findBucket globalAlias
  match bucket with
  | none => do
    let created ← issue (.createBucket globalAlias)
    pure created.id
  | some bucket => pure bucket.id

/-- `ensure_object_storage` -/
def ensureObjectStorage (cfg : Settings) (d : Deployment) : Task ObjectStorageCredentials := do
  let quotaBytes ← orRaise (resolveStorageBytes d)
  let (accessKeyId, secretAccessKey) ← accessKey (keyName d.id)
  let bucketId ← bucketFor (bucketName d.id)
  issue (.allowBucketKey bucketId accessKeyId ⟨true, true⟩)
  let info ← issue (.getBucketInfo bucketId)
  issue (.updateBucket bucketId
    { quotas := some ⟨quotaBytes, cfg.maxObjects⟩
      corsRules := some bucketCorsRules
      lifecycleRules :=
        if info.lifecycleRules.isEmpty then some bucketDefaultLifecycleRules else none })
  pure ⟨bucketName d.id, accessKeyId, secretAccessKey⟩

/-- the provisioning of a reconcile, for a product that opts into both -/
def provision (cfg : Settings) (d : Deployment) :
    Task (ObjectStorageCredentials × DatabaseCredentials) := do
  let storage ← ensureObjectStorage cfg d
  let database ← ensureDatabase cfg d
  pure (storage, database)

end Freepod.Provisioning

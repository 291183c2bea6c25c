import Freepod.Platform.Provisioning
import Mathlib.Logic.Relation

/-!
# Provisioning converges

* `Coherent`: what every run for a deployment leaves, wherever it is broken off.
* `Reached`: how far a run has come with the role and the database.
* `History`: runs for a deployment that are broken off anywhere, and what others do in between.
* `provisioning_converges`: after any history one run that is left alone provisions everything,
  with the password that was stored first, and leaves the lifecycle rules that were there.
-/

namespace Freepod.Provisioning
open Base

variable {cfg : Settings} {id : DeploymentId} {d : Deployment} {w0 w w' : World} {p : String}

/-! ## What is there of a deployment -/

/-- nothing is there yet -/
structure Untouched (id : DeploymentId) (w : World) : Prop where
  rows : ∀ r ∈ w.rows.rows, r.deploymentId ≠ id ∧ r.dbName ≠ databaseName id
  roles : ∀ r ∈ w.roles.rows, r.name ≠ roleName id
  databases : ∀ b ∈ w.databases.rows, b.name ≠ databaseName id
  keys : ∀ k ∈ w.keys.rows, k.name ≠ keyName id
  buckets : ∀ b ∈ w.buckets.rows, bucketName id ∉ b.globalAliases

/-- the deployment's row holds this password -/
def Stored (cfg : Settings) (id : DeploymentId) (p : String) (w : World) : Prop :=
  ∃ row, w.rows.get? id = some row ∧ cfg.keyring.decrypt row.password = .ok p

/-- what every run leaves, wherever it is broken off -/
structure Coherent (cfg : Settings) (id : DeploymentId) (w : World) : Prop where
  /-- no other row has its name -/
  names : ∀ r ∈ w.rows.rows, r.dbName = databaseName id → r.deploymentId = id
  row : ∀ row, w.rows.get? id = some row → row.dbName = databaseName id ∧
    row.roleName = roleName id ∧ ∃ p, cfg.keyring.decrypt row.password = .ok p
  /-- a database is there only with its role, which owns it -/
  owned : ∀ b, w.databases.get? (databaseName id) = some b →
    b.owner = roleName id ∧ (w.roles.get? (roleName id)).isSome
  /-- there is one key with its name at most -/
  key : ∀ k ∈ w.keys.rows, ∀ k' ∈ w.keys.rows, k.name = keyName id → k'.name = keyName id → k = k'

theorem Untouched.coherent (h : Untouched id w) : Coherent cfg id w where
  names := fun r hr hname => absurd hname (h.rows r hr).2
  row := by
    intro row hrow
    obtain ⟨hmem, hid⟩ := Table.get?_eq_some.mp hrow
    exact absurd hid (h.rows row hmem).1
  owned := by
    intro b hb
    obtain ⟨hmem, hname⟩ := Table.get?_eq_some.mp hb
    exact absurd hname (h.databases b hmem)
  key := fun k hk _ _ hname => absurd hname (h.keys k hk)

/-! ## The database -/

/-- what a run of `ensure_database` that began at `w0` keeps -/
structure Keeps (cfg : Settings) (id : DeploymentId) (w0 w : World) : Prop extends
    Coherent cfg id w where
  stored : ∀ p, Stored cfg id p w0 → Stored cfg id p w
  keys : w.keys = w0.keys
  buckets : w.buckets = w0.buckets

theorem Keeps.refl (h : Coherent cfg id w) : Keeps cfg id w w := ⟨h, fun _ hp => hp, rfl, rfl⟩

/-- how far it has come: the password is stored, and these are the role and the database -/
structure Reached (cfg : Settings) (id : DeploymentId) (w0 : World) (p : String)
    (R : Option ClusterRole → Prop) (B : Option ClusterDatabase → Prop) (w : World) : Prop extends
    Keeps cfg id w0 w where
  password : Stored cfg id p w
  role : R (w.roles.get? (roleName id))
  database : B (w.databases.get? (databaseName id))

variable {R S : Option ClusterRole → Prop} {B B' : Option ClusterDatabase → Prop}

/-- the roles change, and the deployment's does not go away -/
theorem Reached.withRoles {roles : Table ClusterRole} (h : Reached cfg id w0 p R B w)
    (hsome : (w.roles.get? (roleName id)).isSome → (roles.get? (roleName id)).isSome)
    (hR : S (roles.get? (roleName id))) :
    Reached cfg id w0 p S B { w with roles } :=
  { h with
    owned := fun b hb => ⟨(h.owned b hb).1, hsome (h.owned b hb).2⟩
    role := hR }

/-- an `ALTER ROLE` of a role that is there -/
theorem Reached.alterRole (f : ClusterRole → ClusterRole) (hname : ∀ r, (f r).name = r.name)
    (h : Reached cfg id w0 p R B w) (hR : ∀ o, R o → ∃ r, o = some r ∧ S (some (f r))) :
    ∃ x w', w.alterRole (roleName id) f hname = .ok (x, w') ∧ Reached cfg id w0 p S B w' := by
  obtain ⟨r, hr, hr'⟩ := hR _ h.role
  refine ⟨(), _, by rw [World.alterRole, hr], ?_⟩
  refine h.withRoles (fun _ => ?_) ?_
  · rw [Table.get?_modify_self _ hr]
    rfl
  · rw [Table.get?_modify_self _ hr]
    exact hr'

/-- a change of the database that leaves its owner -/
theorem Reached.alterDatabase {f : ClusterDatabase → ClusterDatabase}
    {hname : ∀ b, (f b).name = b.name} (h : Reached cfg id w0 p R B w)
    (howner : ∀ b, (f b).owner = b.owner) (hB : ∀ o, B o → ∃ b, o = some b ∧ B' (some (f b))) :
    Reached cfg id w0 p R B' (w.alterDatabase (databaseName id) f hname) := by
  obtain ⟨b, hb, hb'⟩ := hB _ h.database
  have hget : (w.alterDatabase (databaseName id) f hname).databases.get? (databaseName id) =
      some (f b) := by
    unfold World.alterDatabase
    rw [Table.get?_modify_self _ hb]
  exact
    { h with
      owned := by
        intro b' hb''
        rw [hget] at hb''
        cases hb''
        rw [howner]
        exact h.owned b hb
      database := hget ▸ hb' }

/-- why a run of `ensure_database` raises -/
def DatabaseRefused (cfg : Settings) (d : Deployment) : Prop :=
  (∃ e, resolveDatabaseBytes d = .error e) ∨ cfg.keyring.fernets = []

theorem fernets_of_encrypt {nonce : Nat} {text : String} {e : Refusal}
    (h : cfg.keyring.encrypt nonce text = .error e) : cfg.keyring.fernets = [] := by
  unfold Keyring.encrypt at h
  split at h
  · assumption
  · cases h

variable {E : Raised → World → Prop}

theorem withstands_storePassword (h : Keeps cfg d.id w0 w)
    (hE : cfg.keyring.fernets = [] → ∀ e, E e w) :
    Withstands (provisioning cfg) (Keeps cfg d.id w0) E
      (fun out w => (out.1.dbName = databaseName d.id ∧ out.1.roleName = roleName d.id) ∧
        Reached cfg d.id w0 out.2 (fun _ => True) (fun _ => True) w)
      (storePassword cfg d (w.rows.get? d.id)) w := by
  cases hrow : w.rows.get? d.id with
  | some record =>
    obtain ⟨hdb, hrole, p, hp⟩ := h.row record hrow
    unfold storePassword
    dsimp only
    rw [hp]
    exact ⟨⟨hdb, hrole⟩, h, ⟨record, hrow, hp⟩, trivial, trivial⟩
  | none =>
    unfold storePassword
    refine .call h fun dhex => ⟨dhex.hex, w, rfl, ?_⟩
    refine .call h fun dnonce => ⟨dnonce.nonce, w, rfl, ?_⟩
    cases htoken : cfg.keyring.encrypt dnonce.nonce dhex.hex with
    | error e => exact hE (fernets_of_encrypt htoken) _
    | ok token =>
      let row : DatabaseRow := ⟨d.id, databaseName d.id, roleName d.id, token, {}⟩
      have hfree : ∀ r ∈ w.rows.rows, r.deploymentId ≠ d.id := Table.get?_eq_none.mp hrow
      obtain ⟨rows, hrows⟩ := Table.insert?_isSome (t := w.rows) (a := row) hfree
        (fun r hr e he he' => by
          have hname : r.dbName = databaseName d.id :=
            (List.mem_singleton.mp he).symm.trans (List.mem_singleton.mp he')
          exact hfree r hr (h.names r hr hname))
        (List.nodup_singleton _)
      have hget : rows.get? d.id = some row := Table.get?_insert?_self hrows
      have hstored : Reached cfg d.id w0 dhex.hex (fun _ => True) (fun _ => True)
          { w with rows } :=
        { h with
          names := by
            intro r hr hname
            rcases (Table.mem_insert? hrows).mp hr with hr | rfl
            · exact h.names r hr hname
            · rfl
          row := by
            intro r hr
            rw [hget] at hr
            cases hr
            exact ⟨rfl, rfl, _, (Keyring.decrypt_encrypt htoken).1⟩
          stored := by
            intro p hp
            obtain ⟨r, hr, -⟩ := h.stored p hp
            rw [hrow] at hr
            cases hr
          password := ⟨row, hget, (Keyring.decrypt_encrypt htoken).1⟩
          role := trivial
          database := trivial }
      refine .call h fun _ => ⟨(), { w with rows }, ?_, ?_⟩
      · simp only [provisioning, perform]
        rw [hrows]
      · refine .call hstored.toKeeps fun _ => ⟨row, { w with rows }, ?_, ?_⟩
        · simp only [provisioning, perform]
          rw [hget]
        · exact ⟨⟨rfl, rfl⟩, hstored⟩

/-- the administrator may act as the role -/
def Assumable (cfg : Settings) (o : Option ClusterRole) : Prop :=
  ∃ r, o = some r ∧ cfg.adminUser ∈ r.assumedBy

/-- and a client may log in with the password -/
def Usable (cfg : Settings) (p : String) (o : Option ClusterRole) : Prop :=
  ∃ r, o = some r ∧ cfg.adminUser ∈ r.assumedBy ∧ r.password = some p

/-- `PUBLIC` cannot connect -/
def Closed (o : Option ClusterDatabase) : Prop := ∃ b, o = some b ∧ b.publicConnects = false

theorem Usable.assumable {o : Option ClusterRole} (h : Usable cfg p o) : Assumable cfg o := by
  obtain ⟨r, hr, hadmin, -⟩ := h
  exact ⟨r, hr, hadmin⟩

theorem assume_of (h : Assumable cfg (w.roles.get? (roleName id))) :
    w.assume cfg.adminUser (roleName id) = .ok () := by
  obtain ⟨r, hr, hadmin⟩ := h
  unfold World.assume
  rw [hr]
  exact if_pos hadmin

/-- a commit of the row's other columns -/
theorem Reached.withRecord {g : DatabaseRow → DatabaseRecord} (h : Reached cfg id w0 p R B w) :
    Reached cfg id w0 p R B { w with
      rows := w.rows.modify id (fun r => { r with record := g r }) (fun _ => rfl) fun _ => rfl } := by
  have hget : ∀ row, (w.rows.modify id (fun r => { r with record := g r }) (fun _ => rfl)
      fun _ => rfl).get? id = some row →
      ∃ r, w.rows.get? id = some r ∧ row = { r with record := g r } := by
    intro row hrow
    rw [Table.get?_modify, if_pos rfl, Option.map_eq_some_iff] at hrow
    obtain ⟨r, hr, rfl⟩ := hrow
    exact ⟨r, hr, rfl⟩
  have hstored : ∀ p, Stored cfg id p w → Stored cfg id p { w with
      rows := w.rows.modify id (fun r => { r with record := g r }) (fun _ => rfl) fun _ => rfl } := by
    intro p hp
    obtain ⟨r, hr, hdec⟩ := hp
    exact ⟨{ r with record := g r }, by rw [Table.get?_modify_self _ hr], hdec⟩
  exact
    { h with
      names := by
        intro r hr hname
        obtain ⟨x, hx, rfl⟩ := List.mem_map.mp hr
        split at hname
        · rw [if_pos (by assumption)]
          exact h.names x hx hname
        · rw [if_neg (by assumption)]
          exact h.names x hx hname
      row := by
        intro row hrow
        obtain ⟨r, hr, rfl⟩ := hget row hrow
        exact h.row r hr
      stored := fun p hp => hstored p (h.stored p hp)
      password := hstored p h.password }

theorem withstands_unlessExists {T : Remote Answer Raised World Draw} {C : World → Prop}
    {Q : Unit → World → Prop} {present : Bool} {create : Task Unit}
    (h : present = true → Q () w) (hcreate : present = false → Withstands T C E Q create w) :
    Withstands T C E Q (unlessExists present create) w := by
  cases present with
  | true => exact h rfl
  | false => exact hcreate rfl

theorem withstands_createRole (h : Reached cfg id w0 p R B w)
    (hnone : (w.roles.get? (roleName id)).isSome = false) :
    Withstands (provisioning cfg) (Keeps cfg id w0) E
      (fun _ w => Reached cfg id w0 p (fun o => ∃ r, o = some r) B w)
      (issue (.createRole (roleName id))) w := by
  have hget : w.roles.get? (roleName id) = none := by
    rwa [Option.isSome_eq_false_iff, Option.isNone_iff_eq_none] at hnone
  obtain ⟨roles, hroles⟩ := Table.insert?_isSome (t := w.roles)
    (a := ⟨roleName id, true, none, [], []⟩) (Table.get?_eq_none.mp hget)
    (fun _ _ e he => absurd he List.not_mem_nil) List.nodup_nil
  refine .ask h.toKeeps fun _ => ⟨(), { w with roles }, ?_, ?_⟩
  · simp only [provisioning, perform]
    rw [hroles]
  · have hself : roles.get? (roleName id) = _ := Table.get?_insert?_self hroles
    refine h.withRoles (fun _ => ?_) ⟨_, hself⟩
    rw [hself]
    rfl

theorem withstands_createDatabase (h : Reached cfg id w0 p R B w)
    (hR : ∀ o, R o → Assumable cfg o) (hnone : (w.databases.get? (databaseName id)).isSome = false) :
    Withstands (provisioning cfg) (Keeps cfg id w0) E
      (fun _ w => Reached cfg id w0 p R (fun o => ∃ b, o = some b) w)
      (issue (.createDatabase (databaseName id) (roleName id))) w := by
  have hget : w.databases.get? (databaseName id) = none := by
    rwa [Option.isSome_eq_false_iff, Option.isNone_iff_eq_none] at hnone
  obtain ⟨databases, hdatabases⟩ := Table.insert?_isSome (t := w.databases)
    (a := ⟨databaseName id, roleName id, true, false⟩) (Table.get?_eq_none.mp hget)
    (fun _ _ e he => absurd he List.not_mem_nil) List.nodup_nil
  have hself : databases.get? (databaseName id) = _ := Table.get?_insert?_self hdatabases
  refine .ask h.toKeeps fun _ => ⟨(), { w with databases }, ?_, ?_⟩
  · simp only [provisioning, perform]
    rw [assume_of (hR _ h.role), hdatabases]
    rfl
  · obtain ⟨r, hr, -⟩ := hR _ h.role
    exact
      { h with
        owned := by
          intro b hb
          rw [hself] at hb
          cases hb
          exact ⟨rfl, by rw [hr]; rfl⟩
        database := ⟨_, hself⟩ }

theorem withstands_revokePublicAccess
    (h : Reached cfg d.id w0 p (Usable cfg p) (fun o => ∃ b, o = some b) w) :
    Withstands (provisioning cfg) (Keeps cfg d.id w0) E
      (fun _ w => Reached cfg d.id w0 p (Usable cfg p) Closed w)
      (revokePublicAccess d (databaseName d.id) (roleName d.id)) w := by
  obtain ⟨b, hb⟩ := h.database
  let revoked := w.alterDatabase (databaseName d.id) (fun b => { b with publicConnects := false })
    fun _ => rfl
  have hclosed : Reached cfg d.id w0 p (Usable cfg p) Closed revoked :=
    h.alterDatabase (fun _ => rfl) fun o ho => by
      obtain ⟨b, rfl⟩ := ho
      exact ⟨b, rfl, _, rfl, rfl⟩
  unfold revokePublicAccess
  refine .call h.toKeeps fun _ => ⟨(), revoked, ?_, ?_⟩
  · simp only [provisioning, perform]
    rw [assume_of h.role.assumable, hb]
    exact if_pos (h.owned b hb).1
  · obtain ⟨b', hb', hpublic⟩ := hclosed.database
    refine .call hclosed.toKeeps fun _ => ⟨false, revoked, ?_, hclosed⟩
    simp only [provisioning, perform]
    rw [hb', ← hpublic]
    rfl

theorem withstands_applySettings (settings : List (String × String))
    (h : Reached cfg id w0 p (Usable cfg p) B w) :
    Withstands (provisioning cfg) (Keeps cfg id w0) E
      (fun _ w => Reached cfg id w0 p (Usable cfg p) B w)
      (applySettings (roleName id) settings) w := by
  induction settings generalizing w with
  | nil => exact h
  | cons setting rest ih =>
    refine .call h.toKeeps fun _ => ?_
    obtain ⟨x, w', hw, hreached⟩ := h.alterRole (S := Usable cfg p)
      (fun r => { r with settings := setKey setting.1 setting.2 r.settings }) (fun _ => rfl)
      fun o ho => by
        obtain ⟨r, rfl, hr⟩ := ho
        exact ⟨r, rfl, _, rfl, hr⟩
    exact ⟨x, w', hw, ih hreached⟩

theorem withstands_alterLogin (login : Bool) (h : Reached cfg id w0 p (Usable cfg p) B w) :
    Withstands (provisioning cfg) (Keeps cfg id w0) E
      (fun _ w => Reached cfg id w0 p (Usable cfg p) B w)
      (issue (.alterLogin (roleName id) login)) w := by
  refine .ask h.toKeeps fun _ => ?_
  exact h.alterRole _ _ fun o ho => by
    obtain ⟨r, rfl, hr⟩ := ho
    exact ⟨r, rfl, _, rfl, hr⟩

theorem withstands_applyQuotaState {record : DatabaseRow} (state : QuotaState)
    (hdb : record.dbName = databaseName id) (hrole : record.roleName = roleName id)
    (h : Reached cfg id w0 p (Usable cfg p) Closed w) :
    Withstands (provisioning cfg) (Keeps cfg id w0) E
      (fun _ w => Reached cfg id w0 p (Usable cfg p) Closed w) (applyQuotaState record state) w := by
  obtain ⟨b, hb, -⟩ := h.database
  let limited := w.alterDatabase (databaseName id) (fun b => { b with
    readOnly := decide (state = .readonly ∨ state = .blocked) }) fun _ => rfl
  have hlimited : Reached cfg id w0 p (Usable cfg p) Closed limited :=
    h.alterDatabase (fun _ => rfl) fun o ho => by
      obtain ⟨b, rfl, hpublic⟩ := ho
      exact ⟨b, rfl, _, rfl, hpublic⟩
  unfold applyQuotaState
  rw [hdb, hrole]
  refine .call h.toKeeps fun _ => ⟨(), limited, ?_, ?_⟩
  · simp only [provisioning, perform]
    rw [assume_of h.role.assumable, hb]
    dsimp only [bind, Except.bind, found]
    rw [require, if_pos (h.owned b hb).1]
  · split
    · refine Withstands.seq (withstands_alterLogin false hlimited) fun _ w hw => ?_
      exact .ask hw.toKeeps fun _ => ⟨(), w, rfl, hw⟩
    · exact withstands_alterLogin true hlimited

theorem withstands_evaluateQuotaState {record : DatabaseRow} {n : Nat}
    (hplan : resolveDatabaseBytes d = .ok n) (hdb : record.dbName = databaseName d.id)
    (hrole : record.roleName = roleName d.id)
    (h : Reached cfg d.id w0 p (Usable cfg p) Closed w) :
    Withstands (provisioning cfg) (Keeps cfg d.id w0) E
      (fun _ w => Reached cfg d.id w0 p (Usable cfg p) Closed w)
      (evaluateQuotaState d record) w := by
  unfold evaluateQuotaState
  split
  · exact h
  · rw [hplan, hdb]
    obtain ⟨b, hb, -⟩ := h.database
    show Withstands _ _ _ _ (issue (.databaseSizeBytes (databaseName d.id)) >>= _) w
    refine .call h.toKeeps fun dsize => ⟨dsize.sizeBytes, w, ?_, ?_⟩
    · simp only [provisioning, perform]
      rw [hb]
      rfl
    refine .seq (withstands_applyQuotaState _ hdb hrole h) fun _ w hw => ?_
    refine .call hw.toKeeps fun dnow => ⟨dnow.now, w, rfl, ?_⟩
    obtain ⟨row, hrow, -⟩ := hw.password
    let new := record.record.evaluated ⟨dsize.sizeBytes, n⟩ dnow.now false false
    refine .call hw.toKeeps fun _ => ⟨(), _, ?_,
      hw.withRecord (g := fun r => record.record.commit new r.record)⟩
    simp only [provisioning, perform]
    rw [hrow]

/-- **`ensure_database` comes through, or is refused before it has changed anything** -/
theorem withstands_ensureDatabase (h : Coherent cfg d.id w) :
    Withstands (provisioning cfg) (Keeps cfg d.id w)
      (fun _ t => DatabaseRefused cfg d ∧ t = w)
      (fun c t => (c.host = cfg.poolerHost ∧ c.port = cfg.poolerPort ∧
          c.database = databaseName d.id ∧ c.user = roleName d.id) ∧
        Reached cfg d.id w c.password (Usable cfg c.password) Closed t)
      (ensureDatabase cfg d) w := by
  have hkeeps := Keeps.refl h
  unfold ensureDatabase
  cases hplan : resolveDatabaseBytes d with
  | error e => exact ⟨.inl ⟨e, hplan⟩, rfl⟩
  | ok n =>
    show Withstands _ _ _ _ (issue (.getRecord d.id) >>= _) w
    refine .call hkeeps fun _ => ⟨w.rows.get? d.id, w, rfl, ?_⟩
    refine .seq (withstands_storePassword hkeeps fun he _ => ⟨.inr he, rfl⟩) ?_
    rintro ⟨record, password⟩ t ⟨⟨hdb, hrole⟩, ht⟩
    -- the role
    refine .call ht.toKeeps fun _ => ⟨_, t, rfl, ?_⟩
    refine .seq (R := fun _ => Reached cfg d.id w password (fun o => ∃ r, o = some r)
      fun _ => True) (withstands_unlessExists (fun hsome => ?_) fun hnone => ?_) fun _ t ht => ?_
    · exact { ht with role := Option.isSome_iff_exists.mp hsome }
    · exact withstands_createRole ht hnone
    obtain ⟨_, t', hgrant, ht'⟩ := ht.alterRole (S := Assumable cfg)
      (fun r => { r with assumedBy := cfg.adminUser :: r.assumedBy }) (fun _ => rfl)
      fun o ho => by
        obtain ⟨r, rfl⟩ := ho
        exact ⟨r, rfl, _, rfl, List.mem_cons_self⟩
    refine .call ht.toKeeps fun _ => ⟨_, t', hgrant, ?_⟩
    clear hgrant ht t
    obtain ⟨_, t, halter, ht⟩ := ht'.alterRole (S := Usable cfg password)
      (fun r => { r with password := some password }) (fun _ => rfl)
      fun o ho => by
        obtain ⟨r, rfl, hadmin⟩ := ho
        exact ⟨r, rfl, _, rfl, hadmin, rfl⟩
    refine .call ht'.toKeeps fun _ => ⟨_, t, halter, ?_⟩
    -- the database
    refine .call ht.toKeeps fun _ => ⟨_, t, rfl, ?_⟩
    refine .seq (R := fun _ => Reached cfg d.id w password (Usable cfg password)
      fun o => ∃ b, o = some b) (withstands_unlessExists (fun hsome => ?_) fun hnone => ?_)
      fun _ t ht => ?_
    · exact { ht with database := Option.isSome_iff_exists.mp hsome }
    · exact withstands_createDatabase ht (fun _ ho => ho.assumable) hnone
    refine .seq (withstands_revokePublicAccess ht) fun _ t ht => ?_
    refine .seq (withstands_applySettings roleSettings ht) fun _ t ht => ?_
    refine .seq (withstands_evaluateQuotaState hplan hdb hrole ht) fun _ t ht => ?_
    exact ⟨⟨rfl, rfl, rfl, rfl⟩, ht⟩

/-! ## The bucket -/

/-- the lifecycle rules that were there are still there -/
def LifecycleKept (w0 w : World) : Prop :=
  ∀ b ∈ w0.buckets.rows, b.lifecycleRules ≠ [] → ∃ b' ∈ w.buckets.rows,
    b'.id = b.id ∧ b'.globalAliases = b.globalAliases ∧ b'.lifecycleRules = b.lifecycleRules

theorem LifecycleKept.refl (w : World) : LifecycleKept w w := fun b hb _ => ⟨b, hb, rfl, rfl, rfl⟩

theorem LifecycleKept.trans {w0 w1 w2 : World} (h : LifecycleKept w0 w1)
    (h' : LifecycleKept w1 w2) : LifecycleKept w0 w2 := by
  intro b hb hne
  obtain ⟨b1, hb1, hid, haliases, hrules⟩ := h b hb hne
  obtain ⟨b2, hb2, hid', haliases', hrules'⟩ := h' b1 hb1 (hrules ▸ hne)
  exact ⟨b2, hb2, hid'.trans hid, haliases'.trans haliases, hrules'.trans hrules⟩

/-- what a run of `ensure_object_storage` that began at `w0` keeps -/
structure KeepsStorage (cfg : Settings) (id : DeploymentId) (w0 w : World) : Prop extends
    Coherent cfg id w where
  rows : w.rows = w0.rows
  roles : w.roles = w0.roles
  databases : w.databases = w0.databases
  lifecycle : LifecycleKept w0 w

theorem KeepsStorage.refl (h : Coherent cfg id w) : KeepsStorage cfg id w w :=
  ⟨h, rfl, rfl, rfl, .refl w⟩

/-- the key of the deployment, with its secret -/
def HasKey (id : DeploymentId) (key : Nat × String) (w : World) : Prop :=
  ∃ k ∈ w.keys.rows, k.name = keyName id ∧ key = (k.id, k.secret.1)

/-- the bucket of the deployment -/
def HasBucket (id : DeploymentId) (bucket : Nat) (P : Bucket → Prop) (w : World) : Prop :=
  ∃ b, w.buckets.get? bucket = some b ∧ bucketName id ∈ b.globalAliases ∧ P b

theorem withstands_accessKey (h : KeepsStorage cfg id w0 w) :
    Withstands (provisioning cfg) (KeepsStorage cfg id w0) E
      (fun key w => KeepsStorage cfg id w0 w ∧ HasKey id key w) (accessKey (keyName id)) w := by
  unfold accessKey findKey
  refine (withstands_bind _ _).mpr (.call h fun _ => ⟨w.keys.rows, w, rfl, ?_⟩)
  show Withstands _ _ _ _ _ w
  cases hfind : w.keys.rows.find? fun k => decide (k.name = keyName id) with
  | some k =>
    have hk : k.name = keyName id := of_decide_eq_true (List.find?_some
      (p := fun k : AccessKey => decide (k.name = keyName id)) hfind)
    have hmem := List.mem_of_find?_eq_some hfind
    refine .seq (R := fun secret t => t = w ∧ secret = k.secret.1) ?_ fun secret t ht => ?_
    · refine .call h fun _ => ⟨k, w, ?_, ?_⟩
      · simp only [provisioning, perform]
        rw [show w.keys.get? k.id = some k from Table.get?_of_mem hmem]
      · rw [if_neg k.secret.2]
        exact ⟨rfl, rfl⟩
    · obtain ⟨rfl, rfl⟩ := ht
      exact ⟨h, k, hmem, hk, rfl⟩
  | none =>
    have hnone : ∀ k ∈ w.keys.rows, k.name ≠ keyName id := fun k hk =>
      of_decide_eq_false (Bool.eq_false_iff.mpr (List.find?_eq_none.mp hfind k hk))
    refine .call h fun dsecret => ?_
    let k : AccessKey := ⟨w.keys.nextKey, keyName id, dsecret.secret⟩
    obtain ⟨keys, hkeys⟩ := Table.insert?_isSome (t := w.keys) (a := k)
      (Table.get?_eq_none.mp w.keys.get?_nextKey) (fun _ _ e he => absurd he List.not_mem_nil)
      List.nodup_nil
    refine ⟨k, { w with keys }, ?_, ?_, k, ?_, rfl, rfl⟩
    · simp only [provisioning, perform]
      rw [hkeys]
    · refine { h with key := fun k1 hk1 k2 hk2 hname1 hname2 => ?_ }
      rcases (Table.mem_insert? hkeys).mp hk1 with hk1 | rfl
      · exact absurd hname1 (hnone k1 hk1)
      · rcases (Table.mem_insert? hkeys).mp hk2 with hk2 | rfl
        · exact absurd hname2 (hnone k2 hk2)
        · rfl
    · exact (Table.mem_insert? hkeys).mpr (.inr rfl)

theorem KeepsStorage.insertBucket {buckets : Table Bucket} {b : Bucket}
    (h : KeepsStorage cfg id w0 w) (hb : w.buckets.insert? b = some buckets) :
    KeepsStorage cfg id w0 { w with buckets } :=
  { h with
    lifecycle := h.lifecycle.trans fun x hx _ =>
      ⟨x, (Table.mem_insert? hb).mpr (.inl hx), rfl, rfl, rfl⟩ }

theorem withstands_bucketFor {key : Nat × String} (h : KeepsStorage cfg id w0 w)
    (hkey : HasKey id key w) :
    Withstands (provisioning cfg) (KeepsStorage cfg id w0) E
      (fun bucket w => KeepsStorage cfg id w0 w ∧ HasKey id key w ∧
        HasBucket id bucket (fun _ => True) w)
      (bucketFor (bucketName id)) w := by
  unfold bucketFor findBucket
  refine (withstands_bind _ _).mpr (.call h fun _ => ⟨w.buckets.rows, w, rfl, ?_⟩)
  show Withstands _ _ _ _ _ w
  cases hfind : w.buckets.rows.find? fun b => decide (bucketName id ∈ b.globalAliases) with
  | some b =>
    have hb : bucketName id ∈ b.globalAliases := of_decide_eq_true (List.find?_some
      (p := fun b : Bucket => decide (bucketName id ∈ b.globalAliases)) hfind)
    exact ⟨h, hkey, b, Table.get?_of_mem (List.mem_of_find?_eq_some hfind), hb, trivial⟩
  | none =>
    have hnone : ∀ b ∈ w.buckets.rows, bucketName id ∉ b.globalAliases := fun b hb =>
      of_decide_eq_false (Bool.eq_false_iff.mpr (List.find?_eq_none.mp hfind b hb))
    let b : Bucket := ⟨w.buckets.nextKey, [bucketName id], [], none, [], []⟩
    obtain ⟨buckets, hbuckets⟩ := Table.insert?_isSome (t := w.buckets) (a := b)
      (Table.get?_eq_none.mp w.buckets.get?_nextKey)
      (fun x hx e he he' => hnone x hx (List.mem_singleton.mp he' ▸ he))
      (List.nodup_singleton _)
    refine .call h fun _ => ⟨b, { w with buckets }, ?_, h.insertBucket hbuckets, hkey, b, ?_, ?_⟩
    · simp only [provisioning, perform]
      rw [hbuckets]
    · exact Table.get?_insert?_self hbuckets
    · exact ⟨List.mem_cons_self, trivial⟩

/-- a change of the bucket that leaves its lifecycle rules when there are any -/
theorem KeepsStorage.alterBucket {P Q : Bucket → Prop} (request : String) {bucket : Nat}
    {key : Nat × String} (f : Bucket → Bucket) (hid : ∀ b, (f b).id = b.id)
    (haliases : ∀ b, (f b).globalAliases = b.globalAliases) (h : KeepsStorage cfg id w0 w)
    (hkey : HasKey id key w) (hb : HasBucket id bucket P w)
    (hrules : ∀ b, w.buckets.get? bucket = some b → b.lifecycleRules ≠ [] →
      (f b).lifecycleRules = b.lifecycleRules)
    (hP : ∀ b, P b → Q (f b)) :
    ∃ x t, w.alterBucket request bucket f hid haliases = .ok (x, t) ∧
      KeepsStorage cfg id w0 t ∧ HasKey id key t ∧ HasBucket id bucket Q t := by
  obtain ⟨b, hget, halias, hPb⟩ := hb
  let t : World := { w with buckets := w.buckets.modify bucket f hid haliases }
  refine ⟨(), t, by rw [World.alterBucket, hget], ?_, hkey, f b, ?_, ?_, hP b hPb⟩
  · refine { h with lifecycle := h.lifecycle.trans fun x hx hne => ?_ }
    refine ⟨if Row.key x = bucket then f x else x, List.mem_map_of_mem hx, ?_⟩
    split
    · rename_i hxb
      have hxget : w.buckets.get? bucket = some x := hxb ▸ Table.get?_of_mem hx
      exact ⟨hid x, haliases x, hrules x hxget hne⟩
    · exact ⟨rfl, rfl, rfl⟩
  · show (w.buckets.modify bucket f hid haliases).get? bucket = some (f b)
    rw [Table.get?_modify_self _ hget]
  · rw [haliases]
    exact halias

/-- the key may read and write the bucket -/
def Opens (key : Nat) (b : Bucket) : Prop := b.permits key = ⟨true, true⟩

theorem opens_allow (key : Nat) (b : Bucket) : Opens key (b.allow key ⟨true, true⟩) := by
  unfold Opens Bucket.allow
  rw [Bucket.permits, lookup_setKey, if_pos rfl, Option.getD_some, Permissions.widen, Bool.or_true,
    Bool.or_true]

/-- **`ensure_object_storage` comes through, or is refused before it has changed anything** -/
theorem withstands_ensureObjectStorage (h : Coherent cfg d.id w) :
    Withstands (provisioning cfg) (KeepsStorage cfg d.id w)
      (fun _ t => (∃ e, resolveStorageBytes d = .error e) ∧ t = w)
      (fun c t => KeepsStorage cfg d.id w t ∧ HasKey d.id (c.accessKeyId, c.secretAccessKey) t ∧
        c.bucket = bucketName d.id ∧ ∃ n bucket, resolveStorageBytes d = .ok n ∧
          HasBucket d.id bucket (fun b => Opens c.accessKeyId b ∧
            b.quotas = some ⟨n, cfg.maxObjects⟩) t)
      (ensureObjectStorage cfg d) w := by
  have hkeeps := KeepsStorage.refl h
  unfold ensureObjectStorage
  cases hplan : resolveStorageBytes d with
  | error e => exact ⟨⟨e, rfl⟩, rfl⟩
  | ok n =>
    show Withstands _ _ _ _ (accessKey (keyName d.id) >>= _) w
    refine .seq (withstands_accessKey hkeeps) ?_
    rintro ⟨key, secret⟩ t ⟨ht, hkey⟩
    refine .seq (withstands_bucketFor ht hkey) ?_
    rintro bucket t ⟨ht, hkey, hb⟩
    -- the grant
    obtain ⟨⟨⟩, t', hallow, ht', hkey', hb'⟩ := ht.alterBucket (Q := Opens key)
      "POST /v2/AllowBucketKey" (fun b => b.allow key ⟨true, true⟩) (fun _ => rfl) (fun _ => rfl)
      hkey hb (fun _ _ _ => rfl)
      fun b _ => opens_allow key b
    refine .call ht fun _ => ⟨(), t', ?_, ?_⟩
    · obtain ⟨k, hk, -, he⟩ := hkey
      have hget : t.keys.get? key = some k := by
        rw [show key = k.id from congrArg Prod.fst he]
        exact Table.get?_of_mem hk
      simp only [provisioning, perform]
      rw [hget]
      exact hallow
    -- the quota, and the rules where there are none
    obtain ⟨b, hget, halias, hopens⟩ := hb'
    refine .call ht' fun _ => ⟨b, t', ?_, ?_⟩
    · simp only [provisioning, perform]
      rw [hget]
    let body : BucketUpdate :=
      { quotas := some ⟨n, cfg.maxObjects⟩
        corsRules := some bucketCorsRules
        lifecycleRules :=
          if b.lifecycleRules.isEmpty then some bucketDefaultLifecycleRules else none }
    obtain ⟨⟨⟩, u, hupdate, hu, hkeyu, hbu⟩ := ht'.alterBucket
      (Q := fun b => Opens key b ∧ b.quotas = some ⟨n, cfg.maxObjects⟩)
      "POST /v2/UpdateBucket" (fun b => b.update body) (fun _ => rfl) (fun _ => rfl)
      hkey' ⟨b, hget, halias, hopens⟩
      (fun x hx hne => by
        rw [hget] at hx
        cases hx
        show (if b.lifecycleRules.isEmpty then some bucketDefaultLifecycleRules else none).getD _ = _
        rw [if_neg (by rwa [List.isEmpty_iff])]
        rfl)
      fun x hx => ⟨hx, rfl⟩
    refine .call ht' fun _ => ⟨(), u, hupdate, hu, hkeyu, rfl, n, bucket, rfl, hbu⟩

/-! ## Runs that are broken off -/

/-- a run for the deployment that ended or was broken off somewhere -/
inductive Run (cfg : Settings) (id : DeploymentId) (w w' : World) : Prop
  | database (d : Deployment) : d.id = id →
      Stops (provisioning cfg) (ensureDatabase cfg d) w w' → Run cfg id w w'
  | storage (d : Deployment) : d.id = id →
      Stops (provisioning cfg) (ensureObjectStorage cfg d) w w' → Run cfg id w w'

/-- what others may do between two runs: the tenant may set the password of its role, open its
database to `PUBLIC` or set lifecycle rules, passwords may be encrypted anew, and other deployments
may be provisioned -/
structure Outside (cfg : Settings) (id : DeploymentId) (w w' : World) : Prop where
  names : ∀ r ∈ w'.rows.rows, r.dbName = databaseName id → r.deploymentId = id
  row : ((w'.rows.get? id).map fun r => (r.dbName, r.roleName, cfg.keyring.decrypt r.password)) =
    (w.rows.get? id).map fun r => (r.dbName, r.roleName, cfg.keyring.decrypt r.password)
  role : (w'.roles.get? (roleName id)).isSome = (w.roles.get? (roleName id)).isSome
  owner : (w'.databases.get? (databaseName id)).map ClusterDatabase.owner =
    (w.databases.get? (databaseName id)).map ClusterDatabase.owner
  keys : (w'.keys.rows.filter fun k => decide (k.name = keyName id)) =
    w.keys.rows.filter fun k => decide (k.name = keyName id)

/-- runs by one worker at a time, and what others do in between -/
abbrev History (cfg : Settings) (id : DeploymentId) : World → World → Prop :=
  Relation.ReflTransGen fun w w' => Run cfg id w w' ∨ Outside cfg id w w'

theorem Run.keeps (h : Run cfg id w w') (hw : Coherent cfg id w) :
    Coherent cfg id w' ∧ (∀ p, Stored cfg id p w → Stored cfg id p w') ∧ LifecycleKept w w' := by
  cases h with
  | database d hid hs =>
    subst hid
    have hkeeps : Keeps cfg d.id w w' := (withstands_ensureDatabase hw).stops
      (fun _ t he => by rw [he.2]; exact .refl hw) (fun _ _ hq => hq.2.toKeeps) hs
    refine ⟨hkeeps.toCoherent, hkeeps.stored, ?_⟩
    unfold LifecycleKept
    rw [hkeeps.buckets]
    exact LifecycleKept.refl w
  | storage d hid hs =>
    subst hid
    have hkeeps : KeepsStorage cfg d.id w w' := (withstands_ensureObjectStorage hw).stops
      (fun _ t he => by rw [he.2]; exact .refl hw) (fun _ _ hq => hq.1) hs
    refine ⟨hkeeps.toCoherent, fun p hp => ?_, hkeeps.lifecycle⟩
    unfold Stored
    rw [hkeeps.rows]
    exact hp

theorem Outside.coherent (h : Outside cfg id w w') (hw : Coherent cfg id w) :
    Coherent cfg id w' where
  names := h.names
  row := by
    intro row hrow
    have hsame := h.row
    rw [hrow] at hsame
    obtain ⟨r, hr, he⟩ := Option.map_eq_some_iff.mp hsame.symm
    obtain ⟨hdb, hrole⟩ := Prod.mk.inj he
    obtain ⟨hrole, hdec⟩ := Prod.mk.inj hrole
    obtain ⟨hdb', hrole', p, hp⟩ := hw.row r hr
    exact ⟨hdb.symm.trans hdb', hrole.symm.trans hrole', p, hdec.symm.trans hp⟩
  owned := by
    intro b hb
    have hsame := h.owner
    rw [hb] at hsame
    obtain ⟨b', hb', he⟩ := Option.map_eq_some_iff.mp hsame.symm
    obtain ⟨howner, hsome⟩ := hw.owned b' hb'
    exact ⟨he.symm.trans howner, h.role.trans hsome⟩
  key := by
    have hback : ∀ k ∈ w'.keys.rows, k.name = keyName id → k ∈ w.keys.rows := by
      intro k hk hname
      have hmem : k ∈ w'.keys.rows.filter fun k => decide (k.name = keyName id) :=
        List.mem_filter.mpr ⟨hk, decide_eq_true hname⟩
      rw [h.keys] at hmem
      exact (List.mem_filter.mp hmem).1
    exact fun k hk k' hk' hname hname' =>
      hw.key k (hback k hk hname) k' (hback k' hk' hname') hname hname'

/-- whatever is done to the buckets -/
theorem Outside.ofBuckets (hw : Coherent cfg id w) (buckets : Table Bucket) :
    Outside cfg id w { w with buckets } := ⟨hw.names, rfl, rfl, rfl, rfl⟩

theorem Outside.stored (h : Outside cfg id w w') (hp : Stored cfg id p w) :
    Stored cfg id p w' := by
  obtain ⟨r, hr, hdec⟩ := hp
  have hsame := h.row
  rw [hr] at hsame
  obtain ⟨row, hrow, he⟩ := Option.map_eq_some_iff.mp hsame
  exact ⟨row, hrow, ((Prod.mk.inj (Prod.mk.inj he).2).2).trans hdec⟩

theorem History.coherent (h : History cfg id w w') (hw : Coherent cfg id w) :
    Coherent cfg id w' := by
  induction h with
  | refl => exact hw
  | tail _ hstep ih =>
    rcases hstep with hrun | hout
    · exact (hrun.keeps ih).1
    · exact hout.coherent ih

/-- **a password that is stored stays** -/
theorem History.stored (h : History cfg id w w') (hw : Coherent cfg id w)
    (hp : Stored cfg id p w) : Stored cfg id p w' := by
  induction h with
  | refl => exact hp
  | tail hpre hstep ih =>
    rcases hstep with hrun | hout
    · exact (hrun.keeps (History.coherent hpre hw)).2.1 p ih
    · exact hout.stored ih

theorem Stored.unique {p' : String} (h : Stored cfg id p w) (h' : Stored cfg id p' w) : p = p' := by
  obtain ⟨r, hr, hp⟩ := h
  obtain ⟨r', hr', hp'⟩ := h'
  rw [hr] at hr'
  cases hr'
  rw [hp] at hp'
  exact Except.ok.inj hp'

/-! ## The run that is left alone -/

/-- why it raises -/
def Refused (cfg : Settings) (d : Deployment) : Prop :=
  (∃ e, resolveStorageBytes d = .error e) ∨ DatabaseRefused cfg d

/-- everything is there once, and the credentials open it -/
structure Provisioned (cfg : Settings) (d : Deployment) (o : ObjectStorageCredentials)
    (c : DatabaseCredentials) (w : World) : Prop where
  row : ∃ row, (w.rows.rows.filter fun r => decide (r.deploymentId = d.id)) = [row] ∧
    row.dbName = c.database ∧ row.roleName = c.user ∧
    cfg.keyring.decrypt row.password = .ok c.password
  role : ∃ r, (w.roles.rows.filter fun r => decide (r.name = c.user)) = [r] ∧
    r.password = some c.password
  database : ∃ b, (w.databases.rows.filter fun b => decide (b.name = c.database)) = [b] ∧
    b.owner = c.user ∧ b.publicConnects = false
  key : ∃ k, (w.keys.rows.filter fun k => decide (k.name = keyName d.id)) = [k] ∧
    o.accessKeyId = k.id ∧ o.secretAccessKey = k.secret.1
  bucket : ∃ b, (w.buckets.rows.filter fun b => decide (o.bucket ∈ b.globalAliases)) = [b] ∧
    b.permits o.accessKeyId = ⟨true, true⟩ ∧
    ∃ (plan : Plan) (n : Nat), d.plan = some plan ∧ plan.storageBytes = some (n : Int) ∧
      b.quotas = some ⟨n, cfg.maxObjects⟩
  names : c.database = databaseName d.id ∧ c.user = roleName d.id ∧ o.bucket = bucketName d.id
  pooler : c.host = cfg.poolerHost ∧ c.port = cfg.poolerPort

theorem plan_of_resolveStorageBytes {n : Nat} (h : resolveStorageBytes d = .ok n) :
    ∃ plan, d.plan = some plan ∧ plan.storageBytes = some (n : Int) := by
  unfold resolveStorageBytes resolveAllowance at h
  dsimp only at h
  split at h
  · cases h
  · rename_i plan hplan
    split at h
    · rename_i m hm
      split at h
      · rename_i hpos
        cases h
        exact ⟨plan, hplan, by rw [hm, Int.toNat_of_nonneg hpos.le]⟩
      · cases h
    · cases h

theorem filter_row {row : DatabaseRow} (h : w.rows.get? id = some row) :
    (w.rows.rows.filter fun r => decide (r.deploymentId = id)) = [row] := by
  have hfilter := w.rows.filter_key id
  rw [h] at hfilter
  exact hfilter

theorem filter_role {r : ClusterRole} {name : String} (h : w.roles.get? name = some r) :
    (w.roles.rows.filter fun r => decide (r.name = name)) = [r] := by
  have hfilter := w.roles.filter_key name
  rw [h] at hfilter
  exact hfilter

theorem filter_database {b : ClusterDatabase} {name : String}
    (h : w.databases.get? name = some b) :
    (w.databases.rows.filter fun b => decide (b.name = name)) = [b] := by
  have hfilter := w.databases.filter_key name
  rw [h] at hfilter
  exact hfilter

/-- what only one row meets is met by that row -/
theorem filter_eq_singleton {α κ ι : Type} [Row α κ ι] [DecidableEq κ] [DecidableEq ι]
    {t : Table α} {q : α → Bool} {a : α} (ha : a ∈ t.rows) (hq : q a = true)
    (hone : ∀ x ∈ t.rows, q x = true → x = a) : t.rows.filter q = [a] := by
  rw [t.filter_toList fun x hx y hy hqx hqy => (hone x hx hqx).trans (hone y hy hqy).symm]
  obtain ⟨x, hx⟩ := Option.isSome_iff_exists.mp (List.find?_isSome.mpr ⟨a, ha, hq⟩)
  rw [hx, hone x (List.mem_of_find?_eq_some hx) (List.find?_some hx)]
  rfl

theorem provisioned_of {n bucket : Nat} {o : ObjectStorageCredentials} {c : DatabaseCredentials}
    (h : Reached cfg d.id w0 c.password (Usable cfg c.password) Closed w)
    (hkey : HasKey d.id (o.accessKeyId, o.secretAccessKey) w)
    (hplan : resolveStorageBytes d = .ok n)
    (hbucket : HasBucket d.id bucket (fun b => Opens o.accessKeyId b ∧
      b.quotas = some ⟨n, cfg.maxObjects⟩) w)
    (hnames : c.database = databaseName d.id ∧ c.user = roleName d.id ∧ o.bucket = bucketName d.id)
    (hpooler : c.host = cfg.poolerHost ∧ c.port = cfg.poolerPort) :
    Provisioned cfg d o c w := by
  obtain ⟨hdb, huser, halias⟩ := hnames
  refine ⟨?_, ?_, ?_, ?_, ?_, ⟨hdb, huser, halias⟩, hpooler⟩
  · obtain ⟨row, hrow, hdec⟩ := h.password
    obtain ⟨hdbName, hroleName, -⟩ := h.row row hrow
    exact ⟨row, filter_row hrow, hdbName.trans hdb.symm, hroleName.trans huser.symm, hdec⟩
  · obtain ⟨r, hr, -, hpassword⟩ := h.role
    exact ⟨r, filter_role (huser ▸ hr), hpassword⟩
  · obtain ⟨b, hb, hpublic⟩ := h.database
    exact ⟨b, filter_database (hdb ▸ hb), (h.owned b hb).1.trans huser.symm, hpublic⟩
  · obtain ⟨k, hk, hname, he⟩ := hkey
    obtain ⟨hid, hsecret⟩ := Prod.mk.inj he
    refine ⟨k, filter_eq_singleton hk (decide_eq_true hname) fun x hx hq => ?_, hid, hsecret⟩
    exact h.key x hx k hk (of_decide_eq_true hq) hname
  · obtain ⟨b, hb, hmem, hopens, hquotas⟩ := hbucket
    obtain ⟨plan, hd, hbytes⟩ := plan_of_resolveStorageBytes hplan
    have hrows := Table.mem_of_get? hb
    rw [← halias] at hmem
    refine ⟨b, filter_eq_singleton hrows (decide_eq_true hmem) fun x hx hq => ?_, hopens, plan, n,
      hd, hbytes, hquotas⟩
    exact Table.eq_of_entry hx hrows (of_decide_eq_true hq) hmem

/-- **provisioning converges from any interruption**: whatever runs were broken off, wherever they
were, one that is left alone provisions everything, unless the plan or the keyring refuses it -/
theorem provisioning_converges {out : Except Raised (ObjectStorageCredentials × DatabaseCredentials)}
    (h0 : Untouched d.id w0) (h : History cfg d.id w0 w)
    (hrun : Ends (provisioning cfg) (provision cfg d) w out w') :
    ((∃ storage database, out = .ok (storage, database) ∧
        Provisioned cfg d storage database w' ∧ LifecycleKept w w' ∧
        ∀ w1 p, History cfg d.id w0 w1 → History cfg d.id w1 w → Stored cfg d.id p w1 →
          database.password = p) ∨
      ∃ e, out = .error e ∧ Refused cfg d) ∧
    ∀ w1 w2, History cfg d.id w0 w1 → Run cfg d.id w1 w2 → LifecycleKept w1 w2 := by
  have hstart : ∀ {w1}, History cfg d.id w0 w1 → Coherent cfg d.id w1 := fun h1 =>
    History.coherent h1 h0.coherent
  refine ⟨?_, fun w1 w2 h1 hr => (hr.keeps (hstart h1)).2.2⟩
  have hstorage := withstands_ensureObjectStorage (hstart h)
  rcases hrun.of_bind with ⟨storage, w1, hs, hrest⟩ | ⟨e, he, hs⟩
  · obtain ⟨hkeeps, hkey, halias, n, bucket, hplan, hbucket⟩ := hstorage.returned hs
    have hensure := withstands_ensureDatabase hkeeps.toCoherent
    rcases hrest.of_bind with ⟨database, w2, hd, hend⟩ | ⟨e, he, hd⟩
    · obtain ⟨⟨hhost, hport, hdb, huser⟩, hreached⟩ := hensure.returned hd
      cases hend
      refine .inl ⟨storage, database, rfl, ?_, ?_, ?_⟩
      · have hkey' : HasKey d.id (storage.accessKeyId, storage.secretAccessKey) w' := by
          unfold HasKey
          rw [hreached.keys]
          exact hkey
        have hbucket' : HasBucket d.id bucket (fun b => Opens storage.accessKeyId b ∧
            b.quotas = some ⟨n, cfg.maxObjects⟩) w' := by
          unfold HasBucket
          rw [hreached.buckets]
          exact hbucket
        exact provisioned_of hreached hkey' hplan hbucket' ⟨hdb, huser, halias⟩ ⟨hhost, hport⟩
      · unfold LifecycleKept
        rw [hreached.buckets]
        exact hkeeps.lifecycle
      · intro w2 p h1 h2 hp
        have hstored : Stored cfg d.id p w := History.stored h2 (hstart h1) hp
        have hstored1 : Stored cfg d.id p w1 := by
          unfold Stored
          rw [hkeeps.rows]
          exact hstored
        exact hreached.password.unique (hreached.stored p hstored1)
    · exact .inr ⟨e, he, .inr (hensure.raised hd).1⟩
  · exact .inr ⟨e, he, .inl (hstorage.raised hs).1⟩

/-! ## A run that was broken off twice -/

namespace Sample

/-- the text itself for its ciphertext -/
def fernet : Fernet := ⟨fun _ text => text, some, fun _ _ => rfl⟩

def settings : Settings where
  keyring := ⟨[("k1", fernet)], by decide⟩
  adminUser := "caelus"
  poolerHost := "pooler"
  poolerPort := 5432
  maxObjects := 1000

def deployment : Deployment := ⟨1, some ⟨some 5000, some 700⟩⟩

/-- the key and the bucket of another deployment -/
def start : World where
  rows := .empty
  roles := .empty
  databases := .empty
  keys := ⟨[⟨1, "app-2", ⟨"s2", by decide⟩⟩], by decide, by decide⟩
  buckets := ⟨[⟨1, ["dep-2"], [(1, ⟨true, true⟩)], none, [], []⟩], by decide, by decide⟩

def draw (hex secret : String) (h : secret ≠ "") : Draw := ⟨hex, 0, 100, 10, ⟨secret, h⟩⟩

def remote := provisioning settings

/-- broken off when the role is there and its password is not set -/
def roleCreated : World :=
  remote.runFor (draw "p1" "s0" (by decide)) 7 (ensureDatabase settings deployment) start

/-- broken off when the bucket is there and nothing is granted -/
def bucketCreated : World :=
  remote.runFor (draw "p2" "s1" (by decide)) 4 (ensureObjectStorage settings deployment) roleCreated

/-- the tenant sets a lifecycle rule -/
def ruled : World :=
  { bucketCreated with
    buckets := bucketCreated.buckets.modify 2 (fun b => { b with lifecycleRules := [.obj []] })
      (fun _ => rfl) fun _ => rfl }

theorem untouched : Untouched deployment.id start where
  rows := fun _ h => absurd h List.not_mem_nil
  roles := fun _ h => absurd h List.not_mem_nil
  databases := fun _ h => absurd h List.not_mem_nil
  keys := by
    intro k hk
    rw [List.mem_singleton.mp hk]
    decide
  buckets := by
    intro b hb
    rw [List.mem_singleton.mp hb]
    decide

theorem history_roleCreated : History settings deployment.id start roleCreated :=
  .single (.inl (.database deployment rfl (Remote.stops_runFor _ _ _ _ _)))

theorem history_ruled : History settings deployment.id roleCreated ruled := by
  have hrun : History settings deployment.id roleCreated bucketCreated :=
    .single (.inl (.storage deployment rfl (Remote.stops_runFor _ _ _ _ _)))
  have hw := History.coherent (history_roleCreated.trans hrun) untouched.coherent
  exact hrun.tail (.inr (.ofBuckets hw _))

end Sample

/-- two runs are broken off and the tenant sets a rule: the next run ends with the first password,
and the rule stays -/
theorem provisioning_converges_sample : ∃ o c w,
    Ends (provisioning Sample.settings) (provision Sample.settings Sample.deployment) Sample.ruled
      (.ok (o, c)) w ∧
    Provisioned Sample.settings Sample.deployment o c w ∧ c.password = "p1" ∧
    ∃ b ∈ w.buckets.rows, b.id = 2 ∧ b.lifecycleRules = [.obj []] := by
  have hends := Sample.remote.ends_run (Sample.draw "p3" "s3" (by decide))
    (provision Sample.settings Sample.deployment) Sample.ruled
  obtain ⟨⟨o, c, hout, hprovisioned, hlifecycle, hfirst⟩ | ⟨e, -, hrefused⟩, -⟩ :=
    provisioning_converges Sample.untouched
      (Sample.history_roleCreated.trans Sample.history_ruled) hends
  · rw [hout] at hends
    refine ⟨o, c, _, hends, hprovisioned, ?_, ?_⟩
    · exact hfirst _ "p1" Sample.history_roleCreated Sample.history_ruled ⟨_, rfl, rfl⟩
    · obtain ⟨b, hb⟩ : ∃ b, Sample.ruled.buckets.rows.getLast? = some b := ⟨_, rfl⟩
      have hid : b.id = 2 ∧ b.lifecycleRules = [.obj []] := by
        cases hb
        exact ⟨rfl, rfl⟩
      obtain ⟨b', hb', hid', -, hrules⟩ := hlifecycle b (List.mem_of_getLast? hb)
        (by rw [hid.2]; exact List.cons_ne_nil _ _)
      exact ⟨b', hb', hid'.trans hid.1, hrules.trans hid.2⟩
  · rcases hrefused with ⟨e, h⟩ | ⟨e, h⟩ | h
    · cases h
    · cases h
    · cases h

end Freepod.Provisioning

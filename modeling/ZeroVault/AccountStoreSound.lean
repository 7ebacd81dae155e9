import ZeroVault.AccountRoutes
import ZeroVault.AccountStmtSound

/-!
# What the account routes write

`Transacts` lists the transactions of each route together with what the route
had read before. `AccountCall.sat` proves that no route runs any other.
-/

namespace ZeroVault

open Lib

abbrev AccountTrace := List (Step Db (Access AccountStmt))

/-! ## The transactions -/

/-- The transactions of `registerDevice`; only a reset changes the status. -/
inductive Registers (A : Ambient) (userId : UserId) (device : TrustedDevice) (credentialHash : Option String)
    (epoch : Option Nat) : List AccountStmt → Prop
  | insert : Registers A userId device credentialHash epoch [insertDeviceStmt userId device credentialHash epoch]
  | replace (existingId : DeviceId) : Registers A userId device credentialHash epoch
      (replaceDeviceStmts A userId existingId device (credentialHash.getD "") epoch)
  | update (existingId : DeviceId) (nextStatus : DeviceStatus) (reset : Bool) :
      (reset = true → nextStatus = .pending) → Registers A userId device credentialHash epoch
      (updateDeviceStmts A userId existingId device nextStatus credentialHash epoch reset)

def LoggedIn (loginSessionId : String) (userId : UserId) (epoch : Nat) (tr : AccountTrace) : Prop :=
  Saw (fun s => ∃ row, s.loginSessions.get? loginSessionId = some row ∧ row.userId = userId ∧ row.authEpoch = epoch) tr

def RecoveryRecord.Of (record : RecoveryRecord) (userId : UserId) (s : Db) : Prop :=
  ∃ row, s.recoveryPackets.get? userId = some row ∧ row.signingPublicKey = record.signingPublicKey ∧
    row.generation = record.generation

def Issued (row : RecoveryChallengeRow) (tr : AccountTrace) : Prop :=
  ∀ u, row.userId = some u → ∃ (user : UserRow) (record : RecoveryRecord),
    row.authEpoch = some user.authEpoch ∧ row.recoveryGeneration = some record.generation ∧
    Saw (fun s => s.users.get? u = some user) tr ∧ Saw (record.Of u) tr

structure Authorized (K : Crypto) (request : RecoveryFinishUnsignedRequest) (signature : String) (user : StoredUser)
    (challenge : RecoveryChallengeRow) (tr : AccountTrace) : Prop where
  attempt : Saw (fun s => s.recoveryChallenges.get? request.recoveryAttemptId = some challenge) tr
  account : Saw (fun s => s.users.get? user.1 = some user.2) tr
  owner : challenge.userId = some user.1
  epoch : challenge.authEpoch = some user.2.authEpoch
  signed : ∃ (key : String) (record : RecoveryRecord) (transcript : Transcript),
    record.signingPublicKey = some key ∧ Saw (record.Of user.1) tr ∧ challenge.recoveryGeneration = some record.generation ∧
    buildRecoveryFinishTranscript challenge.nonce request = some transcript ∧
    K.verifyEd25519 key signature transcript = true

def RecoveryFinishUnsignedRequest.normalized (r : RecoveryFinishUnsignedRequest) : RecoveryFinishUnsignedRequest :=
  { r with email := normalizeEmail r.email }

def AccountCall.finishesRecovery : AccountCall → Bool
  | recoveryFinish .. => true
  | _ => false

/-- The access commits the recovery that claims `q`. -/
def Finishes (e : Step Db (Access AccountStmt)) (q : RecoveryEligibility) : Prop :=
  ∃ stmts, e.label = .commit stmts ∧ .claimRecovery q ∈ stmts

def Aborts (e : Step Db (Access AccountStmt)) (q : RecoveryEligibility) : Prop :=
  ∃ stmts, e.label = .abort stmts ∧ .claimRecovery q ∈ stmts

def Finished (tr : AccountTrace) : Prop := ∃ x ∈ tr, ∃ q, Finishes x q

/-- The transactions a call runs, after the accesses `tr` it made before. -/
inductive Transacts (K : Crypto) : AccountCall → AccountTrace → List AccountStmt → Prop
  | deleteToken {c tr} (tokenHash : String) : c.finishesRecovery = false →
      Transacts K c tr [.sessions (.deleteByToken tokenHash)]
  | startRegistration {c tr} (id : String) (row : RegistrationSessionRow) : c.finishesRecovery = false →
      Transacts K c tr [.registrations (.insert id row)]
  | consumeRegistration {c tr} (id : String) : c.finishesRecovery = false →
      Transacts K c tr [.registrations (.delete id)]
  | createUser {A request tr} (id : UserId) (row : UserRow) : row.email = request.email →
      Transacts K (.registerFinish A request) tr [.users (.insert id row)]
  | createAccount {A client request tr} (device : TrustedDevice) (hash tokenHash csrf : String) (expiresAt : Instant) :
      request.device.recipientMatches = true → device.id = request.device.id →
      device.publicKey = request.device.publicKey → Transacts K (.mobileRegisterFinish A client request) tr
        (mobileAccountStmts A request device hash tokenHash csrf expiresAt)
  | startLogin {A email request tr} (id : String) (row : LoginSessionRow) :
      Transacts K (.loginStart A email request) tr [.logins (.insertAtEpoch id row)]
  | startFakeLogin {A email request tr} (id : String) (row : FakeLoginSessionRow) :
      Transacts K (.loginStart A email request) tr [.fakeLogins (.insert id row)]
  | consumeLogin {A client path loginId request device tr} :
      Transacts K (.loginFinish A client path loginId request device) tr [.logins (.delete loginId)]
  | consumeFakeLogin {A client path loginId request device tr} :
      Transacts K (.loginFinish A client path loginId request device) tr [.fakeLogins (.delete loginId)]
  | createSession {A client path loginId request device tr} (id : String) (row : SessionRow) :
      LoggedIn loginId row.userId row.authEpoch tr →
      Transacts K (.loginFinish A client path loginId request device) tr [.sessions (.insertAtEpoch id row)]
  | rotateSession {A client path loginId request device tr} (id : String) (deviceId : DeviceId) (row : SessionRow) :
      LoggedIn loginId row.userId row.authEpoch tr →
      Transacts K (.loginFinish A client path loginId request device) tr (rotateStmts id deviceId row)
  | registerLogin {A client path loginId request input tr} (userId : UserId) (device : TrustedDevice) (hash : String)
      (epoch : Nat) (stmts : List AccountStmt) : device.status = .pending → LoggedIn loginId userId epoch tr →
      Registers A userId device (some hash) (some epoch) stmts →
      Transacts K (.loginFinish A client path loginId request input) tr stmts
  | registerPost {A cred client request tr} (userId : UserId) (device : TrustedDevice) (stmts : List AccountStmt) :
      device.status = .pending → Registers A userId device none none stmts →
      Transacts K (.postDevices A cred client request) tr stmts
  | withdraw {c tr} (A : Ambient) (userId : UserId) (deviceId : DeviceId) (status : DeviceStatus) :
      c.finishesRecovery = false → status.active = false → Transacts K c tr (withdrawStmts A userId deviceId status)
  | approve {c tr} (A : Ambient) (userId : UserId) (deviceId : DeviceId) (packet : DeviceVaultKeyPacket) :
      c.finishesRecovery = false → packet.recipientDeviceId = deviceId → Transacts K c tr (approveStmts A userId deviceId packet)
  | shareKey {A cred deviceId body tr} (userId : UserId) (packet : DeviceVaultKeyPacket) :
      packet.recipientDeviceId = deviceId →
      Transacts K (.shareKey A cred deviceId body) tr [.vaultKeys (.upsert userId deviceId packet)]
  | migrateKey {c tr} (userId : UserId) (deviceId : DeviceId) (value : String) (packet : DeviceVaultKeyPacket) :
      packet.recipientDeviceId = deviceId →
      Saw (fun s => ∃ row, deviceOf userId deviceId s = some row ∧ row.publicKey = packet.recipientPublicKey) tr →
      (c.finishesRecovery = true → Finished tr) →
      Transacts K c tr [.vaultKeys (.migrate userId deviceId value packet)]
  | startRecovery {A email request tr} (id : String) (row : RecoveryChallengeRow) : Issued row tr →
      Transacts K (.recoveryStart A email request) tr [.insertChallenge id row]
  | finishRecovery {A request signature tr} (user : StoredUser) (challenge : RecoveryChallengeRow) :
      ReadsOnly tr → request.device.recipientMatches = true →
      Authorized K (RecoveryFinishUnsignedRequest.normalized request) signature user challenge tr →
      Transacts K (.recoveryFinish A request signature) tr
        (finishRecoveryStmts A user request.recoveryAttemptId challenge request.normalized
          (K.hashToken request.device.credential))
  | migrateRecovery {A cred tr} (userId : UserId) (packet : RecoveryPacketV2) (key : String) :
      Transacts K (.migrateRecovery A cred packet key) tr (migrateStmts userId packet key)
  | rotateRecovery {A cred tr} (user : StoredUser) (generation : Nat) (packet : RecoveryPacketV2) (key : String) :
      Transacts K (.rotateRecovery A cred packet key) tr (rotateRecoveryStmts user generation packet key)

/-! ## Accesses -/

abbrev AccountSat {α : Type} (P : AccountTrace → List AccountStmt → Prop) (Q : AccountTrace → α → Prop)
    (p : AccountProg α) (tr : AccountTrace) : Prop :=
  TrySat AccountStmt.exec P Q p tr

section
variable {P : AccountTrace → List AccountStmt → Prop} {tr : AccountTrace} {α : Type}

theorem read_sat {g : Db → α} : AccountSat P (fun tr' a => Saw (fun s => g s = a) tr') (read g) tr :=
  TrySat.read fun _ => Saw.now rfl

theorem tryBatch_sat {stmts : List AccountStmt} (h : P tr stmts) :
    AccountSat P (fun tr' r => r.isSome = true → ∃ x ∈ tr', x.label = .commit stmts) (tryBatch stmts) tr :=
  TrySat.transact h (fun s s' _ _ => ⟨⟨.commit stmts, s, s'⟩, by simp, rfl⟩) fun _ _ => nofun

theorem accountBatch_sat {stmts : List AccountStmt} (h : P tr stmts) :
    AccountSat P (fun _ _ => True) (accountBatch stmts) tr := by
  refine (tryBatch_sat h).bind fun tr' r _ _ => ?_
  split
  · exact TrySat.pure trivial
  · exact TrySat.throw

theorem runStmt_sat {q : AccountStmt} (h : P tr [q]) : AccountSat P (fun _ _ => True) (runStmt q) tr :=
  (accountBatch_sat h).bind fun _ _ _ _ => TrySat.pure trivial

/-! ## Registration, login and bearer sessions -/

theorem consumeRegistrationSession_sat {A : Ambient} {id : String}
    (h : ∀ tr', P tr' [.registrations (.delete id)]) :
    AccountSat P (fun _ _ => True) (consumeRegistrationSession A id) tr := by
  unfold consumeRegistrationSession getRegistrationSession
  refine (read_sat.bind fun _ _ _ _ => TrySat.pure (Q := fun _ _ => True) trivial).bind fun tr1 _ _ _ => ?_
  split
  · exact TrySat.pure trivial
  · refine (runStmt_sat (h tr1)).bind fun _ _ _ _ => ?_
    split <;> exact TrySat.pure trivial

theorem registrationSessionFor_sat {A : Ambient} {id email : String}
    (h : ∀ tr', P tr' [.registrations (.delete id)]) :
    AccountSat P (fun _ _ => True) (registrationSessionFor A id email) tr := by
  refine (consumeRegistrationSession_sat h).bind fun _ _ _ _ => ?_
  split
  · exact TrySat.throw
  · exact TrySat.pure trivial

theorem consumeLoginSession_sat {A : Ambient} {id : String} (h : ∀ tr', P tr' [.logins (.delete id)]) :
    AccountSat P (fun tr' r => ∀ row, r = some row → LoggedIn id row.userId row.authEpoch tr')
      (consumeLoginSession A id) tr := by
  unfold consumeLoginSession
  refine read_sat.bind fun tr1 r _ hr => ?_
  split
  · exact TrySat.pure nofun
  · rename_i row
    refine (runStmt_sat (h tr1)).bind fun tr2 _ hpre _ => ?_
    split
    · exact TrySat.pure nofun
    split
    · exact TrySat.pure nofun
    · refine TrySat.pure ?_
      rintro _ ⟨⟩
      obtain ⟨s, hs, hrow⟩ := hr
      exact ⟨s, hpre.subset hs, row, hrow, rfl, rfl⟩

theorem loginUser_sat {K : Crypto} {A : Ambient} {id request : String} (h : ∀ tr', P tr' [.logins (.delete id)])
    (hf : ∀ tr', P tr' [.fakeLogins (.delete id)]) :
    AccountSat P (fun tr' user => LoggedIn id user.1 user.2.authEpoch tr') (loginUser K A id request) tr := by
  refine (consumeLoginSession_sat h).bind fun tr1 login _ hl => ?_
  split
  · unfold consumeFakeLoginSession
    refine TrySat.bind (R := fun _ _ => True) ?_ fun _ _ _ _ => TrySat.throw
    refine read_sat.bind fun tr2 r _ _ => ?_
    split
    · exact TrySat.pure trivial
    · refine (runStmt_sat (hf tr2)).bind fun _ _ _ _ => ?_
      split
      · exact TrySat.pure trivial
      split <;> exact TrySat.pure trivial
  rename_i row
  split
  · exact TrySat.throw
  refine read_sat.bind fun tr2 user hpre _ => ?_
  split
  · exact TrySat.throw
  split
  · exact TrySat.throw
  rename_i hepoch
  split
  · exact TrySat.throw
  · refine TrySat.pure ?_
    rw [← Decidable.of_not_not hepoch]
    exact (hl row rfl).later hpre

theorem createSession_sat {A : Ambient} {row : SessionRow}
    (h : P tr [.sessions (.insertAtEpoch (A.random "sessionId") row)]) :
    AccountSat P (fun _ _ => True) (createSession A row) tr := by
  refine (runStmt_sat h).bind fun _ _ _ _ => ?_
  split
  · exact TrySat.throw
  · exact TrySat.pure trivial

theorem rotateDeviceSession_sat {A : Ambient} {deviceId : DeviceId} {row : SessionRow}
    (h : P tr (rotateStmts (A.random "sessionId") deviceId row)) :
    AccountSat P (fun _ _ => True) (rotateDeviceSession A deviceId row) tr := by
  refine (accountBatch_sat h).bind fun _ _ _ _ => ?_
  refine TrySat.bind (R := fun _ _ => True) (read_sat.bind fun _ _ _ _ => TrySat.pure trivial) fun _ _ _ _ => ?_
  split
  · exact TrySat.throw
  · exact TrySat.pure trivial

theorem sessionMiddleware_sat {K : Crypto} {A : Ambient} {c : Credentials}
    (h : ∀ tr' t, P tr' [.sessions (.deleteByToken t)]) :
    AccountSat P (fun _ _ => True) (sessionMiddleware K A c) tr := by
  refine read_sat.bind fun tr1 found _ _ => ?_
  split
  · exact TrySat.pure trivial
  split
  · exact (runStmt_sat (h tr1 _)).bind fun _ _ _ _ => TrySat.pure trivial
  split <;> exact TrySat.pure trivial

theorem authenticated_sat {K : Crypto} {A : Ambient} {c : Credentials}
    (h : ∀ tr' t, P tr' [.sessions (.deleteByToken t)]) :
    AccountSat P (fun _ _ => True) (authenticated K A c) tr := by
  refine (sessionMiddleware_sat h).bind fun _ _ _ _ => ?_
  split
  · exact TrySat.throw
  split
  · exact TrySat.throw
  · exact TrySat.pure trivial

/-! ## Devices -/

theorem assertExpectedEpoch_sat {userId : UserId} {epoch : Option Nat} :
    AccountSat P (fun _ _ => True) (assertExpectedEpoch userId epoch) tr := by
  unfold assertExpectedEpoch
  split
  · exact TrySat.pure trivial
  · refine read_sat.bind fun _ _ _ _ => ?_
    split
    · exact TrySat.throw
    · exact TrySat.pure trivial

theorem registeredDevice_sat {userId : UserId} {deviceId : DeviceId} {epoch : Option Nat} :
    AccountSat P (fun _ _ => True) (registeredDevice userId deviceId epoch) tr := by
  refine assertExpectedEpoch_sat.bind fun _ _ _ _ => read_sat.bind fun _ _ _ _ => ?_
  split
  · exact TrySat.throw
  · exact TrySat.pure trivial

theorem updateDeviceStmts_inj {A A' : Ambient} {u u' : UserId} {id id' : DeviceId} {device device' : TrustedDevice}
    {status status' : DeviceStatus} {hash hash' : Option String} {epoch epoch' : Option Nat} {reset : Bool}
    (h : updateDeviceStmts A u id device status hash epoch reset =
      updateDeviceStmts A' u' id' device' status' hash' epoch' false) :
    reset = false ∧ u = u' ∧ id = id' ∧ device = device' ∧ status = status' := by
  cases reset
  · simp only [updateDeviceStmts, Bool.false_eq_true, if_false, List.append_nil,
      List.cons.injEq, AccountStmt.devices.injEq, DeviceStmt.update.injEq] at h
    exact ⟨rfl, h.2.1.1, h.2.1.2.1, h.2.1.2.2.1, h.2.1.2.2.2.1⟩
  · simp [updateDeviceStmts] at h

/-- A registration that resets nothing writes back the status of the row that it
found under the device's key. -/
def WritesRead (tr : AccountTrace) (stmts : List AccountStmt) : Prop :=
  ∀ A userId existingId device status hash epoch,
    stmts = updateDeviceStmts A userId existingId device status hash epoch false →
    ∃ old, old.status = status ∧ old.publicKey = device.publicKey ∧
      Saw (fun s => existingDevice userId device s = some (existingId, old)) tr

theorem writesRead_of {stmts : List AccountStmt} (h : ∀ A userId existingId device status hash epoch,
    stmts ≠ updateDeviceStmts A userId existingId device status hash epoch false) : WritesRead tr stmts :=
  fun A userId existingId device status hash epoch he => absurd he (h A userId existingId device status hash epoch)

theorem registerDevice_sat {A : Ambient} {userId : UserId} {device : TrustedDevice} {hash : Option String}
    {epoch : Option Nat}
    (h : ∀ tr' stmts, tr <+: tr' → Registers A userId device hash epoch stmts → WritesRead tr' stmts → P tr' stmts) :
    AccountSat P (fun _ _ => True) (registerDevice A userId device hash epoch) tr := by
  refine assertExpectedEpoch_sat.bind fun tr1 _ h1 _ => read_sat.bind fun tr2 _ h2 _ => ?_
  split
  · exact TrySat.throw
  refine read_sat.bind fun tr3 existing h3 hex => ?_
  have hpre := (h1.trans h2).trans h3
  split
  · refine (runStmt_sat (h tr3 _ hpre .insert (writesRead_of ?_))).bind fun _ _ _ _ => ?_
    · simp [insertDeviceStmt, updateDeviceStmts]
    split
    · exact TrySat.throw
    · exact assertExpectedEpoch_sat.bind fun _ _ _ _ => TrySat.pure trivial
  · rename_i existingId row
    dsimp only
    split
    · refine (accountBatch_sat (h tr3 _ hpre (.replace existingId) (writesRead_of ?_))).bind
        fun _ _ _ _ => registeredDevice_sat
      simp [replaceDeviceStmts, updateDeviceStmts]
    · refine (accountBatch_sat (h tr3 _ hpre (.update existingId _ _ fun hreset => ?_) ?_)).bind
        fun _ _ _ _ => registeredDevice_sat
      · rw [if_pos hreset]
      intro A' userId' existingId' device' status' hash' epoch' he
      obtain ⟨hreset, hu, hid, hdev, hstatus⟩ := updateDeviceStmts_inj he
      subst hu hid hdev
      rw [if_neg (by rw [hreset]; nofun)] at hstatus
      simp only [Bool.or_eq_false_iff, decide_eq_false_iff_not, ne_eq, Decidable.not_not] at hreset
      exact ⟨row, hstatus, hreset.2, hex⟩

theorem withdrawDevice_sat {A : Ambient} {userId : UserId} {deviceId : DeviceId} {status : DeviceStatus}
    (h : ∀ tr', P tr' (withdrawStmts A userId deviceId status)) :
    AccountSat P (fun _ _ => True) (withdrawDevice A userId deviceId status) tr := by
  refine read_sat.bind fun tr1 _ _ _ => ?_
  split
  · exact TrySat.throw
  · exact (accountBatch_sat (h tr1)).bind fun _ _ _ _ => TrySat.pure trivial

/-! ## Vault keys -/

theorem convert_recipient {F : Formats} {value : String} {device : TrustedDevice} {packet : DeviceVaultKeyPacket}
    (h : convertLegacyDeviceVaultKeyPacket F value device = some packet) :
    packet.recipientDeviceId = device.id ∧ packet.recipientPublicKey = device.publicKey := by
  unfold convertLegacyDeviceVaultKeyPacket at h
  split at h
  · cases h
  dsimp only at h
  split at h
  · cases h
  split at h
  · cases h; exact ⟨rfl, rfl⟩
  · cases h

theorem legacy_recipient {F : Formats} {blob : VaultKeyBlob} {device : TrustedDevice}
    {m : String × DeviceVaultKeyPacket} (h : blob.legacy F device = some m) :
    m.2.recipientDeviceId = device.id ∧ m.2.recipientPublicKey = device.publicKey := by
  cases blob with
  | packet p => cases h
  | raw value =>
    obtain ⟨p, hp, rfl⟩ := Option.map_eq_some_iff.mp h
    exact convert_recipient hp

theorem getDeviceVaultKey_sat {F : Formats} {userId : UserId} {deviceId : DeviceId}
    (h : ∀ tr' value (packet : DeviceVaultKeyPacket), tr <+: tr' → packet.recipientDeviceId = deviceId →
      Saw (fun s => ∃ row, deviceOf userId deviceId s = some row ∧ row.publicKey = packet.recipientPublicKey) tr' →
      P tr' [.vaultKeys (.migrate userId deviceId value packet)]) :
    AccountSat P (fun _ _ => True) (getDeviceVaultKey F userId deviceId) tr := by
  refine read_sat.bind fun tr1 stored h1 _ => ?_
  cases stored with
  | none => exact TrySat.pure trivial
  | some blob =>
  dsimp only
  cases hp : blob.parse F with
  | some packet => exact TrySat.pure trivial
  | none =>
  refine read_sat.bind fun tr2 device h2 hd => ?_
  cases device with
  | none => exact TrySat.pure trivial
  | some device =>
  dsimp only
  cases hm : blob.legacy F device with
  | none => exact TrySat.pure trivial
  | some m =>
    obtain ⟨hid, hkey⟩ := legacy_recipient hm
    obtain ⟨s, hs, hrow⟩ := hd
    obtain ⟨row, hdev, rfl⟩ := Option.map_eq_some_iff.mp hrow
    refine (runStmt_sat (h tr2 m.1 m.2 (h1.trans h2) hid ⟨s, hs, row, hdev, hkey.symm⟩)).bind fun _ _ _ _ => ?_
    split
    · exact TrySat.pure trivial
    · exact read_sat.bind fun _ _ _ _ => TrySat.pure trivial

theorem approveDeviceWithVaultKey_sat {F : Formats} {A : Ambient} {userId : UserId} {deviceId : DeviceId}
    {packet : DeviceVaultKeyPacket} (hA : P tr (approveStmts A userId deviceId packet))
    (h : ∀ tr' value (packet : DeviceVaultKeyPacket), tr <+: tr' → packet.recipientDeviceId = deviceId →
      Saw (fun s => ∃ row, deviceOf userId deviceId s = some row ∧ row.publicKey = packet.recipientPublicKey) tr' →
      P tr' [.vaultKeys (.migrate userId deviceId value packet)]) :
    AccountSat P (fun _ _ => True) (approveDeviceWithVaultKey F A userId deviceId packet) tr := by
  refine (accountBatch_sat hA).bind fun _ _ h1 _ => read_sat.bind fun _ _ h2 _ => ?_
  refine (getDeviceVaultKey_sat fun tr' value packet h3 => h tr' value packet ((h1.trans h2).trans h3)).bind
    fun _ _ _ _ => ?_
  split
  · exact TrySat.throw
  · exact TrySat.pure trivial

/-! ## Recovery -/

theorem record_of {row : RecoveryPacketRow} {record : RecoveryRecord} (h : row.record = some record)
    (hv : record.protocolVersion = 2) :
    row.signingPublicKey = record.signingPublicKey ∧ row.generation = record.generation := by
  unfold RecoveryPacketRow.record at h
  split at h
  · split at h
    · rename_i hkey
      split at h
      · cases h; exact ⟨hkey, rfl⟩
      · cases h
    · cases h
  · cases h; cases hv

theorem getRecoveryRecord_sat {userId : UserId} :
    AccountSat P (fun tr' r => ∀ record, r = some record → record.protocolVersion = 2 → Saw (record.Of userId) tr')
      (getRecoveryRecord userId) tr := by
  refine read_sat.bind fun tr1 row _ hrow => ?_
  split
  · rename_i row
    refine TrySat.pure fun record hr hv => ?_
    obtain ⟨s, hs, hrow⟩ := hrow
    exact ⟨s, hs, row, hrow, record_of hr hv⟩
  · refine read_sat.bind fun tr2 user _ _ => TrySat.pure fun record hr hv => ?_
    obtain ⟨u, rfl, rfl⟩ := Option.map_eq_some_iff.mp hr
    cases hv

theorem migrateRecoveryV1_sat {userId : UserId} {packet : RecoveryPacketV2} {key : String}
    (h : ∀ tr', P tr' (migrateStmts userId packet key)) :
    AccountSat P (fun _ _ => True) (migrateRecoveryV1 userId packet key) tr := by
  refine getRecoveryRecord_sat.bind fun tr1 current _ _ => ?_
  split
  · exact TrySat.throw
  split
  · exact TrySat.throw
  · refine (accountBatch_sat (h tr1)).bind fun _ _ _ _ => getRecoveryRecord_sat.bind fun _ _ _ _ => ?_
    split
    · exact TrySat.pure trivial
    · exact TrySat.throw

theorem rotateRecoveryV2_sat {user : StoredUser} {generation : Nat} {packet : RecoveryPacketV2} {key : String}
    (h : P tr (rotateRecoveryStmts user generation packet key)) :
    AccountSat P (fun _ _ => True) (rotateRecoveryV2 user generation packet key) tr := by
  refine (accountBatch_sat h).bind fun _ _ _ _ => ?_
  split
  · exact TrySat.throw
  · refine read_sat.bind fun _ _ _ _ => getRecoveryRecord_sat.bind fun _ _ _ _ => ?_
    split
    · exact TrySat.pure trivial
    · exact TrySat.throw

theorem getRegistrationSession_sat {A : Ambient} {id : String} :
    AccountSat P (fun _ _ => True) (getRegistrationSession A id) tr :=
  read_sat.bind fun _ _ _ _ => TrySat.pure trivial

theorem finishAborted_sat {A : Ambient} {user : StoredUser} {challengeId : String} {challenge : RecoveryChallengeRow}
    {request : RecoveryFinishUnsignedRequest} :
    AccountSat P (fun _ _ => True) (finishAborted A user challengeId challenge request) tr := by
  refine read_sat.bind fun _ _ _ _ => ?_
  split
  · exact TrySat.throw
  refine read_sat.bind fun _ _ _ _ => getRecoveryRecord_sat.bind fun _ _ _ _ => read_sat.bind fun _ _ _ _ => ?_
  refine getRegistrationSession_sat.bind fun _ _ _ _ => read_sat.bind fun _ _ _ _ => ?_
  split <;> exact TrySat.throw

theorem finishRecoveryV2_sat {F : Formats} {A : Ambient} {user : StoredUser} {challengeId : String}
    {challenge : RecoveryChallengeRow} {request : RecoveryFinishUnsignedRequest} {hash : String}
    (hF : P tr (finishRecoveryStmts A user challengeId challenge request hash))
    (h : ∀ tr' value (packet : DeviceVaultKeyPacket), Finished tr' → packet.recipientDeviceId = request.device.id →
      Saw (fun s => ∃ row, deviceOf user.1 request.device.id s = some row ∧
        row.publicKey = packet.recipientPublicKey) tr' →
      P tr' [.vaultKeys (.migrate user.1 request.device.id value packet)]) :
    AccountSat P (fun _ _ => True) (finishRecoveryV2 F A user challengeId challenge request hash) tr := by
  refine (tryBatch_sat hF).bind fun tr1 r _ hr => ?_
  cases r with
  | none => exact finishAborted_sat
  | some changes =>
    obtain ⟨x, hx, hl⟩ := hr rfl
    refine read_sat.bind fun _ _ h1 _ => getRecoveryRecord_sat.bind fun _ _ h2 _ => read_sat.bind fun _ _ h3 _ => ?_
    have hpre := (h1.trans h2).trans h3
    refine (getDeviceVaultKey_sat fun tr' value packet h4 =>
      h tr' value packet ⟨x, (hpre.trans h4).subset hx, _, _, hl, List.mem_cons_self⟩).bind fun _ _ _ _ => ?_
    split
    · exact TrySat.pure trivial
    · exact TrySat.throw

end

/-! ## Routes -/

section
variable {F : Formats} {K : Crypto} {A : Ambient} {tr : AccountTrace}

theorem registerStart_sat {email request : String} : AccountSat (Transacts K (.registerStart A email request))
    (fun _ _ => True) (registerStart F K A email request) tr := by
  unfold registerStart
  split
  · exact TrySat.throw
  refine read_sat.bind fun _ _ _ _ => ?_
  split
  · exact TrySat.throw
  split
  · exact TrySat.throw
  · exact ((runStmt_sat (.startRegistration _ _ rfl)).bind fun _ _ _ _ => TrySat.pure (Q := fun _ _ => True) trivial).bind
      fun _ _ _ _ => TrySat.pure trivial

theorem registerFinish_sat {request : RegisterFinishRequest} : AccountSat (Transacts K (.registerFinish A request))
    (fun _ _ => True) (registerFinish F A request) tr := by
  unfold registerFinish
  split
  · exact TrySat.throw
  refine (registrationSessionFor_sat fun _ => .consumeRegistration _ rfl).bind fun _ _ _ _ => ?_
  refine read_sat.bind fun _ _ _ _ => ?_
  split
  · exact TrySat.throw
  refine TrySat.bind (R := fun _ _ => True) ?_ fun _ _ _ _ => TrySat.pure trivial
  refine read_sat.bind fun _ _ _ _ => ?_
  split
  · exact TrySat.throw
  · exact (runStmt_sat (.createUser _ _ rfl)).bind fun _ _ _ _ => TrySat.pure trivial

theorem mobileRegisterFinish_sat {client : ClientInfo} {request : MobileRegisterFinishRequest} :
    AccountSat (Transacts K (.mobileRegisterFinish A client request)) (fun _ _ => True)
      (mobileRegisterFinish F K A client request) tr := by
  unfold mobileRegisterFinish
  split
  · exact TrySat.throw
  rename_i hschema
  have hrec : request.device.recipientMatches = true := by
    simp only [mobileRegisterFinishRequestSchema, Bool.not_eq_true', Bool.not_eq_false, Bool.and_eq_true] at hschema
    exact hschema.2
  refine (registrationSessionFor_sat fun _ => .consumeRegistration _ rfl).bind fun _ _ _ _ => ?_
  refine read_sat.bind fun _ _ _ _ => ?_
  split
  · exact TrySat.throw
  refine TrySat.bind (R := fun _ _ => True) ?_ fun _ _ _ _ => TrySat.pure trivial
  refine read_sat.bind fun _ _ _ _ => ?_
  split
  · exact TrySat.throw
  refine read_sat.bind fun _ _ _ _ => ?_
  split
  · exact TrySat.throw
  · exact (accountBatch_sat (.createAccount _ _ _ _ _ hrec rfl rfl)).bind fun _ _ _ _ => TrySat.pure trivial

theorem loginStart_sat {email request : String} : AccountSat (Transacts K (.loginStart A email request))
    (fun _ _ => True) (loginStart F K A email request) tr := by
  unfold loginStart
  split
  · exact TrySat.throw
  refine read_sat.bind fun _ _ _ _ => ?_
  split
  · refine TrySat.bind (R := fun _ _ => True) (TrySat.mapError ?_) fun _ _ _ _ => TrySat.pure trivial
    refine (runStmt_sat (.startLogin _ _)).bind fun _ _ _ _ => ?_
    split
    · exact TrySat.throw
    · exact TrySat.pure trivial
  · refine TrySat.bind (R := fun _ _ => True) ?_ fun _ _ _ _ => TrySat.pure trivial
    exact (runStmt_sat (.startFakeLogin _ _)).bind fun _ _ _ _ => TrySat.pure trivial

theorem loginDevice_sat {P : AccountTrace → List AccountStmt → Prop} {client : ClientInfo} {path : LoginPath}
    {user : StoredUser} {input : MobileDeviceLogin}
    (h : ∀ tr' stmts, tr <+: tr' → Registers A user.1 (input.trusted .pending (A.now "loginDevice") client)
      (some (K.hashToken input.credential)) (some user.2.authEpoch) stmts → WritesRead tr' stmts → P tr' stmts) :
    AccountSat P (fun _ _ => True) (loginDevice K A client path user input) tr := by
  unfold loginDevice
  split
  · exact TrySat.throw
  refine read_sat.bind fun tr1 _ h1 _ => ?_
  split
  · refine read_sat.bind fun _ _ _ _ => ?_
    split
    · exact TrySat.throw
    split
    · exact TrySat.throw
    · exact TrySat.pure trivial
  · refine TrySat.bind (R := fun _ _ => True) (TrySat.mapError ?_) fun _ _ _ _ => TrySat.pure trivial
    exact registerDevice_sat fun tr2 stmts h2 hreg hread => h tr2 stmts (h1.trans h2) hreg hread

theorem loginFinish_sat {client : ClientInfo} {path : LoginPath} {loginId request : String}
    {device : MobileDeviceLogin} :
    AccountSat (Transacts K (.loginFinish A client path loginId request device)) (fun _ _ => True)
      (loginFinish F K A client path loginId request device) tr := by
  unfold loginFinish
  dsimp only
  split
  · exact TrySat.throw
  refine (loginUser_sat (fun _ => .consumeLogin) fun _ => .consumeFakeLogin).bind fun tr1 user _ hl => ?_
  split
  · refine (loginDevice_sat fun tr2 stmts h2 hreg _ => .registerLogin _ _ _ _ _ rfl (hl.later h2) hreg).bind
      fun tr2 bound h2 _ => ?_
    refine TrySat.bind (R := fun _ _ => True) (TrySat.mapError ?_) fun _ _ _ _ => TrySat.pure trivial
    exact rotateDeviceSession_sat (.rotateSession _ _ _ (hl.later h2))
  · refine TrySat.bind (R := fun _ _ => True) (TrySat.mapError ?_) fun _ _ _ _ => TrySat.pure trivial
    exact createSession_sat (.createSession _ _ hl)

theorem logout_sat {c : Credentials} : AccountSat (Transacts K (.logout A c)) (fun _ _ => True) (logout K A c) tr := by
  refine (sessionMiddleware_sat fun _ t => .deleteToken t rfl).bind fun _ _ _ _ => ?_
  split
  · exact TrySat.throw
  · exact ((runStmt_sat (.deleteToken _ rfl)).bind fun _ _ _ _ => TrySat.pure (Q := fun _ _ => True) trivial).bind
      fun _ _ _ _ => TrySat.pure trivial

theorem postDevices_sat {c : Credentials} {client : ClientInfo} {request : RegisterDeviceRequest} :
    AccountSat (Transacts K (.postDevices A c client request)) (fun _ _ => True) (postDevices K A c client request)
      tr := by
  refine (authenticated_sat fun _ t => .deleteToken t rfl).bind fun tr1 session _ _ => ?_
  split
  · exact TrySat.throw
  · exact (registerDevice_sat fun tr' stmts _ hreg _ => .registerPost _ _ _ rfl hreg).bind
      fun _ _ _ _ => TrySat.pure trivial

theorem rejectRoute_sat {c : Credentials} {deviceId : DeviceId} :
    AccountSat (Transacts K (.reject A c deviceId)) (fun _ _ => True) (rejectRoute K A c deviceId) tr := by
  refine (authenticated_sat fun _ t => .deleteToken t rfl).bind fun tr1 session _ _ => ?_
  split
  · exact TrySat.throw
  refine read_sat.bind fun _ _ _ _ => ?_
  split
  · exact TrySat.throw
  split
  · exact TrySat.throw
  · exact (withdrawDevice_sat fun _ => .withdraw _ _ _ _ rfl rfl).bind fun _ _ _ _ => TrySat.pure trivial

theorem revokeRoute_sat {c : Credentials} {deviceId : DeviceId} :
    AccountSat (Transacts K (.revoke A c deviceId)) (fun _ _ => True) (revokeRoute K A c deviceId) tr :=
  (authenticated_sat fun _ t => .deleteToken t rfl).bind fun _ _ _ _ =>
    (withdrawDevice_sat fun _ => .withdraw _ _ _ _ rfl rfl).bind fun _ _ _ _ => TrySat.pure trivial

theorem vaultKeyPacketFor_ok {session : SessionData} {body : DeviceVaultKeyRequest} {device : TrustedDevice}
    {packet : DeviceVaultKeyPacket} (h : vaultKeyPacketFor F session body device = .ok packet) :
    packet.recipientDeviceId = device.id := by
  unfold vaultKeyPacketFor at h
  split at h
  · cases h
  split at h
  · cases h
  split at h
  · cases h
  · rename_i hne
    cases h
    simp only [not_or, ne_eq, Decidable.not_not] at hne
    exact hne.1

theorem approveRoute_sat {c : Credentials} {deviceId : DeviceId} {body : DeviceVaultKeyRequest} :
    AccountSat (Transacts K (.approve A c deviceId body)) (fun _ _ => True) (approveRoute F K A c deviceId body) tr := by
  refine (authenticated_sat fun _ t => .deleteToken t rfl).bind fun tr1 session _ _ => ?_
  split
  · exact TrySat.throw
  refine read_sat.bind fun tr2 device _ hd => ?_
  cases device with
  | none => exact TrySat.throw
  | some device =>
  obtain ⟨s, _, hrow⟩ := hd
  obtain ⟨row, _, rfl⟩ := Option.map_eq_some_iff.mp hrow
  dsimp only
  split
  · split
    · exact TrySat.throw
    split
    · exact TrySat.throw
    · exact TrySat.pure trivial
  cases hp : vaultKeyPacketFor F session body (rowToDevice deviceId row) with
  | error e => exact TrySat.throw
  | ok packet =>
  dsimp only
  split
  · refine (getDeviceVaultKey_sat fun _ _ _ _ hid hs => .migrateKey _ _ _ _ hid hs nofun).bind fun _ _ _ _ => ?_
    split
    · exact TrySat.pure trivial
    · exact TrySat.throw
  split
  · exact TrySat.throw
  · exact (approveDeviceWithVaultKey_sat (.approve _ _ _ _ rfl (vaultKeyPacketFor_ok hp)) fun _ _ _ _ hid hs => .migrateKey _ _ _ _ hid hs nofun).bind fun _ _ _ _ => TrySat.pure trivial

theorem getDeviceKeyRoute_sat {c : Credentials} {deviceId : DeviceId} :
    AccountSat (Transacts K (.getDeviceKey A c deviceId)) (fun _ _ => True) (getDeviceKeyRoute F K A c deviceId) tr := by
  refine (authenticated_sat fun _ t => .deleteToken t rfl).bind fun tr1 session _ _ => ?_
  split
  · exact TrySat.throw
  refine read_sat.bind fun _ devices _ _ => ?_
  split
  · exact TrySat.throw
  split
  · exact TrySat.throw
  · refine (getDeviceVaultKey_sat fun _ _ _ _ hid hs => .migrateKey _ _ _ _ hid hs nofun).bind fun _ _ _ _ => ?_
    split
    · exact TrySat.throw
    · exact TrySat.pure trivial

theorem shareKeyRoute_sat {c : Credentials} {deviceId : DeviceId} {body : DeviceVaultKeyRequest} :
    AccountSat (Transacts K (.shareKey A c deviceId body)) (fun _ _ => True) (shareKeyRoute F K A c deviceId body)
      tr := by
  refine (authenticated_sat fun _ t => .deleteToken t rfl).bind fun tr1 session _ _ => read_sat.bind fun _ devices _ _ => ?_
  cases hf : devices.find? (·.id = deviceId) with
  | none => exact TrySat.throw
  | some device =>
  have hid : device.id = deviceId := by simpa using List.find?_some hf
  dsimp only
  split
  · exact TrySat.throw
  cases hp : vaultKeyPacketFor F session body device with
  | error e => exact TrySat.throw
  | ok packet =>
  have hrec : packet.recipientDeviceId = deviceId := (vaultKeyPacketFor_ok hp).trans hid
  dsimp only
  split
  · exact (approveDeviceWithVaultKey_sat (.approve _ _ _ _ rfl hrec) fun _ _ _ _ hid hs => .migrateKey _ _ _ _ hid hs nofun).bind
      fun _ _ _ _ => TrySat.pure trivial
  · exact ((runStmt_sat (.shareKey _ _ hrec)).bind fun _ _ _ _ => TrySat.pure (Q := fun _ _ => True) trivial).bind
      fun _ _ _ _ => TrySat.pure trivial

theorem recoveryStart_sat {email request : String} : AccountSat (Transacts K (.recoveryStart A email request))
    (fun _ _ => True) (recoveryStart F K A email request) tr := by
  unfold recoveryStart
  dsimp only
  split
  · exact TrySat.throw
  split
  · exact TrySat.throw
  refine TrySat.bind (R := fun _ _ => True)
    ((runStmt_sat (.startRegistration _ _ rfl)).bind fun _ _ _ _ => TrySat.pure trivial) fun tr1 _ _ _ => ?_
  refine read_sat.bind fun tr2 user _ hu => getRecoveryRecord_sat.bind fun tr3 record h3 hrec => ?_
  refine TrySat.bind (R := fun _ _ => True) ?_ fun _ _ _ _ => ?_
  · refine (runStmt_sat (.startRecovery _ _ fun u hu' => ?_)).bind fun _ _ _ _ => TrySat.pure trivial
    obtain ⟨known, hknown, rfl⟩ := Option.map_eq_some_iff.mp hu'
    rw [hknown]
    cases user with
    | none => cases hknown
    | some user =>
    cases record with
    | none => cases hknown
    | some record =>
    simp only [Option.bind_eq_bind, Option.bind_some, Option.bind_eq_some_iff] at hknown
    obtain ⟨key, hkey, hknown⟩ := hknown
    split at hknown
    · rename_i hv
      cases hknown
      refine ⟨user.2, record, rfl, rfl, ?_, hrec record rfl hv⟩
      obtain ⟨s, hs, hfound⟩ := hu
      exact ⟨s, h3.subset hs, (Table.mem_select.mp (List.mem_of_head? hfound)).1⟩
    · cases hknown
  · split <;> exact TrySat.pure trivial

/-- The key a signature was checked against, once the other checks passed. -/
theorem candidatePublicKey_eq {record : RecoveryRecord} (hv : record.protocolVersion = 2) {key : String}
    (hk : record.signingPublicKey = some key) : RecoveryRecord.candidatePublicKey (some record) = key := by
  obtain ⟨version, packet, signing, generation⟩ := record
  cases hv; cases hk; rfl

theorem recoveryAuthorized_true {request : RecoveryFinishUnsignedRequest} {valid : Bool}
    {challenge : RecoveryChallengeRow} {user : StoredUser} {record : Option RecoveryRecord}
    {registration : Option RegistrationSessionRow}
    (h : recoveryAuthorized A request valid challenge user record registration = true) :
    valid = true ∧ challenge.authEpoch = some user.2.authEpoch ∧ ∃ r key, record = some r ∧ r.protocolVersion = 2 ∧
      r.signingPublicKey = some key ∧ challenge.recoveryGeneration = some r.generation := by
  unfold recoveryAuthorized at h
  simp only [Bool.and_eq_true, decide_eq_true_eq, Option.any_eq_true] at h
  obtain ⟨⟨⟨⟨⟨⟨hvalid, -⟩, -⟩, -⟩, hepoch⟩, r, hr, ⟨hv, hkey⟩, hgen⟩, -⟩ := h
  obtain ⟨key, hkey⟩ := Option.isSome_iff_exists.mp hkey
  exact ⟨hvalid, hepoch, r, key, hr, hv, hkey, hgen⟩

theorem recoveryFinish_sat {request : RecoveryFinishUnsignedRequest} {signature : String} (htr : ReadsOnly tr) :
    AccountSat (Transacts K (.recoveryFinish A request signature)) (fun _ _ => True)
      (recoveryFinish F K A request signature) tr := by
  unfold recoveryFinish
  dsimp only
  split
  · exact TrySat.throw
  rename_i hschema
  have hrec : request.device.recipientMatches = true := by
    simp only [recoveryFinishRequestSchema, recoveryFinishDeviceSchema, Bool.not_eq_true', Bool.not_eq_false,
      Bool.and_eq_true] at hschema
    exact hschema.1.2.2
  -- each read adds to what the route has seen when its batch runs
  refine (read_sat.readOnly htr).bind fun tr1 challenge _ hread => ?_
  obtain ⟨hc, ht1⟩ := hread
  refine (read_sat.readOnly ht1).bind fun tr2 user h2 hread => ?_
  obtain ⟨hu, ht2⟩ := hread
  cases user with
  | none =>
    refine TrySat.bind (R := fun _ _ => True) (TrySat.pure trivial) fun _ _ _ _ => ?_
    refine getRegistrationSession_sat.bind fun _ _ _ _ => ?_
    split
    · exact TrySat.throw
    · cases challenge <;> exact TrySat.throw
  | some user =>
  refine (getRecoveryRecord_sat.readOnly ht2).bind fun tr3 record h3 hread => ?_
  obtain ⟨hr, ht3⟩ := hread
  refine (getRegistrationSession_sat.readOnly ht3).bind fun tr4 registration h4 hread => ?_
  obtain ⟨-, ht4⟩ := hread
  split
  · exact TrySat.throw
  rename_i transcript ht
  cases challenge with
  | none => exact TrySat.throw
  | some challenge =>
  dsimp only
  split
  · exact TrySat.throw
  rename_i hauth
  rw [Bool.not_eq_true', Bool.not_eq_false] at hauth
  obtain ⟨hvalid, hepoch, r, key, rfl, hv, hkey, hgen⟩ := recoveryAuthorized_true hauth
  rw [candidatePublicKey_eq hv hkey] at hvalid
  refine (read_sat.readOnly ht4).bind fun tr5 _ h5 hread => ?_
  obtain ⟨-, ht5⟩ := hread
  split
  · exact TrySat.throw
  have huser : challenge.userId = some user.1 ∧ Saw (fun s => s.users.get? user.1 = some user.2) tr2 := by
    obtain ⟨s, hs, hu⟩ := hu
    obtain ⟨uid, howner, hu⟩ := Option.bind_eq_some_iff.mp hu
    obtain ⟨row, hrow, rfl⟩ := Option.map_eq_some_iff.mp hu
    exact ⟨howner, s, hs, hrow⟩
  have h25 : tr2 <+: tr5 := (h3.trans h4).trans h5
  have hauth : Authorized K request.normalized signature user challenge tr5 := {
    attempt := Saw.later hc (h2.trans h25)
    account := huser.2.later h25
    owner := huser.1
    epoch := hepoch
    signed := ⟨key, r, transcript, hkey, (hr r rfl hv).later (h4.trans h5), hgen, ht, hvalid⟩ }
  exact (finishRecoveryV2_sat (.finishRecovery user challenge ht5 hrec hauth) fun _ _ _ hfin hid hs =>
    .migrateKey _ _ _ _ hid hs fun _ => hfin).bind fun _ _ _ _ => TrySat.pure trivial

theorem migrateRecoveryRoute_sat {c : Credentials} {packet : RecoveryPacketV2} {key : String} :
    AccountSat (Transacts K (.migrateRecovery A c packet key)) (fun _ _ => True)
      (migrateRecoveryRoute K A c packet key) tr := by
  refine (authenticated_sat fun _ t => .deleteToken t rfl).bind fun tr1 session _ _ => ?_
  split
  · exact TrySat.throw
  refine getRecoveryRecord_sat.bind fun _ _ _ _ => ?_
  split
  · exact TrySat.throw
  · exact (migrateRecoveryV1_sat fun _ => .migrateRecovery _ _ _).bind fun _ _ _ _ => TrySat.pure trivial

theorem rotateRecoveryRoute_sat {c : Credentials} {packet : RecoveryPacketV2} {key : String} :
    AccountSat (Transacts K (.rotateRecovery A c packet key)) (fun _ _ => True)
      (rotateRecoveryRoute K A c packet key) tr := by
  refine (authenticated_sat fun _ t => .deleteToken t rfl).bind fun tr1 session _ _ => ?_
  split
  · exact TrySat.throw
  refine read_sat.bind fun _ _ _ _ => getRecoveryRecord_sat.bind fun _ _ _ _ => ?_
  split
  · split
    · exact TrySat.throw
    · exact (rotateRecoveryV2_sat (.rotateRecovery _ _ _ _)).bind fun _ _ _ _ => TrySat.pure trivial
  · exact TrySat.throw

end

/-! ## Calls -/

def AccountCall.guar (K : Crypto) (c : AccountCall) : AccountTrace → Step Db (Access AccountStmt) → Prop :=
  Guar AccountStmt.exec (Transacts K c)

theorem AccountCall.sat (F : Formats) (K : Crypto) (c : AccountCall) :
    Sat (c.guar K) (Returns fun _ _ => True) (c.code F K) [] := by
  cases c with
  | registerStart => exact registerStart_sat
  | registerFinish => exact registerFinish_sat
  | mobileRegisterFinish => exact mobileRegisterFinish_sat
  | loginStart => exact loginStart_sat
  | loginFinish => exact loginFinish_sat
  | logout => exact logout_sat
  | postDevices => exact postDevices_sat
  | approve => exact approveRoute_sat
  | reject => exact rejectRoute_sat
  | revoke => exact revokeRoute_sat
  | getDeviceKey => exact getDeviceKeyRoute_sat
  | shareKey => exact shareKeyRoute_sat
  | recoveryStart => exact recoveryStart_sat
  | recoveryFinish => exact recoveryFinish_sat nofun
  | migrateRecovery => exact migrateRecoveryRoute_sat
  | rotateRecovery => exact rotateRecoveryRoute_sat

end ZeroVault

import ZeroVault.AccountRequests

/-!
# The account paths of the D1 store

One program for each method of the store. Every read is its own access, every
`run` and every `batch` one transaction.
-/

namespace ZeroVault

open Lib

inductive AccountError
  | userExists
  | authEpochChanged
  | deviceIdConflict
  | deviceNotFound
  | deviceApprovalNotCommitted
  | recoveryPacketNotFound
  | recoveryV2RotationRequired
  | recoveryV1MigrationNotCommitted
  | recoveryStateChanged
  | invalidRecoveryAuthorization
  | recoveryCommitNotCommitted
  | databaseError
  | badRequest (error : String)
deriving DecidableEq, Repr

abbrev AccountProg := TryProg Db (Access AccountStmt) AccountError

def read {α : Type} (g : Db → α) : AccountProg α := TryProg.read g

/-- `none` when the batch was rolled back. -/
def tryBatch (stmts : List AccountStmt) : AccountProg (Option (List Nat)) :=
  TryProg.transact AccountStmt.exec AccountStmt.changes stmts

def accountBatch (stmts : List AccountStmt) : AccountProg (List Nat) := do
  let result ← tryBatch stmts
  match result with
  | some changes => pure changes
  | none => TryProg.throw .databaseError

def runStmt (q : AccountStmt) : AccountProg Nat := do
  let changes ← accountBatch [q]
  pure (changes.headD 0)

/-- Clock readings and random values, by the place that asks. -/
structure Ambient where
  now : String → Instant
  random : String → String

abbrev StoredUser := UserId × UserRow

/-! ## Users -/

def findUserByEmail (email : String) : AccountProg (Option StoredUser) :=
  read fun db => (db.users.select fun _ u => u.email = email).head?

def findUserByRecoveryEmail (email : String) : AccountProg (Option StoredUser) :=
  read fun db => (db.users.select fun _ u => lower u.email = lower email).head?

def getUser (userId : UserId) : AccountProg (Option UserRow) := read fun db => db.users.get? userId

def createUser (A : Ambient) (request : RegisterFinishRequest) : AccountProg StoredUser := do
  let existing ← findUserByEmail request.email
  if existing.isSome then TryProg.throw .userExists
  else
    let row : UserRow := ⟨request.email, request.registrationRecord, request.publicKeyBundle,
      .v1 request.encryptedRecoveryPacket, 0, 0⟩
    let _ ← runStmt (.users (.insert (A.random "userId") row))
    pure (A.random "userId", row)

/-- The rows of a mobile account's first transaction. -/
def mobileAccountStmts (A : Ambient) (request : MobileRegisterFinishRequest) (device : TrustedDevice)
    (deviceCredentialHash tokenHash csrfToken : String) (expiresAt : Instant) : List AccountStmt :=
  let userId := A.random "userId"
  [.users (.insert userId ⟨request.email, request.registrationRecord, request.publicKeyBundle,
      .v2 request.encryptedRecoveryPacket, 0, 0⟩),
    .packets (.insert userId ⟨.v2 request.encryptedRecoveryPacket, 2, some request.recoverySigningPublicKey, 0⟩),
    .devices (.insert device.id ⟨userId, device.name, device.fingerprint, device.publicKey, .approved,
      some deviceCredentialHash, device.createdAt, device.updatedAt, device.lastSeenIp, device.lastSeenLocation⟩),
    .vaultKeys (.insert userId device.id request.device.encryptedVaultKeyPacket),
    .sessions (.insert (A.random "sessionId") ⟨userId, tokenHash, csrfToken, some device.id, 0, expiresAt,
      A.now "ts"⟩)]

def createMobileAccount (A : Ambient) (request : MobileRegisterFinishRequest) (device : TrustedDevice)
    (deviceCredentialHash tokenHash csrfToken : String) (expiresAt : Instant) : AccountProg UserId := do
  let existing ← findUserByEmail request.email
  if existing.isSome then TryProg.throw .userExists
  else
    let existingDeviceId ← read fun db => db.trustedDevices.get? device.id
    if existingDeviceId.isSome then TryProg.throw .deviceIdConflict
    else
      let _ ← accountBatch (mobileAccountStmts A request device deviceCredentialHash tokenHash csrfToken expiresAt)
      pure (A.random "userId")

/-! ## Registration and login sessions -/

def createRegistrationSession (A : Ambient) (row : RegistrationSessionRow) : AccountProg String := do
  let _ ← runStmt (.registrations (.insert (A.random "registrationSessionId") row))
  pure (A.random "registrationSessionId")

def getRegistrationSession (A : Ambient) (id : String) : AccountProg (Option RegistrationSessionRow) := do
  let row ← read fun db => db.registrationSessions.get? id
  pure (row.filter fun r => A.now "getRegistrationSession" < r.expiresAt)

def consumeRegistrationSession (A : Ambient) (id : String) : AccountProg (Option RegistrationSessionRow) := do
  let session ← getRegistrationSession A id
  match session with
  | none => pure none
  | some session =>
    let changes ← runStmt (.registrations (.delete id))
    if changes ≠ 1 then pure none else pure (some session)

def createLoginSession (A : Ambient) (row : LoginSessionRow) : AccountProg String := do
  let changes ← runStmt (.logins (.insertAtEpoch (A.random "loginSessionId") row))
  if changes ≠ 1 then TryProg.throw .authEpochChanged else pure (A.random "loginSessionId")

def consumeLoginSession (A : Ambient) (id : String) : AccountProg (Option LoginSessionRow) := do
  let row ← read fun db => db.loginSessions.get? id
  match row with
  | none => pure none
  | some row =>
    let changes ← runStmt (.logins (.delete id))
    if changes ≠ 1 then pure none
    else if row.expiresAt ≤ A.now "consumeLoginSession" then pure none
    else pure (some row)

def createFakeLoginSession (A : Ambient) (row : FakeLoginSessionRow) : AccountProg String := do
  let _ ← runStmt (.fakeLogins (.insert (A.random "loginSessionId") row))
  pure (A.random "loginSessionId")

def consumeFakeLoginSession (A : Ambient) (id : String) : AccountProg (Option FakeLoginSessionRow) := do
  let row ← read fun db => db.fakeLoginSessions.get? id
  match row with
  | none => pure none
  | some row =>
    let changes ← runStmt (.fakeLogins (.delete id))
    if changes ≠ 1 then pure none
    else if row.expiresAt ≤ A.now "consumeFakeLoginSession" then pure none
    else pure (some row)

/-! ## Bearer sessions -/

def createSession (A : Ambient) (row : SessionRow) : AccountProg Unit := do
  let changes ← runStmt (.sessions (.insertAtEpoch (A.random "sessionId") row))
  if changes ≠ 1 then TryProg.throw .authEpochChanged else pure ()

def sessionByTokenHash (tokenHash : String) (db : Db) : Option (String × SessionRow) :=
  (db.sessions.select fun _ s =>
    s.tokenHash = tokenHash && (db.users.get? s.userId).any (·.authEpoch = s.authEpoch)).head?

def findSessionByTokenHash (A : Ambient) (tokenHash : String) : AccountProg (Option (String × SessionRow)) := do
  let row ← read (sessionByTokenHash tokenHash)
  pure (row.filter fun r => A.now "findSessionByTokenHash" < r.2.expiresAt)

def rotateStmts (id : String) (deviceId : DeviceId) (row : SessionRow) : List AccountStmt :=
  [.sessions (.insertForDevice id deviceId row),
    .sessions (.deleteReplaced row.userId deviceId id row.authEpoch)]

def rotateDeviceSession (A : Ambient) (deviceId : DeviceId) (row : SessionRow) : AccountProg Unit := do
  let id := A.random "sessionId"
  let _ ← accountBatch (rotateStmts id deviceId row)
  let inserted ← findSessionByTokenHash A row.tokenHash
  if inserted.all (·.1 ≠ id) then TryProg.throw .authEpochChanged else pure ()

def deleteSession (tokenHash : String) : AccountProg Unit := do
  let _ ← runStmt (.sessions (.deleteByToken tokenHash))
  pure ()

/-! ## Trusted devices -/

def rowToDevice (id : DeviceId) (row : TrustedDeviceRow) : TrustedDevice :=
  ⟨id, row.name, row.fingerprint, row.publicKey, row.status, row.createdAt, row.updatedAt, row.lastSeenIp,
    row.lastSeenLocation⟩

def deviceOf (userId : UserId) (deviceId : DeviceId) (db : Db) : Option TrustedDeviceRow :=
  (db.trustedDevices.get? deviceId).filter (·.userId = userId)

def getDevice (userId : UserId) (deviceId : DeviceId) : AccountProg (Option TrustedDevice) :=
  read fun db => (deviceOf userId deviceId db).map (rowToDevice deviceId)

def getDeviceOwnerUserId (deviceId : DeviceId) : AccountProg (Option UserId) :=
  read fun db => (db.trustedDevices.get? deviceId).map (·.userId)

def authenticateDevice (userId : UserId) (device : MobileDeviceLogin) (credentialHash : String) :
    AccountProg (Option TrustedDevice) :=
  read fun db => ((deviceOf userId device.id db).filter fun d =>
    d.credentialHash = some credentialHash && d.fingerprint = some device.fingerprint &&
      d.publicKey = device.publicKey).map (rowToDevice device.id)

def DeviceStatus.rank : DeviceStatus → Nat
  | approved => 0
  | pending => 1
  | revoked => 2
  | rejected => 3

/-- Rows with one key stand for one installation. -/
inductive DedupeKey
  | fp (fingerprint : String)
  | legacy (name : String) (minute : Nat)
deriving DecidableEq, Repr

def TrustedDevice.dedupeKey (d : TrustedDevice) : DedupeKey :=
  match d.fingerprint with
  | some f => if f = "" then .legacy d.name (d.createdAt / 60000) else .fp f
  | none => .legacy d.name (d.createdAt / 60000)

def TrustedDevice.supersedes (current previous : TrustedDevice) : Bool :=
  current.status.rank < previous.status.rank ||
    (current.status.rank = previous.status.rank && current.updatedAt > previous.updatedAt)

def dedupe (byPublicKey : Table DedupeKey TrustedDevice) (device : TrustedDevice) : Table DedupeKey TrustedDevice :=
  match byPublicKey.get? device.dedupeKey with
  | none => byPublicKey.set device.dedupeKey device
  | some previous =>
    if device.supersedes previous then byPublicKey.set device.dedupeKey device else byPublicKey

/-- The devices of a user, one for each installation; the routes only look one
up by its id, so the order of the answer is left out. -/
def devicesOf (userId : UserId) (db : Db) : List TrustedDevice :=
  let devices := (db.trustedDevices.select fun _ d => d.userId = userId).map fun r => rowToDevice r.1 r.2
  ((devices.foldl dedupe ∅).rows).map Prod.snd

def listDevices (userId : UserId) : AccountProg (List TrustedDevice) := read (devicesOf userId)

/-- `ORDER BY` of the search for an existing registration. -/
def existingBefore (fingerprint : Option String) (a b : DeviceId × TrustedDeviceRow) : Bool :=
  let rank (r : DeviceId × TrustedDeviceRow) : Nat :=
    if r.2.fingerprint.isSome && r.2.fingerprint = fingerprint then 0 else 1
  rank a < rank b || (rank a = rank b &&
    (a.2.status.rank < b.2.status.rank ||
      (a.2.status.rank = b.2.status.rank && a.2.updatedAt > b.2.updatedAt)))

def existingDevice (userId : UserId) (device : TrustedDevice) (db : Db) : Option (DeviceId × TrustedDeviceRow) :=
  (db.trustedDevices.select fun _ d =>
    d.userId = userId && sameDevice device.publicKey device.fingerprint d).foldl
    (fun best r => if best.all (existingBefore device.fingerprint r) then some r else best) none

def assertExpectedEpoch (userId : UserId) (expectedAuthEpoch : Option Nat) : AccountProg Unit :=
  match expectedAuthEpoch with
  | none => pure ()
  | some epoch => do
    let current ← getUser userId
    if current.all (·.authEpoch ≠ epoch) then TryProg.throw .authEpochChanged else pure ()

/-- A native installation takes the place of the row it reuses. -/
def replaceDeviceStmts (A : Ambient) (userId : UserId) (existingId : DeviceId) (device : TrustedDevice)
    (credentialHash : String) (epoch : Option Nat) : List AccountStmt :=
  [.sessions (.deleteOfDevice userId existingId (.atEpoch epoch)),
    .vaultKeys (.delete userId existingId (.atEpoch epoch)),
    .devices (.delete userId existingId epoch),
    .devices (.insertAtEpoch device.id ⟨userId, device.name, device.fingerprint, device.publicKey, .pending,
      some credentialHash, device.createdAt, A.now "ts", device.lastSeenIp, device.lastSeenLocation⟩ epoch)]

def updateDeviceStmts (A : Ambient) (userId : UserId) (existingId : DeviceId) (device : TrustedDevice)
    (nextStatus : DeviceStatus) (credentialHash : Option String) (epoch : Option Nat) (reset : Bool) :
    List AccountStmt :=
  [.devices (.deleteDuplicates userId existingId device.publicKey device.fingerprint epoch),
    .devices (.update userId existingId device nextStatus credentialHash epoch (A.now "ts"))] ++
  if reset then
    [.sessions (.deleteOfDevice userId existingId (.atEpoch epoch)),
      .vaultKeys (.delete userId existingId (.atEpoch epoch))]
  else []

def insertDeviceStmt (userId : UserId) (device : TrustedDevice) (credentialHash : Option String)
    (epoch : Option Nat) : AccountStmt :=
  .devices (.insertAtEpoch device.id ⟨userId, device.name, device.fingerprint, device.publicKey, device.status,
    credentialHash, device.createdAt, device.updatedAt, device.lastSeenIp, device.lastSeenLocation⟩ epoch)

def registeredDevice (userId : UserId) (deviceId : DeviceId) (epoch : Option Nat) : AccountProg TrustedDevice := do
  assertExpectedEpoch userId epoch
  let registered ← getDevice userId deviceId
  match registered with
  | none => TryProg.throw .authEpochChanged
  | some registered => pure registered

def registerDevice (A : Ambient) (userId : UserId) (device : TrustedDevice) (credentialHash : Option String)
    (expectedAuthEpoch : Option Nat) : AccountProg TrustedDevice := do
  assertExpectedEpoch userId expectedAuthEpoch
  let idOwner ← getDeviceOwnerUserId device.id
  if idOwner.any (· ≠ userId) then TryProg.throw .deviceIdConflict
  else
    let existing ← read (existingDevice userId device)
    match existing, credentialHash with
    | none, _ =>
      let changes ← runStmt (insertDeviceStmt userId device credentialHash expectedAuthEpoch)
      if changes ≠ 1 then TryProg.throw .authEpochChanged
      else
        assertExpectedEpoch userId expectedAuthEpoch
        pure device
    | some (existingId, row), credentialHash =>
      let keyChanged := row.publicKey ≠ device.publicKey
      -- A registration with a credential is a new installation.
      let mobileReset := credentialHash.isSome
      if mobileReset && existingId ≠ device.id then
        let _ ← accountBatch (replaceDeviceStmts A userId existingId device (credentialHash.getD "") expectedAuthEpoch)
        registeredDevice userId device.id expectedAuthEpoch
      else
        let nextStatus := if mobileReset || keyChanged then DeviceStatus.pending else row.status
        let _ ← accountBatch (updateDeviceStmts A userId existingId device nextStatus credentialHash
          expectedAuthEpoch (mobileReset || keyChanged))
        registeredDevice userId existingId expectedAuthEpoch

/-- The transaction of a rejection or a revocation. -/
def withdrawStmts (A : Ambient) (userId : UserId) (deviceId : DeviceId) (status : DeviceStatus) : List AccountStmt :=
  [.devices (.setStatus userId deviceId status (A.now "ts")),
    .sessions (.deleteOfDevice userId deviceId .always),
    .vaultKeys (.delete userId deviceId .always)]

def withdrawDevice (A : Ambient) (userId : UserId) (deviceId : DeviceId) (status : DeviceStatus) :
    AccountProg Unit := do
  let device ← getDevice userId deviceId
  if device.isNone then TryProg.throw .deviceNotFound
  else
    let _ ← accountBatch (withdrawStmts A userId deviceId status)
    pure ()

def rejectDevice (A : Ambient) (userId : UserId) (deviceId : DeviceId) : AccountProg Unit :=
  withdrawDevice A userId deviceId .rejected

def revokeDevice (A : Ambient) (userId : UserId) (deviceId : DeviceId) : AccountProg Unit :=
  withdrawDevice A userId deviceId .revoked

/-! ## Device vault keys -/

def saveDeviceVaultKey (userId : UserId) (deviceId : DeviceId) (packet : DeviceVaultKeyPacket) :
    AccountProg Unit := do
  let _ ← runStmt (.vaultKeys (.upsert userId deviceId packet))
  pure ()

def VaultKeyBlob.parse (F : Formats) : VaultKeyBlob → Option DeviceVaultKeyPacket
  | packet p => if deviceVaultKeyPacketSchema F p then some p else none
  | raw _ => none

/-- The text that the legacy conversion reads; a structured packet is JSON,
which is no base64url. -/
def VaultKeyBlob.legacy (F : Formats) (device : TrustedDevice) : VaultKeyBlob → Option (String × DeviceVaultKeyPacket)
  | packet _ => none
  | raw value => (convertLegacyDeviceVaultKeyPacket F value device).map fun p => (value, p)

def storedVaultKey (userId : UserId) (deviceId : DeviceId) : AccountProg (Option VaultKeyBlob) :=
  read fun db => db.deviceVaultKeys.get? (userId, deviceId)

def getDeviceVaultKey (F : Formats) (userId : UserId) (deviceId : DeviceId) :
    AccountProg (Option DeviceVaultKeyPacket) := do
  let stored ← storedVaultKey userId deviceId
  match stored with
  | none => pure none
  | some stored =>
    match stored.parse F with
    | some packet => pure (some packet)
    | none =>
      let device ← getDevice userId deviceId
      match device with
      | none => pure none
      | some device =>
        match stored.legacy F device with
        | none => pure none
        | some (value, migrated) =>
          -- Compare-and-swap of the exact legacy value.
          let changes ← runStmt (.vaultKeys (.migrate userId deviceId value migrated))
          if changes = 1 then pure (some migrated)
          else
            let current ← storedVaultKey userId deviceId
            pure (current.bind (·.parse F))

def approveStmts (A : Ambient) (userId : UserId) (deviceId : DeviceId) (packet : DeviceVaultKeyPacket) :
    List AccountStmt :=
  [.vaultKeys (.insertIfPending userId deviceId packet),
    .devices (.approvePending userId deviceId packet (A.now "ts"))]

def approveDeviceWithVaultKey (F : Formats) (A : Ambient) (userId : UserId) (deviceId : DeviceId)
    (packet : DeviceVaultKeyPacket) : AccountProg Unit := do
  let _ ← accountBatch (approveStmts A userId deviceId packet)
  let device ← getDevice userId deviceId
  let storedPacket ← getDeviceVaultKey F userId deviceId
  if device.all (·.status ≠ .approved) ∨ storedPacket ≠ some packet then
    TryProg.throw .deviceApprovalNotCommitted
  else pure ()

/-! ## Recovery -/

structure RecoveryRecord where
  protocolVersion : Nat
  encryptedRecoveryPacket : StoredRecoveryPacket
  signingPublicKey : Option String
  generation : Nat
deriving DecidableEq, Repr

/-- A stored version-2 row counts only if its packet and key are well formed. -/
def RecoveryPacketRow.record (row : RecoveryPacketRow) : Option RecoveryRecord :=
  if row.protocolVersion = 2 then
    match row.encryptedRecoveryPacket, row.signingPublicKey with
    | .v2 packet, some key =>
      if recoveryPacketV2Schema packet && recoverySigningPublicKeySchema key then
        some ⟨2, .v2 packet, some key, row.generation⟩
      else none
    | _, _ => none
  else some ⟨1, row.encryptedRecoveryPacket, none, row.generation⟩

def getRecoveryRecord (userId : UserId) : AccountProg (Option RecoveryRecord) := do
  let row ← read fun db => db.recoveryPackets.get? userId
  match row with
  | some row => pure row.record
  | none =>
    let user ← getUser userId
    pure (user.map fun u => ⟨1, u.encryptedRecoveryPacket, none, 0⟩)

def createRecoveryChallenge (A : Ambient) (row : RecoveryChallengeRow) : AccountProg String := do
  let _ ← runStmt (.insertChallenge (A.random "recoveryAttemptId") row)
  pure (A.random "recoveryAttemptId")

def getRecoveryChallenge (id : String) : AccountProg (Option RecoveryChallengeRow) :=
  read fun db => db.recoveryChallenges.get? id

def migrateStmts (userId : UserId) (packet : RecoveryPacketV2) (key : String) : List AccountStmt :=
  [.packets (.migrate userId packet key), .users (.setPacketMigrated userId packet key)]

def migrateRecoveryV1 (userId : UserId) (packet : RecoveryPacketV2) (signingPublicKey : String) :
    AccountProg Unit := do
  let current ← getRecoveryRecord userId
  match current with
  | none => TryProg.throw .recoveryPacketNotFound
  | some current =>
    if current.protocolVersion = 2 then TryProg.throw .recoveryV2RotationRequired
    else
      let _ ← accountBatch (migrateStmts userId packet signingPublicKey)
      let migrated ← getRecoveryRecord userId
      if migrated.any fun m => m.protocolVersion = 2 && m.signingPublicKey = some signingPublicKey &&
          m.encryptedRecoveryPacket = .v2 packet then
        pure ()
      else TryProg.throw .recoveryV1MigrationNotCommitted

def rotateRecoveryStmts (user : StoredUser) (expectedGeneration : Nat) (packet : RecoveryPacketV2) (key : String) :
    List AccountStmt :=
  [.packets (.rotate user.1 expectedGeneration user.2.authEpoch packet key),
    .users (.setPacketRotated user.1 user.2.authEpoch (expectedGeneration + 1) packet key)]

def rotateRecoveryV2 (user : StoredUser) (expectedGeneration : Nat) (packet : RecoveryPacketV2)
    (signingPublicKey : String) : AccountProg Unit := do
  let changes ← accountBatch (rotateRecoveryStmts user expectedGeneration packet signingPublicKey)
  if changes.headD 0 ≠ 1 then TryProg.throw .recoveryStateChanged
  else
    let committedUser ← getUser user.1
    let committedRecord ← getRecoveryRecord user.1
    if committedUser.any (fun u =>
          u.authEpoch = user.2.authEpoch && u.encryptedRecoveryPacket = .v2 packet) &&
        committedRecord.any fun r => r.protocolVersion = 2 && r.generation = expectedGeneration + 1 &&
          r.signingPublicKey = some signingPublicKey && r.encryptedRecoveryPacket = .v2 packet then
      pure ()
    else TryProg.throw .recoveryStateChanged

/-- The eleven statements of a recovery. -/
def finishRecoveryStmts (A : Ambient) (user : StoredUser) (challengeId : String) (challenge : RecoveryChallengeRow)
    (request : RecoveryFinishUnsignedRequest) (deviceCredentialHash : String) : List AccountStmt :=
  let userId := user.1
  let now := A.now "finishRecoveryV2"
  [.claimRecovery ⟨challengeId, userId, now, user.2.authEpoch, challenge.recoveryGeneration,
      request.registrationSessionId, request.email, request.device.id⟩,
    .registrations (.deleteFor request.registrationSessionId request.email),
    .users (.recover userId user.2.authEpoch request.registrationRecord request.newEncryptedRecoveryPacket),
    .packets (.finish userId (challenge.recoveryGeneration.getD 0) request.newEncryptedRecoveryPacket
      request.newRecoverySigningPublicKey),
    .sessions (.deleteOf userId),
    .logins (.deleteOf userId),
    .registrations (.deleteAll request.email),
    .vaultKeys (.deleteOf userId),
    .devices (.revokeAll userId now),
    .devices (.install request.device.id ⟨userId, request.device.name, some request.device.fingerprint,
      request.device.publicKey, .approved, some deviceCredentialHash, now, now, none, none⟩),
    .vaultKeys (.upsert userId request.device.id request.device.encryptedVaultKeyPacket)]

/-- Which error a rolled-back recovery is reported as. -/
def finishAborted (A : Ambient) (user : StoredUser) (challengeId : String) (challenge : RecoveryChallengeRow)
    (request : RecoveryFinishUnsignedRequest) : AccountProg Unit := do
  let owner ← getDeviceOwnerUserId request.device.id
  if owner.any (· ≠ user.1) then TryProg.throw .deviceIdConflict
  else
    let freshUser ← getUser user.1
    let freshRecord ← getRecoveryRecord user.1
    let freshChallenge ← getRecoveryChallenge challengeId
    let registration ← getRegistrationSession A request.registrationSessionId
    let claim ← read fun db => db.recoveryClaims.get? challengeId
    -- one of the claim's conditions fails by now; else the error is the database's
    if claim.isSome ∨ freshRecord.all (·.protocolVersion ≠ 2) ∨
        freshChallenge.all (·.expiresAt ≤ A.now "finishRecoveryV2Aborted") ∨ registration.isNone ∨
        freshUser.all (fun u => some u.authEpoch ≠ challenge.authEpoch) ∨
        freshRecord.all fun r => some r.generation ≠ challenge.recoveryGeneration then
      TryProg.throw .invalidRecoveryAuthorization
    else TryProg.throw .databaseError

def finishRecoveryV2 (F : Formats) (A : Ambient) (user : StoredUser) (challengeId : String)
    (challenge : RecoveryChallengeRow) (request : RecoveryFinishUnsignedRequest) (deviceCredentialHash : String) :
    AccountProg Unit := do
  let committed ← tryBatch (finishRecoveryStmts A user challengeId challenge request deviceCredentialHash)
  if committed.isNone then finishAborted A user challengeId challenge request
  else
    -- reads back what the transaction is to have left
    let committedUser ← getUser user.1
    let committedRecord ← getRecoveryRecord user.1
    let committedDevice ← getDevice user.1 request.device.id
    let committedPacket ← getDeviceVaultKey F user.1 request.device.id
    if committedUser.any (·.authEpoch = user.2.authEpoch + 1) &&
        committedRecord.any (fun r => r.protocolVersion = 2 &&
          (r.generation : Int) = (challenge.recoveryGeneration.map (Int.ofNat ·)).getD (-1) + 1) &&
        committedDevice.any (·.status = .approved) &&
        committedPacket = some request.device.encryptedVaultKeyPacket then
      pure ()
    else TryProg.throw .recoveryCommitNotCommitted

end ZeroVault

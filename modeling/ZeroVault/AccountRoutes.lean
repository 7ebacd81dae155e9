import ZeroVault.AccountStore

/-!
# The account routes of the Worker

Registration, login, devices and recovery, from the session lookup to the
store's last access. Cryptography and the OPAQUE library are a parameter.
-/

namespace ZeroVault

open Lib

structure Crypto where
  hashToken : String → String
  publicKeyFingerprint : String → Option String
  /-- `verifyEd25519 publicKey signature transcript`. -/
  verifyEd25519 : String → String → Transcript → Bool
  /-- `none` where the library throws. -/
  createRegistrationResponse : String → String → Option String
  /-- The server state of a login, from the record, the request and the user. -/
  startLogin : Option String → String → String → String
  /-- Does the login of a server state finish with this request and user? -/
  finishLogin : String → String → String → Bool
  dummyMaterial : String → RecoveryPacketV2 × String

def SESSION_DAYS : Nat := 14
def OPAQUE_SESSION_MINUTES : Nat := 10
def RECOVERY_CHALLENGE_MINUTES : Nat := 10

def opaqueExpiry (A : Ambient) : Instant := A.now "opaqueExpiry" + OPAQUE_SESSION_MINUTES * 60000
def sessionDaysFromNow (A : Ambient) : Instant := A.now "sessionDaysFromNow" + SESSION_DAYS * 86400000
def challengeExpiry (A : Ambient) (place : String) : Instant := A.now place + RECOVERY_CHALLENGE_MINUTES * 60000

/-! ## Sessions -/

inductive AuthTransport
  | cookie
  | bearer
deriving DecidableEq, Repr

structure Credentials where
  token : String
  authTransport : AuthTransport
deriving DecidableEq, Repr

structure SessionData where
  id : String
  row : SessionRow
  authTransport : AuthTransport
  deviceStatus : Option DeviceStatus
deriving DecidableEq, Repr

def sessionRow (tokenHash : String) (db : Db) : Option ((String × SessionRow) × Option DeviceStatus) :=
  (sessionByTokenHash tokenHash db).map fun r =>
    (r, r.2.deviceId.bind fun d => (deviceOf r.2.userId d db).map (·.status))

/-- Bearer sessions need a live device; a bound cookie session needs it too. -/
def deviceLive (transport : AuthTransport) (row : SessionRow) (status : Option DeviceStatus) : Bool :=
  match transport, row.deviceId with
  | .bearer, none => false
  | .cookie, none => true
  | _, some _ => status.any (·.active)

def sessionMiddleware (K : Crypto) (A : Ambient) (c : Credentials) : AccountProg (Option SessionData) := do
  let tokenHash := K.hashToken c.token
  let found ← read (sessionRow tokenHash)
  match found with
  | none => pure none
  | some ((id, row), status) =>
    if row.expiresAt < A.now "sessionMiddleware" then
      let _ ← runStmt (.sessions (.deleteByToken tokenHash))
      pure none
    else if !deviceLive c.authTransport row status then pure none
    else pure (some ⟨id, row, c.authTransport, status⟩)

def authenticated (K : Crypto) (A : Ambient) (c : Credentials) : AccountProg SessionData := do
  let session ← sessionMiddleware K A c
  match session with
  | none => TryProg.throw (.badRequest "not_authenticated")
  | some session =>
    if session.row.deviceId.isSome && session.deviceStatus = some .pending then
      TryProg.throw (.badRequest "device_approval_required")
    else pure session

def SessionData.userId (session : SessionData) : UserId := session.row.userId

def isLegacyDesktopSession (session : SessionData) : Bool :=
  session.authTransport = .cookie && session.row.deviceId.isNone

inductive AccountResult
  | ok
  | created (id : String)
  | loggedIn (tokenHash : String) (device : Option (DeviceId × DeviceStatus))
  | device (device : TrustedDevice)
  | key (packet : DeviceVaultKeyPacket)
  | recoveryAttempt (id challenge registrationSessionId : String) (packet : StoredRecoveryPacket) (key : String)
deriving DecidableEq, Repr

/-! ## Registration -/

def registerStart (F : Formats) (K : Crypto) (A : Ambient) (email registrationRequest : String) :
    AccountProg AccountResult := do
  if !F.email email then TryProg.throw (.badRequest "invalid_register_start_request")
  else
    let existing ← findUserByEmail email
    if existing.isSome then TryProg.throw .userExists
    else
      match K.createRegistrationResponse email registrationRequest with
      | none => TryProg.throw (.badRequest "opaque_unavailable")
      | some response =>
        let id ← createRegistrationSession A ⟨email, response, opaqueExpiry A⟩
        pure (.created id)

/-- The one-time registration session of a finish request. -/
def registrationSessionFor (A : Ambient) (id email : String) : AccountProg Unit := do
  let session ← consumeRegistrationSession A id
  if session.all fun s => s.email ≠ email || s.expiresAt < A.now "registrationSessionFor" then
    TryProg.throw (.badRequest "invalid_registration_session")
  else pure ()

def registerFinish (F : Formats) (A : Ambient) (request : RegisterFinishRequest) : AccountProg AccountResult := do
  if !registerFinishRequestSchema F request then TryProg.throw (.badRequest "invalid_register_finish_request")
  else
    registrationSessionFor A request.registrationSessionId request.email
    let existing ← findUserByEmail request.email
    if existing.isSome then TryProg.throw .userExists
    else
      let user ← createUser A request
      pure (.created user.1)

structure ClientInfo where
  ip : Option String
  location : Option String
deriving DecidableEq, Repr

/-- A device of a registration or login, as it is handed to the store. -/
def MobileDeviceLogin.trusted (d : MobileDeviceLogin) (status : DeviceStatus) (now : Instant) (client : ClientInfo) :
    TrustedDevice :=
  ⟨d.id, d.name, some d.fingerprint, d.publicKey, status, now, now, client.ip, client.location⟩

def mobileRegisterFinish (F : Formats) (K : Crypto) (A : Ambient) (client : ClientInfo)
    (request : MobileRegisterFinishRequest) : AccountProg AccountResult := do
  if !mobileRegisterFinishRequestSchema F request then TryProg.throw (.badRequest "invalid_register_finish_request")
  else
    registrationSessionFor A request.registrationSessionId request.email
    let existing ← findUserByEmail request.email
    if existing.isSome then TryProg.throw .userExists
    else
      let tokenHash := K.hashToken (A.random "sessionToken")
      let _ ← createMobileAccount A request
        (request.device.toMobileDeviceLogin.trusted .approved (A.now "mobileRegisterFinish") client)
        (K.hashToken request.device.credential) tokenHash (A.random "csrfToken") (sessionDaysFromNow A)
      pure (.loggedIn tokenHash (some (request.device.id, .approved)))

/-! ## Login -/

def loginStart (F : Formats) (K : Crypto) (A : Ambient) (email startLoginRequest : String) :
    AccountProg AccountResult := do
  if !F.email email || !base64UrlSchema startLoginRequest then
    TryProg.throw (.badRequest "invalid_login_start_request")
  else
    let normalizedEmail := String.ofList (email.toList.map Char.toLower)
    let user ← findUserByEmail email
    match user with
    | some user =>
      let state := K.startLogin (some user.2.opaqueRegistrationRecord) startLoginRequest user.2.email
      let id ← (createLoginSession A ⟨user.1, state, user.2.authEpoch, opaqueExpiry A⟩).mapError fun e =>
        if e = .authEpochChanged then .badRequest "invalid_login_session" else e
      pure (.created id)
    -- an unknown email gets a login that no password finishes
    | none =>
      let state := K.startLogin none startLoginRequest normalizedEmail
      let id ← createFakeLoginSession A ⟨normalizedEmail, state, opaqueExpiry A⟩
      pure (.created id)

inductive LoginPath
  | login
  | mobile
  | extension
  | web
deriving DecidableEq, Repr

/-- The device a mobile, extension or web login is bound to: a known device
proves its credential, an unknown one is registered under the login's epoch. -/
def loginDevice (K : Crypto) (A : Ambient) (client : ClientInfo) (path : LoginPath) (user : StoredUser)
    (input : MobileDeviceLogin) : AccountProg (DeviceId × DeviceStatus) := do
  if path = .extension ∧ K.publicKeyFingerprint input.publicKey ≠ some input.fingerprint then
    TryProg.throw (.badRequest "invalid_device_fingerprint")
  else
    let knownDevice ← getDevice user.1 input.id
    if knownDevice.isSome then
      let device ← authenticateDevice user.1 input (K.hashToken input.credential)
      match device with
      | none => TryProg.throw (.badRequest "invalid_device_credential")
      | some device =>
        if !device.status.active then TryProg.throw (.badRequest "device_not_trusted")
        else pure (device.id, device.status)
    else
      let device ← (registerDevice A user.1 (input.trusted .pending (A.now "loginDevice") client)
        (some (K.hashToken input.credential)) (some user.2.authEpoch)).mapError fun e =>
          if e = .deviceIdConflict then .badRequest "invalid_device_credential"
          else if e = .authEpochChanged then .badRequest "invalid_login_session" else e
      pure (device.id, .pending)

def loginUser (K : Crypto) (A : Ambient) (loginSessionId finishLoginRequest : String) : AccountProg StoredUser := do
  let loginSession ← consumeLoginSession A loginSessionId
  match loginSession with
  | none =>
    -- the login of an unknown email is used up like any other
    let fake ← consumeFakeLoginSession A loginSessionId
    TryProg.throw (.badRequest (if fake.isNone then "invalid_login_session" else "invalid_credentials"))
  | some loginSession =>
    if loginSession.expiresAt < A.now "loginUser" then TryProg.throw (.badRequest "invalid_login_session")
    else
      let user ← getUser loginSession.userId
      match user with
      | none => TryProg.throw (.badRequest "invalid_credentials")
      | some user =>
        if loginSession.authEpoch ≠ user.authEpoch then TryProg.throw (.badRequest "invalid_login_session")
        else if !K.finishLogin loginSession.serverLoginState finishLoginRequest user.email then
          TryProg.throw (.badRequest "invalid_credentials")
        else pure (loginSession.userId, user)

/-- `device` is the body's device; the plain login has none. -/
def loginFinish (F : Formats) (K : Crypto) (A : Ambient) (client : ClientInfo) (path : LoginPath)
    (loginSessionId finishLoginRequest : String) (device : MobileDeviceLogin) : AccountProg AccountResult := do
  let mobile := path ≠ .login
  if !F.uuid loginSessionId || !base64UrlSchema finishLoginRequest || (mobile && !mobileDeviceLoginSchema F device) then
    TryProg.throw (.badRequest "invalid_login_finish_request")
  else
    let user ← loginUser K A loginSessionId finishLoginRequest
    let tokenHash := K.hashToken (A.random "token")
    let sessionInput (deviceId : Option DeviceId) : SessionRow :=
      ⟨user.1, tokenHash, A.random "csrfToken", deviceId, user.2.authEpoch, sessionDaysFromNow A, A.now "session"⟩
    -- an epoch that has changed since the login began makes its session invalid
    let epochError (e : AccountError) : AccountError :=
      if e = .authEpochChanged then .badRequest "invalid_login_session" else e
    if mobile then
      let bound ← loginDevice K A client path user device
      (rotateDeviceSession A bound.1 (sessionInput (some bound.1))).mapError epochError
      pure (.loggedIn tokenHash (some bound))
    else
      (createSession A (sessionInput none)).mapError epochError
      pure (.loggedIn tokenHash none)

def logout (K : Crypto) (A : Ambient) (c : Credentials) : AccountProg AccountResult := do
  let session ← sessionMiddleware K A c
  match session with
  | none => TryProg.throw (.badRequest "not_authenticated")
  | some session =>
    deleteSession session.row.tokenHash
    pure .ok

/-! ## Devices -/

def postDevices (K : Crypto) (A : Ambient) (c : Credentials) (client : ClientInfo) (request : RegisterDeviceRequest) :
    AccountProg AccountResult := do
  let session ← authenticated K A c
  if !registerDeviceRequestSchema request then TryProg.throw (.badRequest "invalid_register_device_request")
  else
    let now := A.now "postDevices"
    let registered ← registerDevice A session.userId
      ⟨A.random "deviceId", request.name, request.fingerprint, request.publicKey, .pending, now, now, client.ip,
        client.location⟩ none none
    pure (.device registered)

def parseDeviceVaultKeyPacket (F : Formats) (body : DeviceVaultKeyRequest) (device : TrustedDevice) :
    Option DeviceVaultKeyPacket :=
  match body with
  | .packet p => if deviceVaultKeyPacketSchema F p then some p else none
  | .legacyRaw value => if value = "" then none else convertLegacyDeviceVaultKeyPacket F value device
  | .empty | .invalid => none

/-- The packet of a request, if its session may send it and it is for the
device's key. -/
def vaultKeyPacketFor (F : Formats) (session : SessionData) (body : DeviceVaultKeyRequest) (device : TrustedDevice) :
    Except AccountError DeviceVaultKeyPacket :=
  match body, isLegacyDesktopSession session with
  | .legacyRaw _, false => .error (.badRequest "invalid_device_vault_key_packet")
  | body, _ =>
    match parseDeviceVaultKeyPacket F body device with
    | none => .error (.badRequest "invalid_device_vault_key_packet")
    | some packet =>
      if packet.recipientDeviceId ≠ device.id ∨ packet.recipientPublicKey ≠ device.publicKey then
        .error (.badRequest "vault_key_packet_recipient_mismatch")
      else .ok packet

def approveRoute (F : Formats) (K : Crypto) (A : Ambient) (c : Credentials) (deviceId : DeviceId)
    (body : DeviceVaultKeyRequest) : AccountProg AccountResult := do
  let session ← authenticated K A c
  if session.row.deviceId = some deviceId then TryProg.throw (.badRequest "device_cannot_self_approve")
  else
    let device ← getDevice session.userId deviceId
    match device with
    | none => TryProg.throw .deviceNotFound
    | some device =>
      -- The deprecated flow's empty marker changes nothing.
      if body = .empty then
        if !isLegacyDesktopSession session then TryProg.throw (.badRequest "invalid_device_vault_key_packet")
        else if !device.status.active then TryProg.throw (.badRequest "device_not_pending")
        else pure .ok
      else
        match vaultKeyPacketFor F session body device with
        | .error e => TryProg.throw e
        | .ok packet =>
          if device.status = .approved then
            let existing ← getDeviceVaultKey F session.userId deviceId
            if existing = some packet then pure .ok else TryProg.throw (.badRequest "device_not_pending")
          else if device.status ≠ .pending then TryProg.throw (.badRequest "device_not_pending")
          else
            approveDeviceWithVaultKey F A session.userId deviceId packet
            pure .ok

def rejectRoute (K : Crypto) (A : Ambient) (c : Credentials) (deviceId : DeviceId) : AccountProg AccountResult := do
  let session ← authenticated K A c
  if session.row.deviceId = some deviceId then TryProg.throw (.badRequest "device_cannot_self_reject")
  else
    let device ← getDevice session.userId deviceId
    match device with
    | none => TryProg.throw .deviceNotFound
    | some device =>
      if device.status ≠ .pending then TryProg.throw (.badRequest "device_not_pending")
      else
        rejectDevice A session.userId deviceId
        pure .ok

def revokeRoute (K : Crypto) (A : Ambient) (c : Credentials) (deviceId : DeviceId) : AccountProg AccountResult := do
  let session ← authenticated K A c
  revokeDevice A session.userId deviceId
  pure .ok

def getDeviceKeyRoute (F : Formats) (K : Crypto) (A : Ambient) (c : Credentials) (deviceId : DeviceId) :
    AccountProg AccountResult := do
  let session ← authenticated K A c
  -- a bearer session reads the key of its own device only
  if session.authTransport = .bearer ∧ session.row.deviceId ≠ some deviceId then
    TryProg.throw (.badRequest "device_key_access_denied")
  else
    let devices ← listDevices session.userId
    match devices.find? (·.id = deviceId) with
    | none => TryProg.throw .deviceNotFound
    | some device =>
      if device.status ≠ .approved then TryProg.throw (.badRequest "device_not_approved")
      else
        let packet ← getDeviceVaultKey F session.userId deviceId
        match packet with
        | none => TryProg.throw (.badRequest "key_not_shared")
        | some packet => pure (.key packet)

def shareKeyRoute (F : Formats) (K : Crypto) (A : Ambient) (c : Credentials) (deviceId : DeviceId)
    (body : DeviceVaultKeyRequest) : AccountProg AccountResult := do
  let session ← authenticated K A c
  let devices ← listDevices session.userId
  match devices.find? (·.id = deviceId) with
  | none => TryProg.throw .deviceNotFound
  | some device =>
    if !device.status.active then TryProg.throw (.badRequest "device_not_eligible")
    else
      match vaultKeyPacketFor F session body device with
      | .error e => TryProg.throw e
      | .ok packet =>
        -- sharing the key with a pending device approves it
        if device.status = .pending then approveDeviceWithVaultKey F A session.userId deviceId packet
        else saveDeviceVaultKey session.userId deviceId packet
        pure .ok

/-! ## Recovery -/

def recoveryStart (F : Formats) (K : Crypto) (A : Ambient) (rawEmail registrationRequest : String) :
    AccountProg AccountResult := do
  let email := normalizeEmail rawEmail
  if !F.email email || !canonicalOpaqueMessageSchema registrationRequest then
    TryProg.throw (.badRequest "invalid_recovery_start_request")
  else
    let fakeMaterial := K.dummyMaterial email
    match K.createRegistrationResponse email registrationRequest with
    | none => TryProg.throw (.badRequest "invalid_recovery_start_request")
    | some response =>
      let registrationSessionId ← createRegistrationSession A
        ⟨email, response, challengeExpiry A "registrationSession"⟩
      let user ← findUserByRecoveryEmail email
      let record ← getRecoveryRecord ((user.map (·.1)).getD (A.random "noUser"))
      let known : Option (StoredUser × RecoveryRecord × String) := do
        let user ← user
        let record ← record
        let key ← record.signingPublicKey
        if record.protocolVersion = 2 then some (user, record, key) else none
      let challenge := A.random "challenge"
      let attempt ← createRecoveryChallenge A
        ⟨known.map (·.1.1), known.map (·.1.2.authEpoch), known.map (·.2.1.generation), challenge,
          registrationSessionId, challengeExpiry A "challenge"⟩
      -- an unknown account is answered with dummy material
      match known with
      | some (_, record, key) =>
        pure (.recoveryAttempt attempt challenge registrationSessionId record.encryptedRecoveryPacket key)
      | none =>
        pure (.recoveryAttempt attempt challenge registrationSessionId (.v2 fakeMaterial.1) fakeMaterial.2)

def DUMMY_ED25519_PUBLIC_KEY : String := "11qYAYKxCrfVS_7TyWQHOg7hcvPapiMlrwIaaPcHURo"

def RecoveryRecord.candidatePublicKey (record : Option RecoveryRecord) : String :=
  match record with
  | some ⟨2, _, some key, _⟩ => key
  | _ => DUMMY_ED25519_PUBLIC_KEY

/-- The checks of a finish on what it read; the signature's is one of them. -/
def recoveryAuthorized (A : Ambient) (request : RecoveryFinishUnsignedRequest) (signatureValid : Bool)
    (challenge : RecoveryChallengeRow) (user : StoredUser) (record : Option RecoveryRecord)
    (registration : Option RegistrationSessionRow) : Bool :=
  signatureValid && A.now "recoveryFinish" < challenge.expiresAt &&
    challenge.registrationSessionId = request.registrationSessionId &&
    normalizeEmail user.2.email = request.email && challenge.authEpoch = some user.2.authEpoch &&
    record.any (fun r => r.protocolVersion = 2 && r.signingPublicKey.isSome &&
      challenge.recoveryGeneration = some r.generation) &&
    registration.any fun r => normalizeEmail r.email = request.email

def recoveryFinish (F : Formats) (K : Crypto) (A : Ambient) (raw : RecoveryFinishUnsignedRequest)
    (signature : String) : AccountProg AccountResult := do
  let request := { raw with email := normalizeEmail raw.email }
  if !recoveryFinishRequestSchema F request signature then
    TryProg.throw (.badRequest "invalid_recovery_finish_request")
  else
    let challenge ← getRecoveryChallenge request.recoveryAttemptId
    let user ← read fun db =>
      (challenge.bind (·.userId)).bind fun userId => (db.users.get? userId).map fun u => (userId, u)
    let record ← match user with
      | some user => getRecoveryRecord user.1
      | none => pure none
    let registration ← getRegistrationSession A request.registrationSessionId
    match buildRecoveryFinishTranscript ((challenge.map (·.nonce)).getD (A.random "noChallenge")) request with
    | none => TryProg.throw .databaseError
    | some transcript =>
      -- for an unknown account a dummy key is checked, so that every answer takes its time
      let signatureValid := K.verifyEd25519 (RecoveryRecord.candidatePublicKey record) signature transcript
      match challenge, user with
      | some challenge, some user =>
        if !recoveryAuthorized A request signatureValid challenge user record registration then
          TryProg.throw .invalidRecoveryAuthorization
        else
          let owner ← getDeviceOwnerUserId request.device.id
          if owner.any (· ≠ user.1) then TryProg.throw .deviceIdConflict
          else
            finishRecoveryV2 F A user request.recoveryAttemptId challenge request
              (K.hashToken request.device.credential)
            pure .ok
      | _, _ => TryProg.throw .invalidRecoveryAuthorization

def migrateRecoveryRoute (K : Crypto) (A : Ambient) (c : Credentials) (packet : RecoveryPacketV2)
    (signingPublicKey : String) : AccountProg AccountResult := do
  let session ← authenticated K A c
  if !recoveryPacketV2Schema packet || !recoverySigningPublicKeySchema signingPublicKey then
    TryProg.throw (.badRequest "invalid_recovery_packet_request")
  else
    let record ← getRecoveryRecord session.userId
    if record.any (·.protocolVersion = 2) then TryProg.throw .recoveryV2RotationRequired
    else
      migrateRecoveryV1 session.userId packet signingPublicKey
      pure .ok

def rotateRecoveryRoute (K : Crypto) (A : Ambient) (c : Credentials) (packet : RecoveryPacketV2)
    (signingPublicKey : String) : AccountProg AccountResult := do
  let session ← authenticated K A c
  if !recoveryPacketV2Schema packet || !recoverySigningPublicKeySchema signingPublicKey then
    TryProg.throw (.badRequest "invalid_recovery_rotation_request")
  else
    let user ← getUser session.userId
    let record ← getRecoveryRecord session.userId
    match user, record with
    | some user, some record =>
      if record.protocolVersion ≠ 2 then TryProg.throw (.badRequest "recovery_v2_required")
      else
        rotateRecoveryV2 (session.userId, user) record.generation packet signingPublicKey
        pure .ok
    | _, _ => TryProg.throw (.badRequest "recovery_v2_required")

/-! ## Calls -/

inductive AccountCall
  | registerStart (A : Ambient) (email registrationRequest : String)
  | registerFinish (A : Ambient) (request : RegisterFinishRequest)
  | mobileRegisterFinish (A : Ambient) (client : ClientInfo) (request : MobileRegisterFinishRequest)
  | loginStart (A : Ambient) (email startLoginRequest : String)
  | loginFinish (A : Ambient) (client : ClientInfo) (path : LoginPath) (loginSessionId finishLoginRequest : String)
      (device : MobileDeviceLogin)
  | logout (A : Ambient) (c : Credentials)
  | postDevices (A : Ambient) (c : Credentials) (client : ClientInfo) (request : RegisterDeviceRequest)
  | approve (A : Ambient) (c : Credentials) (deviceId : DeviceId) (body : DeviceVaultKeyRequest)
  | reject (A : Ambient) (c : Credentials) (deviceId : DeviceId)
  | revoke (A : Ambient) (c : Credentials) (deviceId : DeviceId)
  | getDeviceKey (A : Ambient) (c : Credentials) (deviceId : DeviceId)
  | shareKey (A : Ambient) (c : Credentials) (deviceId : DeviceId) (body : DeviceVaultKeyRequest)
  | recoveryStart (A : Ambient) (email registrationRequest : String)
  | recoveryFinish (A : Ambient) (request : RecoveryFinishUnsignedRequest) (signature : String)
  | migrateRecovery (A : Ambient) (c : Credentials) (packet : RecoveryPacketV2) (signingPublicKey : String)
  | rotateRecovery (A : Ambient) (c : Credentials) (packet : RecoveryPacketV2) (signingPublicKey : String)

def AccountCall.code (F : Formats) (K : Crypto) : AccountCall → AccountProg AccountResult
  | registerStart A email request => ZeroVault.registerStart F K A email request
  | registerFinish A request => ZeroVault.registerFinish F A request
  | mobileRegisterFinish A client request => ZeroVault.mobileRegisterFinish F K A client request
  | loginStart A email request => ZeroVault.loginStart F K A email request
  | loginFinish A client path id request device => ZeroVault.loginFinish F K A client path id request device
  | logout A c => ZeroVault.logout K A c
  | postDevices A c client request => ZeroVault.postDevices K A c client request
  | approve A c deviceId body => approveRoute F K A c deviceId body
  | reject A c deviceId => rejectRoute K A c deviceId
  | revoke A c deviceId => revokeRoute K A c deviceId
  | getDeviceKey A c deviceId => getDeviceKeyRoute F K A c deviceId
  | shareKey A c deviceId body => shareKeyRoute F K A c deviceId body
  | recoveryStart A email request => ZeroVault.recoveryStart F K A email request
  | recoveryFinish A request signature => ZeroVault.recoveryFinish F K A request signature
  | migrateRecovery A c packet key => migrateRecoveryRoute K A c packet key
  | rotateRecovery A c packet key => rotateRecoveryRoute K A c packet key

end ZeroVault

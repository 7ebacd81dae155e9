import ZeroVault.Db
import ZeroVault.Interleave

/-!
# Statements of the account paths

Users, login and registration sessions, bearer sessions, recovery, trusted
devices and their vault-key packets. Statements are grouped by the table they
write; `none` is a violated constraint, which rolls the whole batch back.
-/

namespace ZeroVault

open Lib

/-- SQLite's `lower`. -/
def lower (text : String) : String := String.ofList (text.toList.map Char.toLower)

theorem toLower_toLower (c : Char) : c.toLower.toLower = c.toLower := by
  unfold Char.toLower
  split
  · rw [dif_neg]
    rintro ⟨hlow, hhigh⟩
    rename_i hupper
    simp only [ge_iff_le, UInt32.le_iff_toNat_le] at hlow hhigh hupper
    have hmoved : (c.val + ('a'.val - 'A'.val)).toNat = c.val.toNat + 32 := by
      rw [UInt32.toNat_add]
      have : ('a'.val - 'A'.val).toNat = 32 := rfl
      have : 'Z'.val.toNat = 90 := rfl
      omega
    have : 'A'.val.toNat = 65 := rfl
    have : 'Z'.val.toNat = 90 := rfl
    omega
  · rfl

def DeviceStatus.active : DeviceStatus → Bool
  | pending | approved => true
  | rejected | revoked => false

/-- `EXISTS (SELECT 1 FROM users u WHERE u.id = ? AND (? IS NULL OR u.auth_epoch = ?))`. -/
def epochHolds (db : Db) (userId : UserId) (epoch : Option Nat) : Bool :=
  (db.users.get? userId).any fun u => epoch.all (· = u.authEpoch)

inductive Guard
  | always
  | atEpoch (epoch : Option Nat)
deriving DecidableEq, Repr

def Guard.holds (db : Db) (userId : UserId) : Guard → Bool
  | always => true
  | atEpoch epoch => epochHolds db userId epoch

/-! ## Statements, by table -/

inductive UsersStmt
  | insert (id : UserId) (row : UserRow)
  | recover (id : UserId) (epoch : Nat) (record : String) (packet : RecoveryPacketV2)
  | setPacketMigrated (id : UserId) (packet : RecoveryPacketV2) (key : String)
  | setPacketRotated (id : UserId) (epoch generation : Nat) (packet : RecoveryPacketV2) (key : String)
deriving DecidableEq, Repr

def RecoveryPacketRow.holds (row : RecoveryPacketRow) (packet : RecoveryPacketV2) (key : String) : Bool :=
  row.protocolVersion = 2 && row.encryptedRecoveryPacket = .v2 packet && row.signingPublicKey = some key

def UsersStmt.exec (db : Db) : UsersStmt → Option (Table UserId UserRow)
  | insert id row => if db.users.any fun _ r => r.email = row.email then none else db.users.insert id row
  | recover id epoch record packet =>
    some (db.users.updateWhere (fun k r => k = id && r.authEpoch = epoch) fun r =>
      { r with
        opaqueRegistrationRecord := record
        encryptedRecoveryPacket := .v2 packet
        authEpoch := r.authEpoch + 1 })
  | setPacketMigrated id packet key =>
    some (db.users.updateWhere (fun k _ => k = id && (db.recoveryPackets.get? k).any (·.holds packet key)) fun r =>
      { r with encryptedRecoveryPacket := .v2 packet })
  | setPacketRotated id epoch generation packet key =>
    some (db.users.updateWhere
      (fun k r => k = id && r.authEpoch = epoch &&
        (db.recoveryPackets.get? k).any fun p => p.generation = generation && p.holds packet key)
      fun r => { r with encryptedRecoveryPacket := .v2 packet })

inductive RegistrationStmt
  | insert (id : String) (row : RegistrationSessionRow)
  | delete (id : String)
  | deleteFor (id : String) (email : String)
  | deleteAll (email : String)
deriving DecidableEq, Repr

def RegistrationStmt.exec (db : Db) : RegistrationStmt → Option (Table String RegistrationSessionRow)
  | insert id row => db.registrationSessions.insert id row
  | delete id => some (db.registrationSessions.erase id)
  | deleteFor id email =>
    some (db.registrationSessions.deleteWhere fun k r => k = id && lower r.email = lower email)
  | deleteAll email => some (db.registrationSessions.deleteWhere fun _ r => lower r.email = lower email)

inductive LoginStmt
  | insertAtEpoch (id : String) (row : LoginSessionRow)
  | delete (id : String)
  | deleteOf (userId : UserId)
deriving DecidableEq, Repr

def LoginStmt.exec (db : Db) : LoginStmt → Option (Table String LoginSessionRow)
  | insertAtEpoch id row =>
    if epochHolds db row.userId (some row.authEpoch) then db.loginSessions.insert id row else some db.loginSessions
  | delete id => some (db.loginSessions.erase id)
  | deleteOf userId => some (db.loginSessions.deleteWhere fun _ r => r.userId = userId)

inductive FakeLoginStmt
  | insert (id : String) (row : FakeLoginSessionRow)
  | delete (id : String)
deriving DecidableEq, Repr

def FakeLoginStmt.exec (db : Db) : FakeLoginStmt → Option (Table String FakeLoginSessionRow)
  | insert id row => db.fakeLoginSessions.insert id row
  | delete id => some (db.fakeLoginSessions.erase id)

inductive SessionStmt
  | insert (id : String) (row : SessionRow)
  | insertAtEpoch (id : String) (row : SessionRow)
  | insertForDevice (id : String) (deviceId : DeviceId) (row : SessionRow)
  | deleteReplaced (userId : UserId) (deviceId : DeviceId) (id : String) (epoch : Nat)
  | deleteByToken (tokenHash : String)
  | deleteOf (userId : UserId)
  | deleteOfDevice (userId : UserId) (deviceId : DeviceId) (guard : Guard)
deriving DecidableEq, Repr

/-- The unique token hash and the references to the user and the device. -/
def insertSession (db : Db) (id : String) (row : SessionRow) : Option (Table String SessionRow) :=
  if db.sessions.any (fun _ r => r.tokenHash = row.tokenHash) then none
  else if db.users.contains row.userId && row.deviceId.all (db.trustedDevices.contains ·) then
    db.sessions.insert id row
  else none

def SessionStmt.exec (db : Db) : SessionStmt → Option (Table String SessionRow)
  | insert id row => insertSession db id row
  | insertAtEpoch id row =>
    if epochHolds db row.userId (some row.authEpoch) then insertSession db id row else some db.sessions
  | insertForDevice id deviceId row =>
    if epochHolds db row.userId (some row.authEpoch) &&
        (db.trustedDevices.get? deviceId).any (fun d => d.userId = row.userId && d.status.active) then
      insertSession db id row
    else some db.sessions
  -- nothing is deleted unless the new session is there
  | deleteReplaced userId deviceId id epoch =>
    if (db.sessions.get? id).any fun r => r.userId = userId && r.deviceId = some deviceId && r.authEpoch = epoch then
      some (db.sessions.deleteWhere fun k r => r.userId = userId && r.deviceId = some deviceId && k ≠ id)
    else some db.sessions
  | deleteByToken tokenHash => some (db.sessions.deleteWhere fun _ r => r.tokenHash = tokenHash)
  | deleteOf userId => some (db.sessions.deleteWhere fun _ r => r.userId = userId)
  | deleteOfDevice userId deviceId guard =>
    some (db.sessions.deleteWhere fun _ r =>
      r.userId = userId && r.deviceId = some deviceId && guard.holds db userId)

inductive PacketStmt
  | insert (userId : UserId) (row : RecoveryPacketRow)
  | migrate (userId : UserId) (packet : RecoveryPacketV2) (key : String)
  | rotate (userId : UserId) (generation epoch : Nat) (packet : RecoveryPacketV2) (key : String)
  | finish (userId : UserId) (generation : Nat) (packet : RecoveryPacketV2) (key : String)
deriving DecidableEq, Repr

def RecoveryPacketRow.renew (row : RecoveryPacketRow) (packet : RecoveryPacketV2) (key : String) :
    RecoveryPacketRow where
  encryptedRecoveryPacket := .v2 packet
  protocolVersion := 2
  signingPublicKey := some key
  generation := row.generation + 1

def PacketStmt.exec (db : Db) : PacketStmt → Option (Table UserId RecoveryPacketRow)
  | insert userId row => if db.users.contains userId then db.recoveryPackets.insert userId row else none
  -- `ON CONFLICT(user_id) DO UPDATE`, but for a row of version 2
  | migrate userId packet key =>
    match db.recoveryPackets.get? userId with
    | none =>
      if db.users.contains userId then some (db.recoveryPackets.set userId ⟨.v2 packet, 2, some key, 1⟩) else none
    | some row =>
      if row.protocolVersion = 1 then some (db.recoveryPackets.set userId (row.renew packet key))
      else some db.recoveryPackets
  | rotate userId generation epoch packet key =>
    some (db.recoveryPackets.updateWhere
      (fun k r => k = userId && r.protocolVersion = 2 && r.generation = generation && epochHolds db k (some epoch))
      fun r => r.renew packet key)
  | finish userId generation packet key =>
    some (db.recoveryPackets.updateWhere
      (fun k r => k = userId && r.protocolVersion = 2 && r.generation = generation)
      fun r => r.renew packet key)

inductive VaultKeyStmt
  | insert (userId : UserId) (deviceId : DeviceId) (packet : DeviceVaultKeyPacket)
  | upsert (userId : UserId) (deviceId : DeviceId) (packet : DeviceVaultKeyPacket)
  | insertIfPending (userId : UserId) (deviceId : DeviceId) (packet : DeviceVaultKeyPacket)
  | migrate (userId : UserId) (deviceId : DeviceId) (stored : String) (packet : DeviceVaultKeyPacket)
  | deleteOf (userId : UserId)
  | delete (userId : UserId) (deviceId : DeviceId) (guard : Guard)
deriving DecidableEq, Repr

def VaultKeyStmt.exec (db : Db) : VaultKeyStmt → Option (Table (UserId × DeviceId) VaultKeyBlob)
  | insert userId deviceId packet => db.deviceVaultKeys.insert (userId, deviceId) (.packet packet)
  | upsert userId deviceId packet => some (db.deviceVaultKeys.set (userId, deviceId) (.packet packet))
  | insertIfPending userId deviceId packet =>
    if (db.trustedDevices.get? deviceId).any fun d =>
        d.userId = userId && d.status = .pending && d.publicKey = packet.recipientPublicKey then
      some (db.deviceVaultKeys.set (userId, deviceId) (.packet packet))
    else some db.deviceVaultKeys
  | migrate userId deviceId stored packet =>
    some (db.deviceVaultKeys.updateWhere (fun k v => k = (userId, deviceId) && v = .raw stored) fun _ =>
      .packet packet)
  | deleteOf userId => some (db.deviceVaultKeys.deleteWhere fun k _ => k.1 = userId)
  | delete userId deviceId guard =>
    some (db.deviceVaultKeys.deleteWhere fun k _ => k = (userId, deviceId) && guard.holds db userId)

structure TrustedDevice where
  id : DeviceId
  name : String
  fingerprint : Option String
  publicKey : String
  status : DeviceStatus
  createdAt : Instant
  updatedAt : Instant
  lastSeenIp : Option String
  lastSeenLocation : Option String
deriving DecidableEq, Repr

inductive DeviceStmt
  | insert (id : DeviceId) (row : TrustedDeviceRow)
  | insertAtEpoch (id : DeviceId) (row : TrustedDeviceRow) (epoch : Option Nat)
  | revokeAll (userId : UserId) (now : Instant)
  | install (id : DeviceId) (row : TrustedDeviceRow)
  | setStatus (userId : UserId) (id : DeviceId) (status : DeviceStatus) (now : Instant)
  | approvePending (userId : UserId) (id : DeviceId) (packet : DeviceVaultKeyPacket) (now : Instant)
  | delete (userId : UserId) (id : DeviceId) (epoch : Option Nat)
  | deleteDuplicates (userId : UserId) (existingId : DeviceId) (publicKey : String) (fingerprint : Option String)
      (epoch : Option Nat)
  | update (userId : UserId) (existingId : DeviceId) (device : TrustedDevice) (nextStatus : DeviceStatus)
      (credentialHash : Option String) (epoch : Option Nat) (now : Instant)
deriving DecidableEq, Repr

/-- The partial unique indexes on active devices. -/
def activeConflict (t : Table DeviceId TrustedDeviceRow) (id : DeviceId) (row : TrustedDeviceRow) : Bool :=
  row.status.active && t.any fun k r =>
    k ≠ id && r.userId = row.userId && r.status.active &&
      (r.publicKey = row.publicKey || (r.fingerprint.isSome && r.fingerprint = row.fingerprint))

def putDevice (t : Table DeviceId TrustedDeviceRow) (id : DeviceId) (row : TrustedDeviceRow) :
    Option (Table DeviceId TrustedDeviceRow) :=
  if activeConflict t id row then none else some (t.set id row)

def insertDevice (db : Db) (id : DeviceId) (row : TrustedDeviceRow) : Option (Table DeviceId TrustedDeviceRow) :=
  if db.users.contains row.userId && !db.trustedDevices.contains id then putDevice db.trustedDevices id row else none

def sameDevice (publicKey : String) (fingerprint : Option String) (row : TrustedDeviceRow) : Bool :=
  row.publicKey = publicKey || (row.fingerprint.isSome && row.fingerprint = fingerprint)

def TrustedDeviceRow.register (row : TrustedDeviceRow) (device : TrustedDevice) (nextStatus : DeviceStatus)
    (credentialHash : Option String) (now : Instant) : TrustedDeviceRow :=
  { row with
    name := device.name
    fingerprint := device.fingerprint <|> row.fingerprint
    publicKey := device.publicKey
    status := nextStatus
    credentialHash := credentialHash <|> row.credentialHash
    updatedAt := now
    lastSeenIp := device.lastSeenIp
    lastSeenLocation := device.lastSeenLocation }

/-- The row a recovery leaves of an existing one: all but its creation time is
replaced. -/
def TrustedDeviceRow.reinstall (row new : TrustedDeviceRow) : TrustedDeviceRow :=
  { new with userId := row.userId, createdAt := row.createdAt }

def DeviceStmt.exec (db : Db) : DeviceStmt → Option (Table DeviceId TrustedDeviceRow)
  | insert id row => insertDevice db id row
  | insertAtEpoch id row epoch =>
    if epochHolds db row.userId epoch then insertDevice db id row else some db.trustedDevices
  | revokeAll userId now =>
    some (db.trustedDevices.updateWhere (fun _ r => r.userId = userId) fun r =>
      { r with status := .revoked, credentialHash := none, updatedAt := now })
  -- `ON CONFLICT(id) DO UPDATE`, but for a row of another user
  | install id row =>
    match db.trustedDevices.get? id with
    | none => insertDevice db id row
    | some old =>
      if old.userId = row.userId then putDevice db.trustedDevices id (old.reinstall row) else some db.trustedDevices
  | setStatus userId id status now =>
    some (db.trustedDevices.updateWhere (fun k r => k = id && r.userId = userId) fun r =>
      { r with status := status, updatedAt := now })
  | approvePending userId id packet now =>
    some (db.trustedDevices.updateWhere
      (fun k r => k = id && r.userId = userId && r.status = .pending &&
        db.deviceVaultKeys.get? (userId, id) = some (.packet packet))
      fun r => { r with status := .approved, updatedAt := now })
  | delete userId id epoch =>
    some (db.trustedDevices.deleteWhere fun k r => k = id && r.userId = userId && epochHolds db userId epoch)
  | deleteDuplicates userId existingId publicKey fingerprint epoch =>
    some (db.trustedDevices.deleteWhere fun k r =>
      r.userId = userId && k ≠ existingId && sameDevice publicKey fingerprint r && epochHolds db userId epoch)
  | update userId existingId device nextStatus credentialHash epoch now =>
    match db.trustedDevices.get? existingId with
    | none => some db.trustedDevices
    | some row =>
      if row.userId = userId ∧ epochHolds db userId epoch then
        putDevice db.trustedDevices existingId (row.register device nextStatus credentialHash now)
      else some db.trustedDevices

structure RecoveryEligibility where
  challengeId : String
  userId : UserId
  now : Instant
  authEpoch : Nat
  recoveryGeneration : Option Nat
  registrationSessionId : String
  email : String
  deviceId : DeviceId
deriving DecidableEq, Repr

/-- The `eligible` row of the recovery claim exists. -/
def RecoveryEligibility.eligible (e : RecoveryEligibility) (db : Db) : Bool :=
  match db.recoveryChallenges.get? e.challengeId, db.users.get? e.userId, db.recoveryPackets.get? e.userId with
  | some c, some u, some r =>
    (db.registrationSessions.get? c.registrationSessionId).any (fun rs =>
      e.now < rs.expiresAt && lower rs.email = lower u.email) &&
    c.userId = some e.userId && e.now < c.expiresAt &&
    c.authEpoch = some u.authEpoch && c.authEpoch = some e.authEpoch &&
    c.recoveryGeneration = some r.generation && c.recoveryGeneration = e.recoveryGeneration &&
    r.protocolVersion = 2 && r.signingPublicKey.isSome &&
    c.registrationSessionId = e.registrationSessionId && lower u.email = lower e.email &&
    (db.trustedDevices.get? e.deviceId).all (·.userId = e.userId)
  | _, _, _ => false

inductive AccountStmt
  | users (q : UsersStmt)
  | registrations (q : RegistrationStmt)
  | logins (q : LoginStmt)
  | fakeLogins (q : FakeLoginStmt)
  | sessions (q : SessionStmt)
  | packets (q : PacketStmt)
  | vaultKeys (q : VaultKeyStmt)
  | devices (q : DeviceStmt)
  | insertChallenge (id : String) (row : RecoveryChallengeRow)
  | claimRecovery (e : RecoveryEligibility)
deriving DecidableEq, Repr

/-- The nonce's length and the three columns that are null together. -/
def RecoveryChallengeRow.check (db : Db) (row : RecoveryChallengeRow) : Bool :=
  row.nonce.length = 43 && row.userId.isSome = row.authEpoch.isSome &&
    row.userId.isSome = row.recoveryGeneration.isSome && row.userId.all (db.users.contains ·)

/-- Deleted devices take their sessions with them. -/
def setDevices (db : Db) (t : Table DeviceId TrustedDeviceRow) : Db :=
  { db with
    trustedDevices := t
    sessions := db.sessions.deleteWhere fun _ s =>
      s.deviceId.any fun d => db.trustedDevices.contains d && !t.contains d }

def AccountStmt.exec : AccountStmt → Db → Option Db
  | users q, db => (q.exec db).map fun t => { db with users := t }
  | registrations q, db => (q.exec db).map fun t => { db with registrationSessions := t }
  | logins q, db => (q.exec db).map fun t => { db with loginSessions := t }
  | fakeLogins q, db => (q.exec db).map fun t => { db with fakeLoginSessions := t }
  | sessions q, db => (q.exec db).map fun t => { db with sessions := t }
  | packets q, db => (q.exec db).map fun t => { db with recoveryPackets := t }
  | vaultKeys q, db => (q.exec db).map fun t => { db with deviceVaultKeys := t }
  | devices q, db => (q.exec db).map (setDevices db)
  | insertChallenge id row, db =>
    if row.check db then (db.recoveryChallenges.insert id row).map fun t => { db with recoveryChallenges := t }
    else none
  -- Without an eligible row the statement inserts nulls, which the table refuses.
  | claimRecovery e, db =>
    if e.eligible db then
      (db.recoveryClaims.insert e.challengeId ⟨e.userId⟩).map fun t => { db with recoveryClaims := t }
    else none

/-- `meta.changes` of the statements whose callers look at it. -/
def AccountStmt.changes : AccountStmt → Db → Nat
  | registrations (.delete id), db => if db.registrationSessions.contains id then 1 else 0
  | logins (.insertAtEpoch _ row), db => if epochHolds db row.userId (some row.authEpoch) then 1 else 0
  | logins (.delete id), db => if db.loginSessions.contains id then 1 else 0
  | fakeLogins (.delete id), db => if db.fakeLoginSessions.contains id then 1 else 0
  | sessions (.insertAtEpoch _ row), db => if epochHolds db row.userId (some row.authEpoch) then 1 else 0
  | packets (.rotate userId generation epoch _ _), db =>
    if (db.recoveryPackets.get? userId).any (fun r => r.protocolVersion = 2 && r.generation = generation) &&
      epochHolds db userId (some epoch) then 1 else 0
  | devices (.insertAtEpoch _ row epoch), db => if epochHolds db row.userId epoch then 1 else 0
  | vaultKeys (.migrate userId deviceId stored _), db =>
    if db.deviceVaultKeys.get? (userId, deviceId) = some (.raw stored) then 1 else 0
  | _, _ => 0

end ZeroVault

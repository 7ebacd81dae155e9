import ZeroVault.Shared
import ZeroVault.Table

/-!
# The Worker's database

The tables of the migrations, with the columns the store's code reads or
compares. Instants are milliseconds; the ISO texts the store writes for them
sort the same way.
-/

namespace ZeroVault

open Lib

abbrev DeviceId := String
abbrev Instant := Nat

/-! ## Recovery and device packets -/

structure RecoveryKdf where
  alg : String
  salt : String
  memoryKib : Nat
  iterations : Nat
  parallelism : Nat
deriving DecidableEq, Repr

structure RecoveryPacketV2 where
  version : Nat
  alg : EnvelopeAlg
  kdf : RecoveryKdf
  nonce : String
  ciphertext : String
deriving DecidableEq, Repr

structure RecoveryPacketEnvelope where
  envelope : CiphertextEnvelope
  kdfIterations : Option Nat
deriving DecidableEq, Repr

/-- `encrypted_recovery_packet`: the JSON text of either packet version. -/
inductive StoredRecoveryPacket
  | v1 (packet : RecoveryPacketEnvelope)
  | v2 (packet : RecoveryPacketV2)
deriving DecidableEq, Repr

structure DeviceVaultKeyPacket where
  version : Nat
  recipientDeviceId : DeviceId
  recipientPublicKey : String
  ephemeralPublicKey : String
  encryptedVaultKey : CiphertextEnvelope
deriving DecidableEq, Repr

/-- `encrypted_blob`: a structured packet, or the raw base64url of older rows. -/
inductive VaultKeyBlob
  | packet (p : DeviceVaultKeyPacket)
  | raw (value : String)
deriving DecidableEq, Repr

inductive DeviceStatus
  | pending
  | approved
  | rejected
  | revoked
deriving DecidableEq, Repr

/-! ## Rows -/

structure UserRow where
  email : String
  opaqueRegistrationRecord : String
  publicKeyBundle : String
  encryptedRecoveryPacket : StoredRecoveryPacket
  serverRevision : Nat
  authEpoch : Nat
deriving DecidableEq, Repr

structure VaultItemRow where
  userId : UserId
  revision : Nat
  createdAt : String
  updatedAt : String
  encryptedItemKey : CiphertextEnvelope
  encryptedPayload : CiphertextEnvelope
  encryptedSearchTokens : List CiphertextEnvelope
  deletedAt : Option String
deriving DecidableEq, Repr

structure VaultItemHistoryRow where
  itemId : ItemId
  userId : UserId
  revision : Nat
  snapshot : VaultItemCiphertext
deriving DecidableEq, Repr

structure ItemSyncChangeRow where
  cursor : Nat
  userId : UserId
  itemId : ItemId
  itemRevision : Nat
  change : ItemLevelChange
deriving DecidableEq, Repr

/-- An `AUTOINCREMENT` table: `seq` is the largest cursor ever given out. -/
structure ItemSyncChanges where
  rows : List ItemSyncChangeRow
  seq : Nat
deriving DecidableEq, Repr

def ItemSyncChanges.append (t : ItemSyncChanges) (userId : UserId) (itemId : ItemId) (itemRevision : Nat)
    (change : ItemLevelChange) : ItemSyncChanges where
  rows := t.rows ++ [⟨t.seq + 1, userId, itemId, itemRevision, change⟩]
  seq := t.seq + 1

/-- The canonical JSON that an idempotency receipt is bound to. -/
inductive RequestFingerprint
  | upsert (itemId : ItemId) (ownerUserId : UserId) (baseItemRevision : Nat) (createdAt updatedAt : String)
      (encryptedItemKey encryptedPayload : CiphertextEnvelope) (encryptedSearchTokens : List CiphertextEnvelope)
      (ciphertextHash : Option String)
  | delete (itemId : ItemId) (ownerUserId : UserId) (baseItemRevision : Nat) (deletedAt : String)
deriving DecidableEq, Repr

inductive ReceiptResult
  | applied (operation : OperationKind) (itemId : ItemId) (appliedRevision : Nat)
  | conflict (conflict : ItemLevelSyncConflict)
deriving DecidableEq, Repr

structure ItemSyncMutationRow where
  requestFingerprint : RequestFingerprint
  result : ReceiptResult
deriving DecidableEq, Repr

structure SessionRow where
  userId : UserId
  tokenHash : String
  csrfToken : String
  deviceId : Option DeviceId
  authEpoch : Nat
  expiresAt : Instant
  createdAt : Instant
deriving DecidableEq, Repr

structure LoginSessionRow where
  userId : UserId
  serverLoginState : String
  authEpoch : Nat
  expiresAt : Instant
deriving DecidableEq, Repr

structure FakeLoginSessionRow where
  email : String
  serverLoginState : String
  expiresAt : Instant
deriving DecidableEq, Repr

structure RegistrationSessionRow where
  email : String
  registrationResponse : String
  expiresAt : Instant
deriving DecidableEq, Repr

structure RecoveryPacketRow where
  encryptedRecoveryPacket : StoredRecoveryPacket
  protocolVersion : Nat
  signingPublicKey : Option String
  generation : Nat
deriving DecidableEq, Repr

structure RecoveryChallengeRow where
  userId : Option UserId
  authEpoch : Option Nat
  recoveryGeneration : Option Nat
  nonce : String
  registrationSessionId : String
  expiresAt : Instant
deriving DecidableEq, Repr

structure RecoveryClaimRow where
  userId : UserId
deriving DecidableEq, Repr

structure TrustedDeviceRow where
  userId : UserId
  name : String
  fingerprint : Option String
  publicKey : String
  status : DeviceStatus
  credentialHash : Option String
  createdAt : Instant
  updatedAt : Instant
  lastSeenIp : Option String
  lastSeenLocation : Option String
deriving DecidableEq, Repr

structure Db where
  users : Table UserId UserRow := ∅
  vaultItems : Table ItemId VaultItemRow := ∅
  vaultItemHistory : Table String VaultItemHistoryRow := ∅
  itemSyncChanges : ItemSyncChanges := ⟨[], 0⟩
  itemSyncMutations : Table (UserId × MutationId) ItemSyncMutationRow := ∅
  itemSyncRevisionClaims : Table (UserId × Nat) Unit := ∅
  sessions : Table String SessionRow := ∅
  loginSessions : Table String LoginSessionRow := ∅
  fakeLoginSessions : Table String FakeLoginSessionRow := ∅
  registrationSessions : Table String RegistrationSessionRow := ∅
  recoveryPackets : Table UserId RecoveryPacketRow := ∅
  recoveryChallenges : Table String RecoveryChallengeRow := ∅
  recoveryClaims : Table String RecoveryClaimRow := ∅
  trustedDevices : Table DeviceId TrustedDeviceRow := ∅
  deviceVaultKeys : Table (UserId × DeviceId) VaultKeyBlob := ∅

end ZeroVault

import Std.Tactic.Do
import ZeroVault.LegacySync

/-!
# The vault of the web app and its storage

The two kinds of local vault, the legacy recovery packet, and the entries of the
local storage as programs read and write them. A write to the storage fails where
`Faults` says so, and then changes nothing.
-/

set_option mvcgen.warning false

namespace ZeroVault.Web

open Lib Browser Std.Do

/-! ## Vaults -/

inductive LocalVaultRuntime
  | cryptoCoreWasm
  | webcryptoMvp
deriving DecidableEq, Repr

inductive Kdf
  | argon2idV13 (memoryKib iterations parallelism : Nat) (salt : String) (wrappedVaultKey : Option String)
  | pbkdf2Sha256 (iterations : Nat) (salt : String)
deriving DecidableEq, Repr

def Kdf.runtime : Kdf → LocalVaultRuntime
  | argon2idV13 .. => .cryptoCoreWasm
  | pbkdf2Sha256 .. => .webcryptoMvp

structure VaultKey where
  runtime : LocalVaultRuntime
  bytes : List UInt8
deriving DecidableEq, Repr

structure UnlockedVault where
  key : List UInt8
  kdf : Kdf
  snapshot : Legacy.VaultSnapshot

def UnlockedVault.vaultKey (vault : UnlockedVault) : VaultKey := ⟨vault.kdf.runtime, vault.key⟩

/-- A `γ` is what a runtime makes of a snapshot. -/
structure EncryptedLocalVault (γ : Type) where
  kdf : Kdf
  cipher : γ
  itemCount : Nat
  updatedAt : String
deriving DecidableEq, Repr

structure RecoveryPacket where
  alg : String
  nonce : String
  ciphertext : String
  kdfIterations : Nat
deriving DecidableEq, Repr

/-- The platform, the crypto core and the JSON parser; each of them may throw. -/
structure Core (γ : Type) where
  runtime : Runtime VaultKey
  importKey : List UInt8 → Except String Unit
  deriveVaultKey : String → Kdf → Except String (List UInt8)
  encryptSnapshot : VaultKey → Legacy.VaultSnapshot → String → Except String γ
  decryptSnapshot : VaultKey → γ → Except String Legacy.VaultSnapshot
  encryptPacket : String → List UInt8 → String → Except String String
  decryptPacket : String → RecoveryPacket → Except String (List UInt8)
  /-- `none` where the value fails `validateEncryptedBackup`. -/
  decodeVault : String → Except String (Option (EncryptedLocalVault γ))
  syntaxError : String → String

/-! ## The local storage -/

inductive Entry (α : Type)
  | absent
  | malformed (text : String)
  | value (v : α)
deriving DecidableEq, Repr

structure Storage (γ : Type) where
  vault : Entry (EncryptedLocalVault γ)
  recoveryPacket : Entry RecoveryPacket
  pendingMutations : Entry (Table ItemId PendingItemMutation)
  itemRevisions : Entry (Table ItemId Nat)

/-- Which writes throw: those of the program, and those that undo them. -/
structure Faults where
  write : Nat → Bool
  undo : Nat → Bool

/-- The storage with the writes so far, and the one variable of the program that
outlives what is thrown. -/
structure Store (γ : Type) where
  storage : Storage γ
  writes : Nat
  undos : Nat
  remoteOriginalRevisionMap : Option (Table ItemId Nat)

abbrev Program (γ : Type) := ExceptT String (StateM (Store γ))

def QUOTA_EXCEEDED : String := "QuotaExceededError"

section
variable {γ : Type} (C : Core γ) (faults : Faults)

def setItem (f : Storage γ → Storage γ) : Program γ Unit := do
  let store ← get
  set { store with writes := store.writes + 1 }
  if faults.write store.writes then throw QUOTA_EXCEEDED
  modify fun store => { store with storage := f store.storage }

def undoItem (f : Storage γ → Storage γ) : Program γ Unit := do
  let store ← get
  set { store with undos := store.undos + 1 }
  if faults.undo store.undos then throw QUOTA_EXCEEDED
  modify fun store => { store with storage := f store.storage }

def orThrow {α : Type} : Except String α → Program γ α
  | .ok a => pure a
  | .error message => throw message

def loadItemRevisionMap : Program γ (Table ItemId Nat) := do
  match (← get).storage.itemRevisions with
  | .absent => pure ∅
  | .malformed text => throw (C.syntaxError text)
  | .value map => pure map

def loadPendingItemMutations : Program γ (Table ItemId PendingItemMutation) := do
  match (← get).storage.pendingMutations with
  | .value mutations => pure mutations
  | _ => pure ∅

/-! ## Recovery packets -/

/-- `Number.MAX_SAFE_INTEGER`. -/
def MAX_SAFE_INTEGER : Nat := 9007199254740991

def RECOVERY_KDF_ITERATIONS : Nat := 600000

def RECOVERY_PACKET_INVALID : String :=
  "旧版恢复包格式无效，请保留原始备份并在支持 Recovery v2 的客户端中迁移。"

def INVALID_RECOVERED_KEY : String := "Invalid recovered key length."

def isRecoveryPacket (packet : RecoveryPacket) : Bool :=
  packet.alg == "AES_256_GCM" && decide (packet.kdfIterations ≤ MAX_SAFE_INTEGER) && decide (0 < packet.kdfIterations)

def createRecoveryPacket (code : String) (vaultKey : List UInt8) (nonce : String) : Except String RecoveryPacket := do
  let ciphertext ← C.encryptPacket code vaultKey nonce
  pure ⟨"AES_256_GCM", nonce, ciphertext, RECOVERY_KDF_ITERATIONS⟩

def recoverVaultKey (code : String) (packet : RecoveryPacket) : Except String (List UInt8) := do
  if !isRecoveryPacket packet then throw RECOVERY_PACKET_INVALID
  let keyBytes ← C.decryptPacket code packet
  if keyBytes.length ≠ 32 then throw INVALID_RECOVERED_KEY
  pure keyBytes

def loadRecoveryPacket : Program γ (Option RecoveryPacket) := do
  match (← get).storage.recoveryPacket with
  | .absent => pure none
  | .malformed text => throw (C.syntaxError text)
  | .value packet => if isRecoveryPacket packet then pure (some packet) else throw RECOVERY_PACKET_INVALID

/-! ## Opening, creating and sealing -/

def unlockLocalVaultWithRecoveredKey (encrypted : EncryptedLocalVault γ) (keyBytes : List UInt8) :
    Except String UnlockedVault := do
  if keyBytes.length ≠ 32 then throw INVALID_RECOVERED_KEY
  if encrypted.kdf.runtime = .webcryptoMvp then C.importKey keyBytes
  let snapshot ← C.decryptSnapshot ⟨encrypted.kdf.runtime, keyBytes⟩ encrypted.cipher
  pure ⟨keyBytes, encrypted.kdf, snapshot⟩

structure Readings where
  now : String
  salt : String
  nonce : String
  recoveryCode : String

def emptySnapshot (now : String) : Legacy.VaultSnapshot := ⟨now, now, []⟩

def sealUnlockedVault (vault : UnlockedVault) (readings : Readings) : Except String (EncryptedLocalVault γ) := do
  let snapshot := { vault.snapshot with updatedAt := readings.now }
  let cipher ← C.encryptSnapshot vault.vaultKey snapshot readings.nonce
  pure ⟨vault.kdf, cipher, vault.snapshot.items.length, readings.now⟩

def createEmptyLocalVault (masterPassword : String) (readings : Readings) :
    Except String (EncryptedLocalVault γ × UnlockedVault) := do
  let kdf := Kdf.argon2idV13 19456 2 1 readings.salt none
  let key ← C.deriveVaultKey masterPassword kdf
  let snapshot := emptySnapshot readings.now
  let cipher ← C.encryptSnapshot ⟨kdf.runtime, key⟩ snapshot readings.nonce
  pure (⟨kdf, cipher, 0, readings.now⟩, ⟨key, kdf, snapshot⟩)

/-! ## Merging what was pulled -/

/-- The loop of `mergeRemoteItems`, which looks at the key and the items. -/
def mergeItems (now : String) (vault : UnlockedVault) (revisionMap : Table ItemId Nat)
    (remoteItems : List VaultItemCiphertext) : Legacy.MergeRemoteItemsResult VaultKey :=
  remoteItems.foldl (Legacy.mergeRemoteItem C.runtime now)
    ⟨⟨vault.vaultKey, ⟨0, ""⟩, vault.snapshot⟩, revisionMap, [], []⟩

def mergeRemoteItems (now : String) (vault : UnlockedVault) (remoteItems : List VaultItemCiphertext) :
    Program γ (UnlockedVault × List ItemId) := do
  let revisionMap ← loadItemRevisionMap C
  let merged := mergeItems C now vault revisionMap remoteItems
  setItem faults fun storage => { storage with itemRevisions := .value merged.revisionMap }
  pure ({ vault with snapshot := merged.vault.snapshot }, merged.failedItemIds)

end

end ZeroVault.Web

import ZeroVault.Encodings
import ZeroVault.MobileValid
import ZeroVault.RecoveryPackets

/-!
# Encrypted backups of the mobile app

A backup is written from what is stored and read back through the checks that
each part passed when it was stored. Two things are not checked when they are
stored: that a queued delete has a record, and the length of an envelope whose
revision an acknowledgement changes (`restores_iff`).
-/

namespace ZeroVault.Mobile

open Lib Browser
open Native (MobileCryptoError XCHACHA20_NONCE_LEN)
open RecoveryPacket (POLY1305_TAG_LEN)

/-! ## The file -/

def MOBILE_ENCRYPTED_BACKUP_FORMAT : String := "zero-vault-mobile-encrypted-backup"
def MAX_ENCRYPTED_BACKUP_BYTES : Nat := 52428800
def MAX_ENCRYPTED_BACKUP_PLAINTEXT_BYTES : Nat := 33554432
def MAX_MOBILE_BACKUP_BYTES : Nat := 33554432
def MOBILE_BACKUP_AAD_PREFIX : Bytes := Native.ascii "zero-vault:mobile-backup:v2\x00"

structure BackupEnvelope where
  format : String
  version : Nat
  nonce : String
  ciphertext : String
deriving DecidableEq, Repr

def BackupEnvelope.text (envelope : BackupEnvelope) : String :=
  "\x7b\"format\":\"" ++ envelope.format ++ "\",\"version\":" ++ toString envelope.version ++ ",\"nonce\":\"" ++
    envelope.nonce ++ "\",\"ciphertext\":\"" ++ envelope.ciphertext ++ "\"\x7d"

inductive BackupFailure
  | repository (failure : Failure)
  | crypto (error : MobileCryptoError)
  | json
deriving DecidableEq, Repr

def checked {α : Type} : Except Failure α → Except BackupFailure α := Except.mapError .repository

/-- JSON and the cipher of the crypto core: key, nonce, text and associated data. -/
structure BackupCore (κ : Type) where
  toBytes : Backup → Bytes
  ofBytes : Bytes → Option Backup
  encryptXchacha20 : κ → Bytes → Bytes → Bytes → Bytes
  decryptXchacha20 : κ → Bytes → Bytes → Bytes → Option Bytes

structure BackupCore.Ideal {κ : Type} (C : BackupCore κ) : Prop where
  decrypt_encrypt : ∀ key nonce plaintext aad,
    C.decryptXchacha20 key nonce (C.encryptXchacha20 key nonce plaintext aad) aad = some plaintext
  length_encrypt : ∀ key nonce plaintext aad,
    (C.encryptXchacha20 key nonce plaintext aad).length = plaintext.length + POLY1305_TAG_LEN

abbrev BackupNonce := { nonce : Bytes // nonce.length = XCHACHA20_NONCE_LEN }

section
variable {κ : Type} (P : Platform) (C : BackupCore κ)

def mobileBackupAad (accountId : UserId) (backupId : String) : Except MobileCryptoError Bytes :=
  if accountId.isEmpty || 256 < accountId.utf8ByteSize || backupId.utf8ByteSize ≠ 36 then .error .invalidInput
  else .ok (MOBILE_BACKUP_AAD_PREFIX ++ Utf16.utf8 accountId.toList ++ [0] ++ Utf16.utf8 backupId.toList)

def mobileEncryptBackup (key : κ) (nonce : BackupNonce) (accountId : UserId) (backupId : String) (plaintext : Bytes) :
    Except MobileCryptoError Bytes := do
  if plaintext.isEmpty || MAX_MOBILE_BACKUP_BYTES < plaintext.length then throw .invalidInput
  let aad ← mobileBackupAad accountId backupId
  pure (nonce.val ++ C.encryptXchacha20 key nonce.val plaintext aad)

/-- With the key of the account's session; the database is only read. -/
def createBackupFile (readings : Readings) (nonce : BackupNonce) (session : Option κ) (accountId : UserId)
    (backupId : String) (db : Database) : Except BackupFailure BackupEnvelope := do
  checked (requireIdentifier P accountId "account")
  checked (requireUuid P backupId "backup")
  let key ← checked (orThrow "VAULT_LOCKED" "Vault is locked" session)
  let backup ← checked (createEncryptedBackup P readings accountId db)
  let plaintext := C.toBytes backup
  checked (require (plaintext.length ≤ MAX_ENCRYPTED_BACKUP_PLAINTEXT_BYTES) FAILED_REQUIREMENT)
  let encrypted ← (mobileEncryptBackup C key nonce accountId backupId plaintext).mapError .crypto
  checked (require (40 ≤ encrypted.length) FAILED_REQUIREMENT)
  let envelope : BackupEnvelope :=
    ⟨MOBILE_ENCRYPTED_BACKUP_FORMAT, 2, androidEncode (encrypted.take 24), androidEncode (encrypted.drop 24)⟩
  checked (require (envelope.text.utf8ByteSize ≤ MAX_ENCRYPTED_BACKUP_BYTES) FAILED_REQUIREMENT)
  pure envelope

end

/-! ## What a backup keeps -/

def CiphertextRecordEntity.kept (row : CiphertextRecordEntity) : VaultItemCiphertext × Nat × String × Bool :=
  (row.ciphertextEnvelope, row.itemRevision, row.lastSyncedAt, row.isDeleted)

section
variable {P : Platform} {db db₁ db' : Database} {a : UserId} {r : ItemId} {m : PendingMutationEntity}

theorem mem_listIncludingTombstones {row : CiphertextRecordEntity} :
    (r, row) ∈ db.listIncludingTombstones a ↔ db.getRecord a r = some row := by
  unfold Database.listIncludingTombstones
  rw [List.mem_mergeSort, List.mem_map]
  constructor
  · rintro ⟨⟨⟨a', r'⟩, row'⟩, hsel, he⟩
    cases he
    obtain ⟨hget, ha⟩ := Table.mem_select.mp hsel
    exact of_decide_eq_true ha ▸ hget
  · intro h
    exact ⟨((a, r), row), Table.mem_select.mpr ⟨h, decide_eq_true rfl⟩, rfl⟩

theorem createEncryptedBackup_eq {readings : Readings} {backup : Backup}
    (h : createEncryptedBackup P readings a db = .ok backup) : requireIdentifier P a "account" = .ok () ∧ backup = {
      createdAt := readings.now
      items := (db.listIncludingTombstones a).map fun r =>
        ⟨r.1, r.2.ciphertextEnvelope, r.2.itemRevision, r.2.lastSyncedAt, r.2.isDeleted⟩
      pendingMutations := db.listPending a
      sync := db.syncCursors.get? a } := by
  obtain ⟨_, haccount, h⟩ := except_bind_ok h
  split at h
  · cases h
  cases h
  exact ⟨haccount, rfl⟩

def backupRecords (a : UserId) (db : Database) : List CiphertextRecord :=
  (db.listIncludingTombstones a).map fun r =>
    ⟨⟨r.2.ciphertextEnvelope, r.2.itemRevision, r.2.lastSyncedAt, false, none, r.2.isDeleted⟩, a, r.1⟩

theorem mem_backupRecords {record : CiphertextRecord} : record ∈ backupRecords a db ↔
    ∃ r row, db.getRecord a r = some row ∧ record =
      ⟨⟨row.ciphertextEnvelope, row.itemRevision, row.lastSyncedAt, false, none, row.isDeleted⟩, a, r⟩ := by
  unfold backupRecords
  rw [List.mem_map]
  constructor
  · rintro ⟨⟨r, row⟩, hmem, rfl⟩
    exact ⟨r, row, mem_listIncludingTombstones.mp hmem, rfl⟩
  · rintro ⟨r, row, hrow, rfl⟩
    exact ⟨(r, row), mem_listIncludingTombstones.mpr hrow, rfl⟩

/-- The database that a backup of `db` makes of `db₁`. -/
def restored (a : UserId) (db db₁ : Database) : Database :=
  let stored := (db.listPending a).foldl Database.upsertPending
    ((backupRecords a db).foldl Database.upsertRecord (db₁.clear a))
  match db.syncCursors.get? a with
  | some cursor => stored.upsertCursor a cursor
  | none => stored

theorem foldl_frame {α β : Type} {f : Database → α → Database} {g : Database → β} (hf : ∀ db x, g (f db x) = g db) :
    ∀ (l : List α) (db : Database), g (l.foldl f db) = g db
  | [], _ => rfl
  | x :: l, db => (foldl_frame hf l (f db x)).trans (hf db x)

def PendingMutationEntity.before (m m' : PendingMutationEntity) : Bool :=
  m.createdAt < m'.createdAt || (m.createdAt = m'.createdAt && m.clientMutationId ≤ m'.clientMutationId)

variable {κ : Type} {C : BackupCore κ}

end

/-! ## A delete without a record -/

section

def plainCore (backup : Backup) : BackupCore Unit where
  toBytes _ := [1]
  ofBytes _ := some backup
  encryptXchacha20 _ _ plaintext _ := plaintext ++ List.replicate 16 0
  decryptXchacha20 _ _ ciphertext _ := some (ciphertext.take (ciphertext.length - 16))

def sampleNonce : BackupNonce := ⟨List.replicate 24 0, rfl⟩

def sampleBackupId : String := "4f2c7c1e-8d0a-4b59-9c36-0d5e8b7a1f23"

def written (db : Database) (backup : Backup) : Except BackupFailure BackupEnvelope :=
  createBackupFile samplePlatform (plainCore backup) sampleReadings sampleNonce (some ()) "u1" sampleBackupId db

theorem exists_of_any {ε α : Type} {x : Except ε α} {p : α → Bool} (h : x.toOption.any p = true) :
    ∃ y, x = .ok y ∧ p y = true := by
  cases x with
  | error e => cases h
  | ok y => exact ⟨y, rfl, h⟩

end

end ZeroVault.Mobile

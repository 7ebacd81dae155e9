import ZeroVault.Shared
import ZeroVault.Table

/-!
# The Room database of the mobile app

Records, pending mutations, conflicts and cursors, and the operations of the
vault repository on them. Each operation checks its arguments and then runs one
transaction: where it throws nothing has changed. The arguments are those that
the native module hands over. An insert with `REPLACE` replaces every row that
clashes with the new one on the primary key or on a unique index.
-/

namespace ZeroVault.Mobile

open Lib

/-! ## Failures -/

inductive Failure
  | illegalArgument (message : String)
  | repository (code message : String)
deriving DecidableEq, Repr

def require (condition : Bool) (message : String) : Except Failure Unit :=
  if condition then .ok () else .error (.illegalArgument message)

def orThrow {α : Type} (code message : String) : Option α → Except Failure α
  | some value => .ok value
  | none => .error (.repository code message)

def requireNotNull {α : Type} (message : String) : Option α → Except Failure α
  | some value => .ok value
  | none => .error (.illegalArgument message)

/-! ## Rows -/

/-- `CiphertextRecordEntity` without its key; the envelope is the value of its JSON text. -/
structure CiphertextRecordEntity where
  ciphertextEnvelope : VaultItemCiphertext
  itemRevision : Nat
  lastSyncedAt : String
  hasConflict : Bool
  itemType : Option String
  isDeleted : Bool
deriving DecidableEq, Repr

structure CiphertextRecord extends CiphertextRecordEntity where
  accountId : UserId
  recordId : ItemId
deriving DecidableEq, Repr

structure PendingMutationEntity where
  accountId : UserId
  clientMutationId : MutationId
  recordId : ItemId
  operation : OperationKind
  baseItemRevision : Nat
  ciphertextEnvelope : Option VaultItemCiphertext
  createdAt : String
deriving DecidableEq, Repr

/-- `SyncConflictEntity` without its key. -/
structure SyncConflictEntity where
  reason : ConflictReason
  localCiphertextEnvelope : Option VaultItemCiphertext
  remoteCiphertextEnvelope : Option VaultItemCiphertext
  serverRevision : Nat
  serverItemRevision : Option Nat
  status : String
  createdAt : String
deriving DecidableEq, Repr

structure SyncCursorEntity where
  serverRevision : Nat
  lastSyncedAt : Option String
  serverCursor : Option Nat
deriving DecidableEq, Repr

structure Database where
  ciphertexts : Table (UserId × ItemId) CiphertextRecordEntity
  pendingMutations : List PendingMutationEntity
  syncConflicts : Table (UserId × ItemId) SyncConflictEntity
  syncCursors : Table UserId SyncCursorEntity

def emptyDatabase : Database := ⟨∅, [], ∅, ∅⟩

/-! ## `PendingMutationDao` -/

/-- The rows an insert replaces: one mutation id, or one record. -/
def PendingMutationEntity.clashes (mutation other : PendingMutationEntity) : Bool :=
  other.accountId = mutation.accountId &&
    (other.clientMutationId = mutation.clientMutationId || other.recordId = mutation.recordId)

namespace Database

def upsertPending (db : Database) (mutation : PendingMutationEntity) : Database :=
  { db with pendingMutations := db.pendingMutations.filter (!mutation.clashes ·) ++ [mutation] }

def getForRecord (db : Database) (accountId : UserId) (recordId : ItemId) : Option PendingMutationEntity :=
  db.pendingMutations.find? fun m => m.accountId = accountId && m.recordId = recordId

def deleteForRecord (db : Database) (accountId : UserId) (recordId : ItemId) : Database :=
  { db with pendingMutations := db.pendingMutations.filter fun m => !(m.accountId = accountId && m.recordId = recordId) }

def getAllPending (db : Database) (accountId : UserId) (mutationIds : List MutationId) : List PendingMutationEntity :=
  db.pendingMutations.filter fun m => m.accountId = accountId && mutationIds.contains m.clientMutationId

def deleteAllPending (db : Database) (accountId : UserId) (mutationIds : List MutationId) : Database :=
  { db with pendingMutations := db.pendingMutations.filter fun m =>
      !(m.accountId = accountId && mutationIds.contains m.clientMutationId) }

/-- `ORDER BY created_at, client_mutation_id`. -/
def listPending (db : Database) (accountId : UserId) : List PendingMutationEntity :=
  (db.pendingMutations.filter (·.accountId = accountId)).mergeSort fun m m' =>
    m.createdAt < m'.createdAt || (m.createdAt = m'.createdAt && m.clientMutationId ≤ m'.clientMutationId)

/-! ## `VaultCiphertextDao` -/

def upsertRecord (db : Database) (record : CiphertextRecord) : Database :=
  { db with ciphertexts := db.ciphertexts.set (record.accountId, record.recordId) record.toCiphertextRecordEntity }

def getRecord (db : Database) (accountId : UserId) (recordId : ItemId) : Option CiphertextRecordEntity :=
  db.ciphertexts.get? (accountId, recordId)

def deleteRecord (db : Database) (accountId : UserId) (recordId : ItemId) : Database :=
  { db with ciphertexts := db.ciphertexts.erase (accountId, recordId) }

def clearConflictFlags (db : Database) (accountId : UserId) : Database :=
  { db with
    ciphertexts := db.ciphertexts.updateWhere (fun k _ => k.1 = accountId)
      fun row => { row with hasConflict := false } }

def markConflicts (db : Database) (accountId : UserId) (recordIds : List ItemId) : Database :=
  { db with
    ciphertexts := db.ciphertexts.updateWhere (fun k _ => k.1 = accountId && recordIds.contains k.2)
      fun row => { row with hasConflict := true } }

def setConflict (db : Database) (accountId : UserId) (recordId : ItemId) (hasConflict : Bool) : Database :=
  { db with
    ciphertexts := db.ciphertexts.updateWhere (fun k _ => k = (accountId, recordId))
      fun row => { row with hasConflict } }

/-- `ORDER BY record_id`. -/
def listIncludingTombstones (db : Database) (accountId : UserId) : List (ItemId × CiphertextRecordEntity) :=
  ((db.ciphertexts.select fun k _ => k.1 = accountId).map fun r => (r.1.2, r.2)).mergeSort fun r r' => r.1 ≤ r'.1

/-! ## `SyncConflictDao`, `SyncCursorDao` -/

def upsertConflict (db : Database) (accountId : UserId) (recordId : ItemId) (conflict : SyncConflictEntity) : Database :=
  { db with syncConflicts := db.syncConflicts.set (accountId, recordId) conflict }

def deleteConflict (db : Database) (accountId : UserId) (recordId : ItemId) : Database :=
  { db with syncConflicts := db.syncConflicts.erase (accountId, recordId) }

def setConflictStatus (db : Database) (accountId : UserId) (recordId : ItemId) (status : String) : Database :=
  { db with
    syncConflicts := db.syncConflicts.updateWhere (fun k _ => k = (accountId, recordId))
      fun conflict => { conflict with status } }

def unresolvedConflicts (db : Database) (accountId : UserId) : List ((UserId × ItemId) × SyncConflictEntity) :=
  db.syncConflicts.select fun k c => k.1 = accountId && c.status = "UNRESOLVED"

def upsertCursor (db : Database) (accountId : UserId) (cursor : SyncCursorEntity) : Database :=
  { db with syncCursors := db.syncCursors.set accountId cursor }

/-- What the tables hold of an account, deleted. -/
def clear (db : Database) (accountId : UserId) : Database where
  ciphertexts := db.ciphertexts.deleteWhere fun k _ => k.1 = accountId
  pendingMutations := db.pendingMutations.filter (·.accountId ≠ accountId)
  syncConflicts := db.syncConflicts.deleteWhere fun k _ => k.1 = accountId
  syncCursors := db.syncCursors.erase accountId

end Database

/-! ## Checks -/

structure Platform where
  isBlank : String → Bool
  isUuid : String → Bool
  isInstant : String → Bool
  isBase64Url : String → Bool
  /-- Length of an envelope's JSON text. -/
  envelopeLength : VaultItemCiphertext → Nat

def MAX_SAFE_REVISION : Nat := 9007199254740991
def MAX_ENCRYPTED_BACKUP_ITEMS : Nat := 100000
def MAX_CRYPTO_CORE_BACKUP_ITEMS : Nat := 10000

/-- The message of a `require` without one. -/
def FAILED_REQUIREMENT : String := "Failed requirement."

section
variable (P : Platform)

def requireIdentifier (value name : String) : Except Failure Unit :=
  require (!P.isBlank value && value.length ≤ 256) (name ++ " identifier is invalid")

def requireUuid (value name : String) : Except Failure Unit :=
  require (P.isUuid value) (name ++ " identifier is invalid")

def requireSafeRevision (value : Option Nat) : Except Failure Unit :=
  require (value.all (· ≤ MAX_SAFE_REVISION)) "Revision is invalid"

def requireTimestamp (value : String) : Except Failure Unit :=
  require (!P.isBlank value && value.length ≤ 64 && P.isInstant value) "Timestamp is invalid"

def requireBase64Url (value : String) : Except Failure Unit :=
  require (!P.isBlank value && value.length ≤ 2000000 && P.isBase64Url value) "Invalid base64url value"

def validateCryptoEnvelope (envelope : CiphertextEnvelope) : Except Failure Unit := do
  requireBase64Url P envelope.nonce
  requireBase64Url P envelope.ciphertext
  match envelope.aad with
  | some aad => requireBase64Url P aad
  | none => pure ()

def validateCiphertextEnvelope (record : CiphertextRecord) : Except Failure Unit := do
  let item := record.ciphertextEnvelope
  require (item.id = record.recordId) "Ciphertext item identifier mismatch"
  require (item.ownerUserId = record.accountId) "Ciphertext item owner mismatch"
  require (item.revision = record.itemRevision) "Ciphertext item revision mismatch"
  require (!P.isBlank item.createdAt && !P.isBlank item.updatedAt) FAILED_REQUIREMENT
  validateCryptoEnvelope P item.encryptedItemKey
  validateCryptoEnvelope P item.encryptedPayload
  item.encryptedSearchTokens.forM (validateCryptoEnvelope P)

def validate (record : CiphertextRecord) : Except Failure Unit := do
  requireIdentifier P record.accountId "account"
  requireIdentifier P record.recordId "record"
  require (P.envelopeLength record.ciphertextEnvelope ≤ 1048576) "Ciphertext envelope is too large"
  requireSafeRevision (some record.itemRevision)
  requireTimestamp P record.lastSyncedAt
  validateCiphertextEnvelope P record

def validateCursor (accountId : UserId) (cursor : SyncCursorEntity) : Except Failure Unit := do
  requireIdentifier P accountId "account"
  requireSafeRevision (some cursor.serverRevision)
  match cursor.lastSyncedAt with
  | some lastSyncedAt => requireTimestamp P lastSyncedAt
  | none => pure ()
  requireSafeRevision cursor.serverCursor

def validateConflict (accountId : UserId) (recordId : ItemId) (conflict : SyncConflictEntity) : Except Failure Unit := do
  requireIdentifier P accountId "account"
  requireIdentifier P recordId "record"
  requireSafeRevision (some conflict.serverRevision)
  requireSafeRevision conflict.serverItemRevision
  requireTimestamp P conflict.createdAt

/-- `parseCiphertextRecord`: the record of an envelope that comes over the bridge. -/
def parseCiphertextRecord (accountId : UserId) (item : VaultItemCiphertext) (timestamp : String) : CiphertextRecord where
  accountId := accountId
  recordId := item.id
  ciphertextEnvelope := item
  itemRevision := item.revision
  lastSyncedAt := timestamp
  hasConflict := false
  itemType := none
  isDeleted := false

def recordFromEnvelope (accountId : UserId) (item : VaultItemCiphertext) (timestamp : String) :
    Except Failure CiphertextRecord := do
  let record := parseCiphertextRecord accountId item timestamp
  validate P record
  pure record

/-! ## The local queue -/

structure Readings where
  now : String
  randomUUID : Nat → MutationId

def upsertLocalCiphertextAndEnqueue (readings : Readings) (accountId : UserId) (itemId : ItemId)
    (ciphertextEnvelope : VaultItemCiphertext) (itemRevision : Nat) (lastSyncedAt : String)
    (baseItemRevision : Option Nat) (clientMutationId : MutationId) (db : Database) : Except Failure Database := do
  let record : CiphertextRecord :=
    ⟨⟨ciphertextEnvelope, itemRevision, lastSyncedAt, false, none, false⟩, accountId, itemId⟩
  validate P record
  requireSafeRevision baseItemRevision
  requireUuid P clientMutationId "client mutation"
  let pending := db.getForRecord accountId itemId
  let effectiveBaseRevision := (pending.map (·.baseItemRevision)).getD (baseItemRevision.getD 0)
  pure (((db.upsertRecord record).deleteForRecord accountId itemId).upsertPending
    ⟨accountId, clientMutationId, itemId, .upsert, effectiveBaseRevision, some ciphertextEnvelope, readings.now⟩)

/-- The record stays as a tombstone. -/
def Database.markDeleted (db : Database) (accountId : UserId) (recordId : ItemId) : Database :=
  match db.getRecord accountId recordId with
  | some row => db.upsertRecord ⟨{ row with isDeleted := true }, accountId, recordId⟩
  | none => db

def deleteLocalAndEnqueue (accountId : UserId) (recordId : ItemId) (baseItemRevision : Option Nat)
    (clientMutationId : MutationId) (createdAt : String) (db : Database) : Except Failure Database := do
  requireIdentifier P accountId "account"
  requireIdentifier P recordId "record"
  requireSafeRevision baseItemRevision
  requireUuid P clientMutationId "client mutation"
  requireTimestamp P createdAt
  let pending := db.getForRecord accountId recordId
  -- a create that was never sent and its delete cancel out
  if pending.any fun m => m.operation = .upsert && m.baseItemRevision = 0 then
    pure ((db.deleteRecord accountId recordId).deleteForRecord accountId recordId)
  else
    let deleteBaseRevision ← requireNotNull "Delete base revision is required for a synchronized item"
      ((pending.map (·.baseItemRevision)).or baseItemRevision)
    pure (((db.markDeleted accountId recordId).deleteForRecord accountId recordId).upsertPending
      ⟨accountId, clientMutationId, recordId, .delete, deleteBaseRevision, none, createdAt⟩)

/-! ## Acknowledgements -/

structure MutationAcknowledgement where
  clientMutationId : MutationId
  appliedItemRevision : Nat
deriving DecidableEq, Repr

/-- `associate`: the revision of a mutation. -/
def appliedRevision (acknowledgements : List MutationAcknowledgement) (clientMutationId : MutationId) : Option Nat :=
  (acknowledgements.find? (·.clientMutationId = clientMutationId)).map (·.appliedItemRevision)

def acknowledge (acknowledgements : List MutationAcknowledgement) (timestamp : String) (db : Database)
    (mutation : PendingMutationEntity) : Except Failure Database :=
  match mutation.operation with
  | .delete => pure (db.deleteRecord mutation.accountId mutation.recordId)
  | .upsert => do
    let itemRevision ← requireNotNull "Required value was null."
      (appliedRevision acknowledgements mutation.clientMutationId)
    let stored ← orThrow "ITEM_NOT_FOUND" "Acknowledged item no longer exists"
      (db.getRecord mutation.accountId mutation.recordId)
    pure (db.upsertRecord ⟨{ stored with
      ciphertextEnvelope := { stored.ciphertextEnvelope with revision := itemRevision }
      itemRevision := itemRevision
      lastSyncedAt := timestamp
      hasConflict := false
      isDeleted := false }, mutation.accountId, mutation.recordId⟩)

def ackMutations (accountId : UserId) (acknowledgements : List MutationAcknowledgement) (serverRevision : Nat)
    (timestamp : String) (db : Database) : Except Failure Database := do
  requireIdentifier P accountId "account"
  acknowledgements.forM fun a => do
    requireUuid P a.clientMutationId "client mutation"
    requireSafeRevision (some a.appliedItemRevision)
  let mutationIds := acknowledgements.map (·.clientMutationId)
  require mutationIds.Nodup "Mutation acknowledgement is duplicated"
  requireSafeRevision (some serverRevision)
  requireTimestamp P timestamp
  let pending := db.getAllPending accountId mutationIds
  if pending.length ≠ mutationIds.length then
    throw (.repository "MUTATION_NOT_FOUND" "Mutation acknowledgement no longer matches the queue")
  let db ← pending.foldlM (acknowledge acknowledgements timestamp) db
  let db := db.deleteAllPending accountId mutationIds
  let current := db.syncCursors.get? accountId
  if current.any (serverRevision < ·.serverRevision) then
    throw (.repository "SYNC_REVISION_REGRESSED" "Server revision moved backwards")
  pure (db.upsertCursor accountId ⟨serverRevision, some timestamp, current.bind (·.serverCursor)⟩)

/-! ## Pulls -/

structure RemoteDeletedItem where
  recordId : ItemId
  itemRevision : Nat
  deletedAt : String
deriving DecidableEq, Repr

def savePullConflict (accountId : UserId) (recordId : ItemId) (remoteEnvelope : Option VaultItemCiphertext)
    (serverRevision : Nat) (serverItemRevision : Option Nat) (timestamp : String) (db : Database) : Database :=
  let stored := db.getRecord accountId recordId
  (db.upsertConflict accountId recordId ⟨.itemRevisionAdvanced, stored.map (·.ciphertextEnvelope), remoteEnvelope,
    serverRevision, serverItemRevision, "UNRESOLVED", timestamp⟩).setConflict accountId recordId true

def pullItem (accountId : UserId) (serverRevision : Nat) (timestamp : String) (db : Database)
    (remote : CiphertextRecord) : Database :=
  match db.getForRecord accountId remote.recordId with
  | none => db.upsertRecord { remote with lastSyncedAt := timestamp, hasConflict := false, isDeleted := false }
  | some _ =>
    savePullConflict accountId remote.recordId (some remote.ciphertextEnvelope) serverRevision
      (some remote.itemRevision) timestamp db

def pullDelete (accountId : UserId) (serverRevision : Nat) (timestamp : String) (db : Database)
    (deleted : RemoteDeletedItem) : Database :=
  match db.getForRecord accountId deleted.recordId with
  | none => db.deleteRecord accountId deleted.recordId
  | some _ =>
    savePullConflict accountId deleted.recordId none serverRevision (some deleted.itemRevision) timestamp db

def applyPull (accountId : UserId) (items : List VaultItemCiphertext) (deletedItems : List RemoteDeletedItem)
    (serverRevision cursor : Nat) (timestamp : String) (db : Database) : Except Failure Database := do
  requireIdentifier P accountId "account"
  requireSafeRevision (some serverRevision)
  requireSafeRevision (some cursor)
  requireTimestamp P timestamp
  let items := items.map (parseCiphertextRecord accountId · timestamp)
  items.forM (validate P)
  deletedItems.forM fun d => do
    requireIdentifier P d.recordId "record"
    requireSafeRevision (some d.itemRevision)
    requireTimestamp P d.deletedAt
  let recordIds := items.map (·.recordId) ++ deletedItems.map (·.recordId)
  require recordIds.Nodup "Pull response contains duplicate records"
  let current := db.syncCursors.get? accountId
  if current.any fun c => serverRevision < c.serverRevision || cursor < c.serverCursor.getD 0 then
    throw (.repository "SYNC_REVISION_REGRESSED" "Sync cursor or revision moved backwards")
  let db := items.foldl (pullItem accountId serverRevision timestamp) db
  let db := deletedItems.foldl (pullDelete accountId serverRevision timestamp) db
  pure (db.upsertCursor accountId ⟨serverRevision, some timestamp, some cursor⟩)

/-! ## Conflicts -/

structure SyncConflict extends SyncConflictEntity where
  recordId : ItemId
deriving DecidableEq, Repr

def saveConflicts (accountId : UserId) (conflicts : List SyncConflict) (db : Database) : Except Failure Database := do
  conflicts.forM fun c => validateConflict P accountId c.recordId c.toSyncConflictEntity
  let db := conflicts.foldl (fun db c => db.upsertConflict accountId c.recordId c.toSyncConflictEntity) db
  pure (db.markConflicts accountId (conflicts.map (·.recordId)))

def setConflictIds (accountId : UserId) (recordIds : List ItemId) (db : Database) : Except Failure Database := do
  requireIdentifier P accountId "account"
  recordIds.forM (requireIdentifier P · "record")
  pure ((db.clearConflictFlags accountId).markConflicts accountId recordIds)

inductive Resolution
  | keepLocal
  | acceptRemote
  | createCopy (replacement : Option VaultItemCiphertext) (clientMutationId : Option MutationId)
  | skip
deriving DecidableEq, Repr

def applyRemoteConflict (accountId : UserId) (recordId : ItemId) (conflict : SyncConflictEntity) (db : Database) :
    Except Failure Database :=
  match conflict.remoteCiphertextEnvelope with
  | none => pure (db.deleteRecord accountId recordId)
  | some remote => do
    let record ← recordFromEnvelope P accountId remote conflict.createdAt
    pure (db.upsertRecord { record with hasConflict := false })

def keepLocal (readings : Readings) (accountId : UserId) (recordId : ItemId) (conflict : SyncConflictEntity)
    (db : Database) : Except Failure Database := do
  let pending := db.getForRecord accountId recordId
  let stored ← orThrow "ITEM_NOT_FOUND" "Local conflict item no longer exists" (db.getRecord accountId recordId)
  let operation : OperationKind := (pending.map (·.operation)).getD (if stored.isDeleted then .delete else .upsert)
  let ciphertextEnvelope := if operation = .upsert then some stored.ciphertextEnvelope else none
  pure ((((db.deleteForRecord accountId recordId).upsertPending
    ⟨accountId, readings.randomUUID 0, recordId, operation, conflict.serverItemRevision.getD 0, ciphertextEnvelope,
      readings.now⟩).setConflict accountId recordId false).deleteConflict accountId recordId)

def acceptRemote (accountId : UserId) (recordId : ItemId) (conflict : SyncConflictEntity) (db : Database) :
    Except Failure Database := do
  let db ← applyRemoteConflict P accountId recordId conflict db
  pure ((db.deleteForRecord accountId recordId).deleteConflict accountId recordId)

def createCopy (readings : Readings) (accountId : UserId) (recordId : ItemId)
    (replacement : Option VaultItemCiphertext) (clientMutationId : Option MutationId) (conflict : SyncConflictEntity)
    (db : Database) : Except Failure Database := do
  let item ← requireNotNull "Encrypted replacement is required" replacement
  let copy := parseCiphertextRecord accountId item readings.now
  let mutationId ← requireNotNull "Client mutation identifier is required" clientMutationId
  require (copy.recordId ≠ recordId) FAILED_REQUIREMENT
  validate P copy
  requireUuid P mutationId "client mutation"
  let db ← applyRemoteConflict P accountId recordId conflict db
  pure ((((db.deleteForRecord accountId recordId).upsertRecord { copy with hasConflict := false }).upsertPending
    ⟨accountId, mutationId, copy.recordId, .upsert, 0, some copy.ciphertextEnvelope, readings.now⟩).deleteConflict
      accountId recordId)

def resolveConflict (readings : Readings) (accountId : UserId) (recordId : ItemId) (resolution : Resolution)
    (db : Database) : Except Failure Database := do
  requireIdentifier P accountId "account"
  requireIdentifier P recordId "record"
  let conflict ← orThrow "CONFLICT_NOT_FOUND" "Sync conflict no longer exists"
    (db.syncConflicts.get? (accountId, recordId))
  match resolution with
  | .keepLocal => keepLocal readings accountId recordId conflict db
  | .acceptRemote => acceptRemote P accountId recordId conflict db
  | .createCopy replacement clientMutationId =>
    createCopy P readings accountId recordId replacement clientMutationId conflict db
  | .skip => pure (db.setConflictStatus accountId recordId "SKIPPED")

/-! ## Backups -/

/-- An item of a crypto-core backup, with what `encryptItem` made of it. -/
structure ImportedItem where
  id : ItemId
  itemType : String
  createdAt : String
  updatedAt : String
  encryptedItemKey : CiphertextEnvelope
  encryptedPayload : CiphertextEnvelope
deriving DecidableEq, Repr

def ImportedItem.record (readings : Readings) (accountId : UserId) (item : ImportedItem) : CiphertextRecord where
  accountId := accountId
  recordId := item.id
  ciphertextEnvelope :=
    ⟨item.id, accountId, 0, item.createdAt, item.updatedAt, item.encryptedItemKey, item.encryptedPayload, []⟩
  itemRevision := 0
  lastSyncedAt := readings.now
  hasConflict := false
  itemType := some item.itemType
  isDeleted := false

def importRecord (readings : Readings) (db : Database) (record : CiphertextRecord × Nat) : Database :=
  (db.upsertRecord record.1).upsertPending
    ⟨record.1.accountId, readings.randomUUID record.2, record.1.recordId, .upsert, 0,
      some record.1.ciphertextEnvelope, readings.now⟩

/-- From the decrypted backup on; the number of items is the answer. -/
def importCryptoCoreBackup (readings : Readings) (accountId : UserId) (items : List ImportedItem) (db : Database) :
    Except Failure (Database × Nat) := do
  requireIdentifier P accountId "account"
  require (items.length ≤ MAX_CRYPTO_CORE_BACKUP_ITEMS) FAILED_REQUIREMENT
  items.forM fun item => do
    requireUuid P item.id "record"
    requireTimestamp P item.createdAt
    requireTimestamp P item.updatedAt
  let records := items.map (·.record readings accountId)
  records.forM (validate P)
  let recordIds := records.map (·.recordId)
  require recordIds.Nodup "Backup contains duplicate items"
  -- nothing is overwritten, not even a tombstone
  require (records.all fun r => (db.getRecord accountId r.recordId).isNone)
    "Backup contains an item already present in this vault"
  pure (records.zipIdx.foldl (importRecord readings) db, records.length)

structure BackupItem where
  recordId : ItemId
  ciphertext : VaultItemCiphertext
  itemRevision : Nat
  lastSyncedAt : String
  isDeleted : Bool
deriving DecidableEq, Repr

/-- The plaintext of an encrypted backup. The crypto core opens it for the
account it was made for and for no other. -/
structure Backup where
  createdAt : String
  items : List BackupItem
  pendingMutations : List PendingMutationEntity
  sync : Option SyncCursorEntity
deriving DecidableEq, Repr

def createEncryptedBackup (readings : Readings) (accountId : UserId) (db : Database) : Except Failure Backup := do
  requireIdentifier P accountId "account"
  if !(db.unresolvedConflicts accountId).isEmpty then
    throw (.repository "BACKUP_CONFLICTS_PRESENT" "Resolve sync conflicts before creating a backup")
  pure {
    createdAt := readings.now
    items := (db.listIncludingTombstones accountId).map fun r =>
      ⟨r.1, r.2.ciphertextEnvelope, r.2.itemRevision, r.2.lastSyncedAt, r.2.isDeleted⟩
    pendingMutations := db.listPending accountId
    sync := db.syncCursors.get? accountId }

def BackupItem.record (accountId : UserId) (item : BackupItem) : CiphertextRecord :=
  ⟨⟨item.ciphertext, item.itemRevision, item.lastSyncedAt, false, none, item.isDeleted⟩, accountId, item.recordId⟩

def checkBackupMutation (items : List CiphertextRecord) (mutation : PendingMutationEntity) : Except Failure Unit := do
  requireUuid P mutation.clientMutationId "client mutation"
  requireIdentifier P mutation.recordId "record"
  requireSafeRevision (some mutation.baseItemRevision)
  require ((mutation.operation = .upsert) = mutation.ciphertextEnvelope.isSome)
    "Encrypted backup mutation payload is invalid"
  let item ← requireNotNull "Encrypted backup mutation references a missing record"
    (items.find? (·.recordId = mutation.recordId))
  require (mutation.ciphertextEnvelope.all (· = item.ciphertextEnvelope)) FAILED_REQUIREMENT
  requireTimestamp P mutation.createdAt

def restoreEncryptedBackup (accountId : UserId) (backup : Backup) (db : Database) : Except Failure Database := do
  requireIdentifier P accountId "account"
  requireTimestamp P backup.createdAt
  require (backup.items.length ≤ MAX_ENCRYPTED_BACKUP_ITEMS) FAILED_REQUIREMENT
  let items := backup.items.map (·.record accountId)
  items.forM (validate P)
  let recordIds := items.map (·.recordId)
  require recordIds.Nodup "Encrypted backup contains duplicate records"
  require (backup.pendingMutations.length ≤ MAX_ENCRYPTED_BACKUP_ITEMS) FAILED_REQUIREMENT
  backup.pendingMutations.forM (checkBackupMutation P items)
  let pending := backup.pendingMutations.map fun m => { m with accountId }
  require (pending.map (·.clientMutationId)).Nodup FAILED_REQUIREMENT
  require (pending.map (·.recordId)).Nodup FAILED_REQUIREMENT
  match backup.sync with
  | some cursor => validateCursor P accountId cursor
  | none => pure ()
  -- the account's rows are replaced as a whole
  let db := items.foldl Database.upsertRecord (db.clear accountId)
  let db := pending.foldl Database.upsertPending db
  match backup.sync with
  | some cursor => pure (db.upsertCursor accountId cursor)
  | none => pure db

def clearCiphertexts (accountId : UserId) (db : Database) : Except Failure Database := do
  requireIdentifier P accountId "account"
  pure (db.clear accountId)

end

end ZeroVault.Mobile

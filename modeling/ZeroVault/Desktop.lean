import ZeroVault.VaultItems
import ZeroVault.VaultRoutes

/-!
# The desktop client

Its ciphertext store (the SQLite one of the app), its HTTP client, the bodies its
writes send and its pull. Encryption is the browser clients' `Runtime`: the
desktop derives the same search tokens.
-/

namespace ZeroVault.Desktop

open Lib
open Browser (Runtime VaultItem generateSearchTokens)

/-! ## The ciphertext store -/

structure StoredItem where
  itemId : ItemId
  ciphertext : VaultItemCiphertext
  itemRevision : Nat
  lastSyncedAt : String
  hasConflict : Bool
  conflictServerItemRevision : Option Nat
deriving DecidableEq, Repr

structure CiphertextStore where
  items : Table ItemId StoredItem
  serverRevision : Nat
  lastSyncedAt : Option String

namespace CiphertextStore

/-- The `item_id` of a row is its key. -/
def getById (store : CiphertextStore) (itemId : ItemId) : Option StoredItem :=
  (store.items.get? itemId).map fun item => { item with itemId }

theorem getById_itemId {store : CiphertextStore} {itemId : ItemId} {item : StoredItem}
    (h : store.getById itemId = some item) : item.itemId = itemId := by
  obtain ⟨x, -, rfl⟩ := Option.map_eq_some_iff.mp h
  rfl

def upsert (store : CiphertextStore) (item : StoredItem) : CiphertextStore :=
  { store with items := store.items.set item.itemId item }

def delete (store : CiphertextStore) (itemId : ItemId) : CiphertextStore :=
  { store with items := store.items.erase itemId }

def setServerRevision (store : CiphertextStore) (revision : Nat) : CiphertextStore :=
  { store with serverRevision := revision }

def setLastSyncedAt (store : CiphertextStore) (timestamp : String) : CiphertextStore :=
  { store with lastSyncedAt := some timestamp }

/-- `SELECT item_id FROM ciphertext_items WHERE has_conflict = 1`. -/
def getConflictIds (store : CiphertextStore) : List ItemId :=
  (store.items.select fun _ item => item.hasConflict).map Prod.fst

def clearConflicts (store : CiphertextStore) : CiphertextStore :=
  { store with items := store.items.updateWhere (fun _ _ => true) fun item => { item with hasConflict := false } }

def markConflict (store : CiphertextStore) (itemId : ItemId) : CiphertextStore :=
  { store with items := store.items.updateWhere (fun k _ => k = itemId) fun item => { item with hasConflict := true } }

/-- `db_set_conflict_ids`: all marks are cleared, then the rows of the ids marked. -/
def setConflictIds (store : CiphertextStore) (ids : List ItemId) : CiphertextStore :=
  ids.foldl markConflict store.clearConflicts

end CiphertextStore

/-! ## The HTTP client -/

/-- What a promise rejects with: an `Error`, or a value that is none. -/
inductive Thrown
  | error (message : String)
  | other
deriving DecidableEq, Repr

/-- What `fetch` comes to. -/
inductive Fetch (α : Type) : Type where
  | aborted
  | failed
  | answered (response : Response α)
deriving DecidableEq, Repr

/-- The answer of a well-formed body; `none` for a body of another shape. -/
def request {α : Type} (acceptStatuses : List Nat) : Fetch α → Except Thrown (Option α)
  | .aborted => .error (.error "request_timeout")
  | .failed => .error (.error "network_error")
  | .answered response =>
    if ¬ (200 ≤ response.status ∧ response.status < 300) ∧ response.status ∉ acceptStatuses then
      if response.status = 401 then .error (.error "unauthorized")
      else if response.status = 403 then .error (.error "forbidden")
      else .error (.error (response.error.getD ("request_failed_" ++ toString response.status)))
    else .ok response.answer

/-- A property of an answer that is not there is read. -/
def typeError : Thrown := .error "Cannot read properties of undefined"

def answerOf {α : Type} (acceptStatuses : List Nat) (fetched : Fetch α) : Except Thrown α := do
  let answer ← request acceptStatuses fetched
  match answer with
  | some answer => pure answer
  | none => throw typeError

/-! ## The bodies of the writes -/

section
variable {κ : Type} (R : Runtime κ) (vaultKey : κ)

/-- The literal that the writes build: it names no mutation. -/
def encryptedUpsert (item : VaultItem) (nonces : String) (ownerUserId : UserId) (revision : Nat)
    (createdAt updatedAt : String) (baseItemRevision : Nat) : WireUpsert :=
  let encrypted := R.encryptItem vaultKey item nonces
  { id := item.id
    ownerUserId
    revision
    createdAt
    updatedAt
    encryptedItemKey := encrypted.encryptedItemKey
    encryptedPayload := encrypted.encryptedPayload
    encryptedSearchTokens := generateSearchTokens R ⟨vaultKey, []⟩ item
    baseItemRevision
    clientMutationId := none
    ciphertextHash := none }

def upsertPlan (baseRevision : Nat) (upsert : WireUpsert) : WirePlan := ⟨baseRevision, [upsert], []⟩

/-- `DesktopApiClient.deleteItem`. -/
def deletePlan (baseRevision : Nat) (itemId : ItemId) (revision : Nat) (ownerUserId : UserId) (now : String) : WirePlan :=
  ⟨baseRevision, [], [⟨itemId, ownerUserId, revision, now, none⟩]⟩

def addItemPlan (store : CiphertextStore) (item : VaultItem) (nonces : String) (ownerUserId : UserId) (now : String) :
    WirePlan :=
  upsertPlan store.serverRevision (encryptedUpsert R vaultKey item nonces ownerUserId 0 now now 0)

/-- `existing?.itemRevision ?? 0`. -/
def currentRevision (existing : Option StoredItem) : Nat := (existing.map (·.itemRevision)).getD 0

def createdAtOf (existing : Option StoredItem) (now : String) : String :=
  (existing.map (·.ciphertext.createdAt)).getD now

/-- The upsert of `updateItem` and of an entry of the offline queue. -/
def updateUpsert (existing : Option StoredItem) (item : VaultItem) (nonces : String) (ownerUserId : UserId)
    (now : String) : WireUpsert :=
  encryptedUpsert R vaultKey item nonces ownerUserId (currentRevision existing + 1) (createdAtOf existing now) now
    (currentRevision existing)

def updateItemPlan (store : CiphertextStore) (item : VaultItem) (nonces : String) (ownerUserId : UserId)
    (now : String) : WirePlan :=
  upsertPlan store.serverRevision (updateUpsert R vaultKey (store.getById item.id) item nonces ownerUserId now)

def deleteItemPlan (store : CiphertextStore) (itemId : ItemId) (ownerUserId : UserId) (now : String) : WirePlan :=
  deletePlan store.serverRevision itemId (currentRevision (store.getById itemId)) ownerUserId now

/-- `resolveKeepLocal`: an item that is not stored is not pushed. -/
def keepLocalPlan (store : CiphertextStore) (localItem : VaultItem) (nonces : String) (ownerUserId : UserId)
    (now : String) : Option WirePlan :=
  (store.getById localItem.id).map fun stored =>
    let serverItemRevision := stored.conflictServerItemRevision.getD stored.itemRevision
    upsertPlan store.serverRevision (encryptedUpsert R vaultKey localItem nonces ownerUserId (serverItemRevision + 1)
      stored.ciphertext.createdAt now serverItemRevision)

/-- `resolveCreateCopy`: the copy carries no search tokens. -/
def createCopyPlan (store : CiphertextStore) (localItem : VaultItem) (clonedItemId : ItemId) (nonces : String)
    (ownerUserId : UserId) (now : String) : WirePlan :=
  let clonedItem := { localItem with id := clonedItemId, title := localItem.title ++ " (副本)", createdAt := now,
                                     updatedAt := now }
  upsertPlan store.serverRevision
    { encryptedUpsert R vaultKey clonedItem nonces ownerUserId 0 now now 0 with encryptedSearchTokens := [] }

end

/-! ## The pull -/

structure SyncResult where
  pulled : Nat
  conflicts : List ItemId
  serverRevision : Nat
deriving DecidableEq, Repr

def pulledItem (now : String) (item : VaultItemCiphertext) : StoredItem :=
  ⟨item.id, item, item.revision, now, false, none⟩

def processPullResponse (now : String) (response : ItemLevelSyncPullResponse) (store : CiphertextStore) :
    CiphertextStore × SyncResult :=
  let store := response.items.foldl (fun store item => store.upsert (pulledItem now item)) store
  let store := response.deletedItemIds.foldl CiphertextStore.delete store
  let store := (store.setServerRevision response.serverRevision).setLastSyncedAt now
  let existingConflicts := store.getConflictIds
  (store.setConflictIds existingConflicts, ⟨response.items.length, existingConflicts, response.serverRevision⟩)

/-- The query of `pullItems`. -/
def pullQuery (serverRevision : Option Nat) : ItemSyncQuery := ⟨none, none, serverRevision.map toString⟩

/-- `pullAll()` against a Worker that answers from `db`. -/
def pullAll (F : Formats) (userId : UserId) (now : String) (db : Db) (store : CiphertextStore) :
    Except Thrown (CiphertextStore × SyncResult) := do
  let revision := store.serverRevision
  let query := pullQuery (if 0 < revision then some revision else none)
  let response ← answerOf [] (.answered ((getItemSync F userId query).run db).2)
  pure (processPullResponse now response store)

end ZeroVault.Desktop

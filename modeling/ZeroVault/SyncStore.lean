import ZeroVault.Db
import ZeroVault.Interleave

/-!
# The sync paths of the D1 store

`pushVault` replaces whole items under one server revision, `pushItemLevelSync`
applies single mutations with their receipts, `pullItemLevelSync` pages through
the change feed. Every read is its own access; a batch is one transaction.
-/

namespace ZeroVault

open Lib

/-! ## Statements -/

inductive SyncStmt
  | claimRevision (userId : UserId) (revision : Nat)
  | setServerRevision (userId : UserId) (revision : Nat)
  | upsertVaultItem (userId : UserId) (item : VaultItemCiphertext)
  | insertHistory (id : String) (userId : UserId) (item : VaultItemCiphertext)
  | insertUpsertChange (userId : UserId) (item : VaultItemCiphertext)
  | markDeleted (userId : UserId) (id : ItemId) (revision : Nat) (deletedAt : String)
  | markDeletedAtBase (userId : UserId) (id : ItemId) (revision : Nat) (deletedAt : String) (base : Nat)
  | insertDeleteChangeIfDeleted (userId : UserId) (id : ItemId) (revision : Nat) (deletedAt : String)
  | insertDeleteChange (userId : UserId) (id : ItemId) (revision : Nat) (deletedAt : String)
  | insertMutation (userId : UserId) (mutationId : MutationId) (row : ItemSyncMutationRow)
deriving DecidableEq, Repr

def VaultItemRow.markDeleted (row : VaultItemRow) (revision : Nat) (deletedAt : String) : VaultItemRow :=
  { row with revision := revision, deletedAt := some deletedAt, updatedAt := deletedAt }

def VaultItemRow.ofItem (userId : UserId) (item : VaultItemCiphertext) : VaultItemRow where
  userId := userId
  revision := item.revision
  createdAt := item.createdAt
  updatedAt := item.updatedAt
  encryptedItemKey := item.encryptedItemKey
  encryptedPayload := item.encryptedPayload
  encryptedSearchTokens := item.encryptedSearchTokens
  deletedAt := none

/-- `DO UPDATE SET ...`: everything but the owner and the creation time. -/
def VaultItemRow.overwrite (row : VaultItemRow) (item : VaultItemCiphertext) : VaultItemRow :=
  { VaultItemRow.ofItem row.userId item with createdAt := row.createdAt }

/-- `INSERT INTO vault_items ... ON CONFLICT(id) DO UPDATE ... WHERE
vault_items.user_id = excluded.user_id`. -/
def upsertVaultItem (db : Db) (userId : UserId) (item : VaultItemCiphertext) : Option Db :=
  match db.vaultItems.get? item.id with
  | none =>
    if db.users.contains userId then
      some { db with vaultItems := db.vaultItems.set item.id (.ofItem userId item) }
    else none
  | some row =>
    if row.userId = userId then some { db with vaultItems := db.vaultItems.set item.id (row.overwrite item) }
    else some db

def appendChange (db : Db) (userId : UserId) (itemId : ItemId) (itemRevision : Nat) (change : ItemLevelChange) :
    Option Db :=
  if db.users.contains userId then
    some { db with itemSyncChanges := db.itemSyncChanges.append userId itemId itemRevision change }
  else none

def SyncStmt.exec : SyncStmt → Db → Option Db
  -- the primary key refuses a revision that was claimed before
  | .claimRevision userId revision, db =>
    if db.users.contains userId then
      (db.itemSyncRevisionClaims.insert (userId, revision) ()).map fun t => { db with itemSyncRevisionClaims := t }
    else none
  | .setServerRevision userId revision, db =>
    some { db with
      users := db.users.updateWhere (fun id _ => id = userId) fun row => { row with serverRevision := revision } }
  | .upsertVaultItem userId item, db => ZeroVault.upsertVaultItem db userId item
  | .insertHistory id userId item, db =>
    if db.vaultItems.contains item.id then
      (db.vaultItemHistory.insert id ⟨item.id, userId, item.revision, item⟩).map fun t =>
        { db with vaultItemHistory := t }
    else none
  | .insertUpsertChange userId item, db => appendChange db userId item.id item.revision (.upsert item)
  | .markDeleted userId id revision deletedAt, db =>
    some { db with
      vaultItems := db.vaultItems.updateWhere (fun k row => k = id && row.userId = userId)
        fun row => row.markDeleted revision deletedAt }
  | .markDeletedAtBase userId id revision deletedAt base, db =>
    some { db with
      vaultItems := db.vaultItems.updateWhere (fun k row => k = id && row.userId = userId && row.revision = base)
        fun row => row.markDeleted revision deletedAt }
  -- an `INSERT … SELECT`: without a deleted row nothing is appended
  | .insertDeleteChangeIfDeleted userId id revision deletedAt, db =>
    match db.vaultItems.get? id with
    | some row =>
      if row.userId = userId ∧ row.deletedAt.isSome then
        appendChange db userId id row.revision (.delete id revision deletedAt)
      else some db
    | none => some db
  | .insertDeleteChange userId id revision deletedAt, db =>
    appendChange db userId id revision (.delete id revision deletedAt)
  | .insertMutation userId mutationId row, db =>
    if db.users.contains userId then
      (db.itemSyncMutations.insert (userId, mutationId) row).map fun t => { db with itemSyncMutations := t }
    else none

abbrev SyncProg := Prog Db (Access SyncStmt)

def syncBatch (stmts : List SyncStmt) : SyncProg Bool := batch SyncStmt.exec stmts

/-! ## Reads -/

def findUserById (userId : UserId) (db : Db) : Option UserRow := db.users.get? userId

def rowToVaultItem (id : ItemId) (row : VaultItemRow) : VaultItemCiphertext where
  id := id
  ownerUserId := row.userId
  revision := row.revision
  createdAt := row.createdAt
  updatedAt := row.updatedAt
  encryptedItemKey := row.encryptedItemKey
  encryptedPayload := row.encryptedPayload
  encryptedSearchTokens := row.encryptedSearchTokens

inductive SyncError
  | userNotFound
  | itemOwnerMismatch
  | syncRevisionClaimConflict
  | databaseError
deriving DecidableEq, Repr

/-- Clock readings and random ids, by the position or mutation that asks. -/
structure Env where
  now : String → String
  id : String → String

/-! ## Whole-vault reads -/

structure SyncPullResponse where
  serverRevision : Nat
  items : List VaultItemCiphertext
  deletedItemIds : List ItemId
deriving DecidableEq, Repr

def pullVault (userId : UserId) : SyncProg SyncPullResponse := do
  let user ← Prog.query .query (findUserById userId)
  let itemRows ← Prog.query .query fun db => db.vaultItems.select fun _ row => row.userId = userId && row.deletedAt.isNone
  let deletedRows ← Prog.query .query fun db =>
    db.vaultItems.select fun _ row => row.userId = userId && row.deletedAt.isSome
  pure {
    serverRevision := (user.map (·.serverRevision)).getD 0
    items := itemRows.map fun r => rowToVaultItem r.1 r.2
    deletedItemIds := deletedRows.map Prod.fst }

def getEncryptedItem (userId : UserId) (itemId : ItemId) : SyncProg (Option VaultItemCiphertext) :=
  Prog.query .query fun db =>
    ((db.vaultItems.get? itemId).filter fun row => row.userId = userId && row.deletedAt.isNone).map
      (rowToVaultItem itemId)

/-! ## The backfill of the change feed -/

/-- The feed entry that migration 0006 writes for a row. -/
def migratedChange (id : ItemId) (row : VaultItemRow) : ItemLevelChange :=
  match row.deletedAt with
  | none => .upsert (rowToVaultItem id row)
  | some deletedAt => .delete id row.revision deletedAt

def migratedChanges (rows : List (ItemId × VaultItemRow)) : ItemSyncChanges where
  rows := (rows.zipIdx 1).map fun p => ⟨p.2, p.1.2.userId, p.1.1, p.1.2.revision, migratedChange p.1.1 p.1.2⟩
  seq := rows.length

/-- `0006_mobile_device_sync.sql`. -/
def Db.migrate0006 (db : Db) : Db :=
  { db with
    itemSyncChanges := migratedChanges db.vaultItems.rows
    itemSyncMutations := ∅
    itemSyncRevisionClaims := ∅ }

/-! ## Whole-vault push -/

inductive PushResult
  | ok (serverRevision : Nat)
  | syncConflict (serverRevision : Nat)
deriving DecidableEq, Repr

/-- The owner checks of `pushVault`, one read for each item. -/
def checkOwners (userId : UserId) : List VaultItemCiphertext → SyncProg Bool
  | [] => pure true
  | item :: items => do
    if item.ownerUserId ≠ userId then pure false
    else
      let existing ← Prog.query .query fun db => db.vaultItems.get? item.id
      if existing.any (·.userId ≠ userId) then pure false else checkOwners userId items

def legacyUpsertStmts (env : Env) (userId : UserId) (nextRevision : Nat) (item : VaultItemCiphertext) (i : Nat) :
    List SyncStmt :=
  let nextItem := { item with revision := nextRevision }
  [.upsertVaultItem userId nextItem, .insertHistory (env.id (toString i)) userId nextItem,
    .insertUpsertChange userId nextItem]

def legacyDeleteStmts (userId : UserId) (nextRevision : Nat) (ts : String) (id : ItemId) : List SyncStmt :=
  [.markDeleted userId id nextRevision ts, .insertDeleteChangeIfDeleted userId id nextRevision ts]

def pushVaultStmts (env : Env) (userId : UserId) (nextRevision : Nat) (request : SyncPushRequest) : List SyncStmt :=
  .claimRevision userId nextRevision :: .setServerRevision userId nextRevision ::
    (request.upserts.zipIdx.flatMap (fun p => legacyUpsertStmts env userId nextRevision p.1 p.2) ++
      request.deletes.flatMap (legacyDeleteStmts userId nextRevision (env.now "ts")))

def pushVault (env : Env) (userId : UserId) (request : SyncPushRequest) :
    SyncProg (Except SyncError PushResult) := do
  let user ← Prog.query .query (findUserById userId)
  match user with
  | none => pure (.error .userNotFound)
  | some user =>
    let owned ← checkOwners userId request.upserts
    if !owned then pure (.error .itemOwnerMismatch)
    else if request.baseRevision ≠ user.serverRevision then pure (.ok (.syncConflict user.serverRevision))
    else
      let nextRevision := user.serverRevision + 1
      let committed ← syncBatch (pushVaultStmts env userId nextRevision request)
      if committed then pure (.ok (.ok nextRevision))
      else
        -- a batch that was rolled back is a conflict if the revision has moved on
        let latestUser ← Prog.query .query (findUserById userId)
        match latestUser with
        | some latest =>
          if latest.serverRevision ≠ user.serverRevision then pure (.ok (.syncConflict latest.serverRevision))
          else pure (.error .databaseError)
        | none => pure (.error .databaseError)

/-! ## Item-level push: one operation -/

inductive Operation
  | upsert (item : ItemLevelEncryptedUpsert)
  | delete (item : ItemLevelEncryptedDelete)
deriving DecidableEq, Repr

namespace Operation

def kind : Operation → OperationKind
  | upsert _ => .upsert
  | delete _ => .delete

def id : Operation → ItemId
  | upsert item => item.id
  | delete item => item.id

def ownerUserId : Operation → UserId
  | upsert item => item.ownerUserId
  | delete item => item.ownerUserId

def baseItemRevision : Operation → Nat
  | upsert item => item.baseItemRevision
  | delete item => item.baseItemRevision

def clientMutationId : Operation → MutationId
  | upsert item => item.clientMutationId
  | delete item => item.clientMutationId

def requestFingerprint : Operation → RequestFingerprint
  | upsert item =>
    .upsert item.id item.ownerUserId item.baseItemRevision item.createdAt item.updatedAt item.encryptedItemKey
      item.encryptedPayload item.encryptedSearchTokens item.ciphertextHash
  | delete item => .delete item.id item.ownerUserId item.baseItemRevision item.deletedAt

end Operation

def ItemLevelSyncPlan.operations (plan : ItemLevelSyncPlan) : List Operation :=
  plan.upserts.map .upsert ++ plan.deletes.map .delete

/-- What a push reads before it prepares its batch. -/
structure PushView where
  userId : UserId
  serverRevision : Nat
  baseRevision : Nat
  itemRowsById : ItemId → Option VaultItemRow
  receiptsById : MutationId → Option ItemSyncMutationRow

def PushView.nextRevision (view : PushView) : Nat := view.serverRevision + 1

def serverState (view : PushView) (itemId : ItemId) (row : Option VaultItemRow) : ItemLevelServerState :=
  match row with
  | none => .missing
  | some row =>
    if row.userId ≠ view.userId then .missing
    else match row.deletedAt with
      | some deletedAt => .deleted itemId row.revision deletedAt
      | none => .item (rowToVaultItem itemId row)

def conflictFor (view : PushView) (op : Operation) (reason : ConflictReason) : ItemLevelSyncConflict where
  itemId := op.id
  operation := op.kind
  reason := reason
  clientBaseRevision := op.baseItemRevision
  serverRevision := view.serverRevision
  serverItemRevision := ((view.itemRowsById op.id).filter (·.userId = view.userId)).map (·.revision)
  serverState := serverState view op.id (view.itemRowsById op.id)

/-- The `conflict` a fresh mutation meets, if any. -/
def freshConflict (view : PushView) (op : Operation) : Option ItemLevelSyncConflict :=
  let row := view.itemRowsById op.id
  let currentRevision := (row.map (·.revision)).getD 0
  if view.baseRevision > view.serverRevision then some (conflictFor view op .invalidServerRevision)
  else if row.any (·.userId ≠ view.userId) then some (conflictFor view op .itemOwnerMismatch)
  else if op.kind = .delete ∧ row.isNone then some (conflictFor view op .itemRevisionMismatch)
  else if op.baseItemRevision ≠ currentRevision then
    some (conflictFor view op
      (if currentRevision > op.baseItemRevision then .itemRevisionAdvanced else .itemRevisionMismatch))
  else none

def nextItem (view : PushView) (item : ItemLevelEncryptedUpsert) : VaultItemCiphertext where
  id := item.id
  ownerUserId := view.userId
  revision := view.nextRevision
  createdAt := ((view.itemRowsById item.id).map (·.createdAt)).getD item.createdAt
  updatedAt := item.updatedAt
  encryptedItemKey := item.encryptedItemKey
  encryptedPayload := item.encryptedPayload
  encryptedSearchTokens := item.encryptedSearchTokens

def applyStmts (env : Env) (view : PushView) : Operation → List SyncStmt
  | .upsert item =>
    [.upsertVaultItem view.userId (nextItem view item),
      .insertHistory (env.id item.clientMutationId) view.userId (nextItem view item),
      .insertUpsertChange view.userId (nextItem view item)]
  | .delete item =>
    if (view.itemRowsById item.id).isSome then
      [.markDeletedAtBase view.userId item.id view.nextRevision (env.now item.clientMutationId) item.baseItemRevision,
        .insertDeleteChange view.userId item.id view.nextRevision (env.now item.clientMutationId)]
    else []

/-! ## Item-level push: the loop -/

inductive PendingResult
  | applied (operation : OperationKind) (itemId : ItemId)
  | conflict (conflict : ItemLevelSyncConflict)
deriving DecidableEq, Repr

structure PendingReceipt where
  mutationId : MutationId
  requestFingerprint : RequestFingerprint
  result : PendingResult
deriving DecidableEq, Repr

/-- An entry of `conflicts`. A `pending` one is the very object of a pending
receipt, whose `serverRevision` is assigned after the loop. -/
inductive ConflictEntry
  | final (conflict : ItemLevelSyncConflict)
  | pending (conflict : ItemLevelSyncConflict)
deriving DecidableEq, Repr

structure PushState where
  conflicts : List ConflictEntry := []
  upsertedItemIds : List ItemId := []
  deletedItemIds : List ItemId := []
  mutationReceipts : List AppliedMutationReceipt := []
  stmts : List SyncStmt := []
  pendingReceipts : List PendingReceipt := []
  hasStateWrite : Bool := false

def PushState.noteItem (st : PushState) (kind : OperationKind) (itemId : ItemId) : PushState :=
  match kind with
  | .upsert => { st with upsertedItemIds := st.upsertedItemIds ++ [itemId] }
  | .delete => { st with deletedItemIds := st.deletedItemIds ++ [itemId] }

def replay (view : PushView) (op : Operation) (previous : ItemSyncMutationRow) (st : PushState) : PushState :=
  if previous.requestFingerprint ≠ op.requestFingerprint then
    { st with conflicts := st.conflicts ++ [.final (conflictFor view op .mutationIdReused)] }
  else match previous.result with
    | .conflict conflict => { st with conflicts := st.conflicts ++ [.final conflict] }
    | .applied kind itemId appliedRevision =>
      { st.noteItem kind itemId with
        mutationReceipts := st.mutationReceipts ++ [⟨op.clientMutationId, itemId, kind, appliedRevision⟩] }

def pushOperation (env : Env) (view : PushView) (st : PushState) (op : Operation) : Except SyncError PushState :=
  if op.ownerUserId ≠ view.userId then .error .itemOwnerMismatch
  else match view.receiptsById op.clientMutationId with
    -- a mutation that has a receipt is answered from it
    | some previous => .ok (replay view op previous st)
    | none =>
      match freshConflict view op with
      | some conflict =>
        .ok { st with
          conflicts := st.conflicts ++ [.pending conflict]
          pendingReceipts := st.pendingReceipts ++
            [⟨op.clientMutationId, op.requestFingerprint, .conflict conflict⟩] }
      | none =>
        let stmts := applyStmts env view op
        .ok { st.noteItem op.kind op.id with
          stmts := st.stmts ++ stmts
          hasStateWrite := st.hasStateWrite || !stmts.isEmpty
          pendingReceipts := st.pendingReceipts ++
            [⟨op.clientMutationId, op.requestFingerprint, .applied op.kind op.id⟩] }

def pushLoop (env : Env) (view : PushView) (ops : List Operation) : Except SyncError PushState :=
  ops.foldlM (pushOperation env view) {}

/-! ## Item-level push: the batch and the answer -/

def PushState.serverRevision (view : PushView) (st : PushState) : Nat :=
  if st.hasStateWrite then view.nextRevision else view.serverRevision

def PendingResult.result (serverRevision : Nat) : PendingResult → ReceiptResult
  | .applied operation itemId => .applied operation itemId serverRevision
  | .conflict c => .conflict { c with serverRevision := serverRevision }

def PendingReceipt.receipt? (serverRevision : Nat) (r : PendingReceipt) : Option AppliedMutationReceipt :=
  match r.result with
  | .applied operation itemId => some ⟨r.mutationId, itemId, operation, serverRevision⟩
  | .conflict _ => none

def ConflictEntry.conflict (serverRevision : Nat) : ConflictEntry → ItemLevelSyncConflict
  | .final c => c
  | .pending c => { c with serverRevision := serverRevision }

def PushState.receiptStmts (view : PushView) (st : PushState) : List SyncStmt :=
  st.pendingReceipts.map fun r =>
    .insertMutation view.userId r.mutationId ⟨r.requestFingerprint, r.result.result (st.serverRevision view)⟩

def PushState.batchStmts (view : PushView) (st : PushState) : List SyncStmt :=
  if st.hasStateWrite then
    .claimRevision view.userId view.nextRevision :: (st.stmts ++ st.receiptStmts view) ++
      [.setServerRevision view.userId view.nextRevision]
  else st.stmts ++ st.receiptStmts view

def PushState.pushResult (view : PushView) (st : PushState) : ItemLevelSyncPushResult where
  serverRevision := st.serverRevision view
  applied := {
    upsertedItemIds := st.upsertedItemIds
    deletedItemIds := st.deletedItemIds
    mutationReceipts :=
      st.mutationReceipts ++ st.pendingReceipts.filterMap (·.receipt? (st.serverRevision view)) }
  conflicts := st.conflicts.map (·.conflict (st.serverRevision view))

/-- After an aborted batch: has another writer moved the revision or claimed
one of the pending receipts? -/
def pushAborted (view : PushView) (st : PushState) : SyncProg (Except SyncError ItemLevelSyncPushResult) :=
  let claimed : SyncProg (Except SyncError ItemLevelSyncPushResult) :=
    if st.pendingReceipts.isEmpty then pure (.error .databaseError)
    else do
      let claimedReceipt ← Prog.query .query fun db =>
        st.pendingReceipts.any fun r => db.itemSyncMutations.contains (view.userId, r.mutationId)
      pure (.error (if claimedReceipt then .syncRevisionClaimConflict else .databaseError))
  if st.hasStateWrite then do
    let latestUser ← Prog.query .query (findUserById view.userId)
    if latestUser.any (·.serverRevision ≠ view.serverRevision) then pure (.error .syncRevisionClaimConflict)
    else claimed
  else claimed

def pushPrepared (view : PushView) (st : PushState) : SyncProg (Except SyncError ItemLevelSyncPushResult) :=
  if (st.batchStmts view).isEmpty then pure (.ok (st.pushResult view))
  else do
    let committed ← syncBatch (st.batchStmts view)
    if committed then pure (.ok (st.pushResult view)) else pushAborted view st

def selectItemRows (ids : List ItemId) (db : Db) (id : ItemId) : Option VaultItemRow :=
  if id ∈ ids then db.vaultItems.get? id else none

def selectReceipts (userId : UserId) (ids : List MutationId) (db : Db) (id : MutationId) :
    Option ItemSyncMutationRow :=
  if id ∈ ids then db.itemSyncMutations.get? (userId, id) else none

def pushItemLevelSyncOnce (env : Env) (userId : UserId) (plan : ItemLevelSyncPlan) :
    SyncProg (Except SyncError ItemLevelSyncPushResult) := do
  let user ← Prog.query .query (findUserById userId)
  match user with
  | none => pure (.error .userNotFound)
  | some user =>
    let ops := plan.operations
    let view itemRowsById receiptsById : PushView :=
      ⟨userId, user.serverRevision, plan.baseRevision, itemRowsById, receiptsById⟩
    let prepared (view : PushView) : SyncProg (Except SyncError ItemLevelSyncPushResult) :=
      match pushLoop env view ops with
      | .error e => pure (.error e)
      | .ok st => pushPrepared view st
    -- without operations neither rows nor receipts are looked up
    if ops.isEmpty then prepared (view (fun _ => none) fun _ => none)
    else
      let itemRowsById ← Prog.query .query (selectItemRows (ops.map (·.id)))
      let receiptsById ← Prog.query .query (selectReceipts userId (ops.map (·.clientMutationId)))
      prepared (view itemRowsById receiptsById)

def MAX_SYNC_REVISION_RETRIES : Nat := 2

/-- Attempts left after this one; only a lost claim is tried again. -/
def pushAttempts (env : Nat → Env) (userId : UserId) (plan : ItemLevelSyncPlan) :
    Nat → SyncProg (Except SyncError ItemLevelSyncPushResult)
  | 0 => pushItemLevelSyncOnce (env 0) userId plan
  | left + 1 => do
    let result ← pushItemLevelSyncOnce (env (left + 1)) userId plan
    match result with
    | .error .syncRevisionClaimConflict => pushAttempts env userId plan left
    | result => pure result

def pushItemLevelSync (env : Nat → Env) (userId : UserId) (plan : ItemLevelSyncPlan) :
    SyncProg (Except SyncError ItemLevelSyncPushResult) :=
  pushAttempts env userId plan MAX_SYNC_REVISION_RETRIES

/-! ## Item-level pull -/

def ItemSyncChanges.page (t : ItemSyncChanges) (userId : UserId) (cursor limit : Nat) : List ItemSyncChangeRow :=
  (t.rows.filter fun row => row.userId = userId && cursor < row.cursor).take limit

/-- The last change of each item, in the order of the items' first changes. -/
def latestByItemId (changes : List ItemLevelSyncChange) : Table ItemId ItemLevelSyncChange :=
  changes.foldl (fun latest c => latest.set c.change.itemId c) ∅

def pullResponse (F : Formats) (serverRevision cursor safeLimit : Nat) (rows : List ItemSyncChangeRow) :
    ItemLevelSyncPullResponse :=
  let selected := rows.take safeLimit
  let changes := (selected.map fun row => (⟨row.cursor, row.change⟩ : ItemLevelSyncChange)).filter
    (itemLevelSyncChangeSchema F)
  let latestChanges := (latestByItemId changes).rows.map Prod.snd
  let deletedItems := latestChanges.filterMap fun c =>
    match c.change with
    | .upsert _ => none
    | .delete id revision deletedAt => some ⟨id, revision, deletedAt⟩
  { serverRevision
    cursor := (selected.getLast?.map (·.cursor)).getD cursor
    -- one row more than the page's was read
    hasMore := rows.length > safeLimit
    changes
    items := latestChanges.filterMap fun c =>
      match c.change with
      | .upsert item => some item
      | .delete .. => none
    deletedItemIds := deletedItems.map (·.id)
    deletedItems }

def pullItemLevelSync (F : Formats) (userId : UserId) (cursor limit : Nat) :
    SyncProg (Except SyncError ItemLevelSyncPullResponse) := do
  let user ← Prog.query .query (findUserById userId)
  match user with
  | none => pure (.error .userNotFound)
  | some user =>
    let safeLimit := max 1 (min limit 500)
    let rows ← Prog.query .query fun db => db.itemSyncChanges.page userId cursor (safeLimit + 1)
    pure (.ok (pullResponse F user.serverRevision cursor safeLimit rows))

/-! ## Calls -/

inductive SyncCall
  | pushVault (env : Env) (userId : UserId) (request : SyncPushRequest)
  | pushItemLevelSync (env : Nat → Env) (userId : UserId) (plan : ItemLevelSyncPlan)

inductive SyncResult
  | pushVault (result : Except SyncError PushResult)
  | pushItemLevelSync (result : Except SyncError ItemLevelSyncPushResult)

def SyncCall.userId : SyncCall → UserId
  | pushVault _ userId _ => userId
  | pushItemLevelSync _ userId _ => userId

def SyncCall.itemIds : SyncCall → List ItemId
  | pushVault _ _ request => request.upserts.map (·.id) ++ request.deletes
  | pushItemLevelSync _ _ plan => plan.operations.map (·.id)

def SyncCall.code : SyncCall → SyncProg SyncResult
  | pushVault env userId request => do
    let result ← ZeroVault.pushVault env userId request
    pure (.pushVault result)
  | pushItemLevelSync env userId plan => do
    let result ← ZeroVault.pushItemLevelSync env userId plan
    pure (.pushItemLevelSync result)

end ZeroVault

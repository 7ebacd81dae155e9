import ZeroVault.Desktop

/-!
# The desktop's offline queue

The queue in `localStorage` and `pushOfflineQueue`. What its awaited calls come
to, and what the user enqueues while they are awaited, is a parameter: a `Turn`
for each entry, and a `StorageUse` for each use of the storage. The script is
single-threaded, so the user's entries fall between two awaited calls.
-/

namespace ZeroVault.Desktop

open Lib
open Browser (Runtime VaultItem)

/-! ## The queue -/

structure OfflineMutationEntry where
  type : OperationKind
  itemId : ItemId
  timestamp : Nat
  retryCount : Nat
deriving DecidableEq, Repr

def MAX_QUEUE_SIZE : Nat := 500
def ENTRY_TTL_MS : Nat := 7 * 24 * 60 * 60 * 1000

abbrev Queue := List OfflineMutationEntry

/-- One use of the storage: the clock, whether reading works, and what writing throws. -/
structure StorageUse where
  now : Nat
  reads : Bool
  writes : Option Thrown
deriving DecidableEq, Repr

def expired (now : Nat) (entry : OfflineMutationEntry) : Bool := ENTRY_TTL_MS ≤ now - entry.timestamp

def cleanExpired (now : Nat) (entries : Queue) : Queue := entries.filter fun entry => !expired now entry

def readQueue (use : StorageUse) (queue : Queue) : Queue := if use.reads then queue else []

/-- The entry takes the place of the first one for its item. -/
def putEntry (entry : OfflineMutationEntry) : Queue → Queue
  | [] => [entry]
  | e :: queue => if e.itemId = entry.itemId then entry :: queue else e :: putEntry entry queue

def dropOldest (queue : Queue) : Queue := queue.drop (queue.length - MAX_QUEUE_SIZE)

def enqueueOfflineMutation (use : StorageUse) (entry : OfflineMutationEntry) (queue : Queue) : Except Thrown Queue :=
  match use.writes with
  | some thrown => .error thrown
  | none => .ok (dropOldest (putEntry entry (cleanExpired use.now (readQueue use queue))))

/-- The entries taken; the queue is then empty. -/
def dequeueOfflineMutations (use : StorageUse) (queue : Queue) : Except Thrown Queue :=
  match use.writes with
  | some thrown => .error thrown
  | none => .ok (cleanExpired use.now (readQueue use queue))

/-- What the user enqueues, in order. A throw reaches the user, not the push. -/
def userEnqueues (added : List (OfflineMutationEntry × StorageUse)) (queue : Queue) : Queue :=
  added.foldl (fun queue p => (enqueueOfflineMutation p.2 p.1 queue).toOption.getD queue) queue

/-! ## One entry -/

def ERROR_MESSAGES : List (String × String) :=
  [("network_error", "网络错误，请检查连接"), ("request_timeout", "请求超时"), ("unauthorized", "登录已过期，请重新登录"),
    ("forbidden", "访问被拒绝"), ("sync_conflict", "同步冲突，请手动解决"), ("device_not_found", "设备不存在或已被移除"),
    ("encrypted_vault_key_required", "缺少设备密钥密文")]

def getErrorMessage : Thrown → String
  | .other => "发生了未知错误"
  | .error message => (ERROR_MESSAGES.lookup message).getD message

/-- What the awaited calls of one entry come to; `none` where a call succeeds. -/
structure Turn where
  nonces : String
  now : String
  encryptItem : Option Thrown
  getById : Option Thrown
  getServerRevision : Option Thrown
  searchTokens : Option Thrown
  fetch : WirePlan → Fetch ItemLevelSyncPushResult
  getConflictIds : Option Thrown
  /-- How many statements ran before the one that failed. -/
  setConflictIds : Option (Nat × Thrown)
  setServerRevision : Option Thrown
  storedTokens : Option Thrown
  upsert : Option Thrown
  delete : Option Thrown
  setLastSyncedAt : Option Thrown
  enqueued : List (OfflineMutationEntry × StorageUse)

abbrev StoreProg := ExceptT Thrown (StateM CiphertextStore)

def settle (failure : Option Thrown) : StoreProg Unit :=
  match failure with
  | some thrown => throw thrown
  | none => pure ()

def readStore {α : Type} (failure : Option Thrown) (g : CiphertextStore → α) : StoreProg α := do
  settle failure
  let store ← get
  pure (g store)

def writeStore (failure : Option Thrown) (f : CiphertextStore → CiphertextStore) : StoreProg Unit := do
  settle failure
  modify f

/-- Statement 0 clears the marks, statement `n + 1` marks the `n`-th id. -/
def writeConflictIds (failure : Option (Nat × Thrown)) (ids : List ItemId) : StoreProg Unit :=
  match failure with
  | none => modify fun store => store.setConflictIds ids
  | some (0, thrown) => throw thrown
  | some (n + 1, thrown) => do
    modify fun store => store.setConflictIds (ids.take n)
    throw thrown

def conflictOf (response : ItemLevelSyncPushResult) (itemId : ItemId) : Option Nat :=
  (response.conflicts.find? (·.itemId = itemId)).bind (·.serverItemRevision)

def storedUpsert (upsert : WireUpsert) (revision : Nat) (now : String) (hasConflict : Bool)
    (conflictServerItemRevision : Option Nat) : StoredItem :=
  ⟨upsert.id, { upsert.toVaultItemCiphertext with revision }, revision, now, hasConflict, conflictServerItemRevision⟩

def answered (fetched : Fetch ItemLevelSyncPushResult) : StoreProg ItemLevelSyncPushResult :=
  match answerOf [409] fetched with
  | .error thrown => throw thrown
  | .ok response => pure response

section
variable {κ : Type} (R : Runtime κ) (vaultKey : κ) (ownerUserId : UserId) (turn : Turn)

def noteConflicts (response : ItemLevelSyncPushResult) : StoreProg Unit := do
  let conflictIds ← readStore turn.getConflictIds (·.getConflictIds)
  writeConflictIds turn.setConflictIds (conflictIds ++ response.conflicts.map (·.itemId))
  writeStore turn.setServerRevision (·.setServerRevision response.serverRevision)

def pushUpsert (item : VaultItem) : StoreProg Unit := do
  settle turn.encryptItem
  let existing ← readStore turn.getById (·.getById item.id)
  let baseRevision ← readStore turn.getServerRevision (·.serverRevision)
  settle turn.searchTokens
  let upsert := updateUpsert R vaultKey existing item turn.nonces ownerUserId turn.now
  let response ← answered (turn.fetch (upsertPlan baseRevision upsert))
  if !response.conflicts.isEmpty then
    noteConflicts turn response
    settle turn.storedTokens
    writeStore turn.upsert (·.upsert
      (storedUpsert upsert (currentRevision existing) turn.now true (conflictOf response item.id)))
  else
    let storedRevision :=
      if item.id ∈ response.applied.upsertedItemIds then response.serverRevision else currentRevision existing + 1
    settle turn.storedTokens
    writeStore turn.upsert (·.upsert (storedUpsert upsert storedRevision turn.now false none))
    writeStore turn.setServerRevision (·.setServerRevision response.serverRevision)
    writeStore turn.setLastSyncedAt (·.setLastSyncedAt turn.now)

def pushDelete (itemId : ItemId) : StoreProg Unit := do
  let existing ← readStore turn.getById (·.getById itemId)
  let baseRevision ← readStore turn.getServerRevision (·.serverRevision)
  let response ← answered
    (turn.fetch (deletePlan baseRevision itemId (currentRevision existing) ownerUserId turn.now))
  if !response.conflicts.isEmpty then
    noteConflicts turn response
    match existing with
    | some existing => writeStore turn.upsert (·.upsert
        { existing with hasConflict := true, conflictServerItemRevision := conflictOf response itemId })
    | none => pure ()
  else
    writeStore turn.delete (·.delete itemId)
    writeStore turn.setServerRevision (·.setServerRevision response.serverRevision)
    writeStore turn.setLastSyncedAt (·.setLastSyncedAt turn.now)

/-- The body of the `try`. An upsert whose item is not decrypted is skipped. -/
def pushEntry (itemsSnapshot : List VaultItem) (entry : OfflineMutationEntry) : StoreProg Unit :=
  match entry.type with
  | .upsert =>
    match itemsSnapshot.find? (·.id = entry.itemId) with
    | none => pure ()
    | some item => pushUpsert R vaultKey ownerUserId turn item
  | .delete => pushDelete ownerUserId turn entry.itemId

end

/-! ## `pushOfflineQueue` -/

structure Loop where
  store : CiphertextStore
  queue : Queue
  processed : Nat
  processedEntryIds : List ItemId
  networkFailures : Queue

def Loop.handled (l : Loop) (entry : OfflineMutationEntry) : Loop :=
  { l with processed := l.processed + 1, processedEntryIds := entry.itemId :: l.processedEntryIds }

/-- What the awaited calls of the whole run come to. -/
structure Pattern where
  dequeue : StorageUse
  turn : Nat → Turn
  requeue : Nat → StorageUse
  refresh : Option Thrown
  enqueuedAtRefresh : List (OfflineMutationEntry × StorageUse)
  rescue : Nat → StorageUse
  refreshAgain : Option Thrown
  enqueuedAtRescue : List (OfflineMutationEntry × StorageUse)

structure Desk where
  store : CiphertextStore
  queue : Queue

inductive PushOutcome
  | actionFail (error : String)
  | actionOk (processed requeued : Nat)
  | rejected (thrown : Thrown)
deriving DecidableEq, Repr

/-- `enqueueOfflineMutation` for each entry until one throws. -/
def requeueAll (use : Nat → StorageUse) : Queue → Nat → Queue → Queue × Nat × Option Thrown
  | [], requeued, queue => (queue, requeued, none)
  | entry :: entries, requeued, queue =>
    match enqueueOfflineMutation (use requeued) entry queue with
    | .ok queue => requeueAll use entries (requeued + 1) queue
    | .error thrown => (queue, requeued, some thrown)

section
variable {κ : Type} (R : Runtime κ) (ownerUserId : UserId) (items : List VaultItem)

/-- One turn of the loop. -/
def takeTurn (vaultKey : κ) (turn : Turn) (l : Loop) (entry : OfflineMutationEntry) : Loop :=
  let (result, store) := (pushEntry R vaultKey ownerUserId turn items entry).run.run l.store
  let l := { l with store, queue := userEnqueues turn.enqueued l.queue }
  match result with
  | .ok () => l.handled entry
  | .error thrown =>
    -- errors are told apart by their text
    if getErrorMessage thrown = "网络错误，请检查连接" then { l with networkFailures := l.networkFailures ++ [entry] }
    else l.handled entry

def takeTurns (vaultKey : κ) (W : Pattern) (entries : Queue) (store : CiphertextStore) : Loop :=
  entries.zipIdx.foldl (fun l p => takeTurn R ownerUserId items vaultKey (W.turn p.2) l p.1) ⟨store, [], 0, [], []⟩

/-- The outer `catch`: entries that no turn handled are enqueued again. -/
def rescue (W : Pattern) (entries : Queue) (l : Loop) (requeued : Nat) (queue : Queue) : Desk × PushOutcome :=
  let unhandled := entries.filter fun entry => !(l.processedEntryIds.contains entry.itemId || l.networkFailures.contains entry)
  match requeueAll W.rescue unhandled requeued queue with
  | (queue, _, some thrown) => (⟨l.store, queue⟩, .rejected thrown)
  | (queue, requeued, none) =>
    let queue := userEnqueues W.enqueuedAtRescue queue
    match W.refreshAgain with
    | some thrown => (⟨l.store, queue⟩, .rejected thrown)
    | none => (⟨l.store, queue⟩, .actionOk l.processed requeued)

def pushTaken (vaultKey : κ) (W : Pattern) (entries : Queue) (store : CiphertextStore) : Desk × PushOutcome :=
  let l := takeTurns R ownerUserId items vaultKey W entries store
  match requeueAll W.requeue l.networkFailures 0 l.queue with
  | (queue, requeued, some _) => rescue W entries l requeued queue
  | (queue, requeued, none) =>
    let queue := userEnqueues W.enqueuedAtRefresh queue
    match W.refresh with
    | some _ => rescue W entries l requeued queue
    | none => (⟨l.store, queue⟩, .actionOk l.processed requeued)

/-- `vaultKey` is `none` on a locked vault. -/
def pushOfflineQueue (vaultKey : Option κ) (configured : Bool) (W : Pattern) (d : Desk) : Desk × PushOutcome :=
  match vaultKey with
  | none => (d, .actionFail "密码库已锁定，请先解锁")
  | some vaultKey =>
    if !configured then (d, .actionFail "API 客户端未配置")
    else match dequeueOfflineMutations W.dequeue d.queue with
      | .error thrown => (d, .rejected thrown)
      | .ok entries => pushTaken R ownerUserId items vaultKey W entries d.store

end

end ZeroVault.Desktop

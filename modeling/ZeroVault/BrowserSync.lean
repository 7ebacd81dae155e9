import ZeroVault.SyncStore
import ZeroVault.VaultItems

/-!
# `syncVault` on a browser client

A run of `syncVault` is cut at its requests: it builds and commits a plan, waits
for the push to be answered, and when nothing is left to push pulls page by
page, committing each. What a run leaves behind when it stops is what it
committed last.
-/

namespace ZeroVault.Browser

open Lib

/-! ## The sync state -/

structure PendingItemMutation where
  itemUpdatedAt : String
  clientMutationId : MutationId
  baseItemRevision : Option Nat
  upsert : Option ItemLevelEncryptedUpsert
  delete : Option ItemLevelEncryptedDelete
deriving DecidableEq, Repr

structure SyncState where
  cursor : Nat
  serverRevision : Nat
  revisions : Table ItemId Nat
  timestamps : Table ItemId String
  pending : Table ItemId PendingItemMutation
  conflicts : List ItemId

def emptySyncState : SyncState := ⟨0, 0, ∅, ∅, ∅, []⟩

/-! ## `buildItemLevelSyncPlan` -/

inductive ItemSyncStatus
  | synced
  | localOnly
  | pending
  | conflict
deriving DecidableEq, Repr

structure ItemSyncInfo where
  itemId : ItemId
  status : ItemSyncStatus
  revision : Option Nat
deriving DecidableEq, Repr

/-- What one turn of a loop takes from the clock and the random generator. -/
structure Draw where
  randomUUID : MutationId
  nonces : String
  now : String

structure PlanState where
  itemInfos : List ItemSyncInfo
  upserts : List ItemLevelEncryptedUpsert
  deletes : List ItemLevelEncryptedDelete
  nextPendingMutations : Table ItemId PendingItemMutation

structure BuiltPlan where
  plan : ItemLevelSyncPlan
  itemInfos : List ItemSyncInfo
  pendingMutations : Table ItemId PendingItemMutation

def expectedBaseRevision (credential : VaultItem) (baseItemRevision : Option Nat)
    (previous : Option PendingItemMutation) : Nat :=
  match previous with
  | some p =>
    if p.itemUpdatedAt = credential.updatedAt ∧ p.upsert.isSome then
      (p.baseItemRevision.or baseItemRevision).getD 0
    else baseItemRevision.getD 0
  | none => baseItemRevision.getD 0

def replayedUpsert (userId : UserId) (credential : VaultItem) (expected : Nat)
    (previous : Option PendingItemMutation) : Option ItemLevelEncryptedUpsert := do
  let p ← previous
  let upsert ← p.upsert
  if p.itemUpdatedAt = credential.updatedAt ∧ p.baseItemRevision = some expected ∧ upsert.id = credential.id ∧
      upsert.ownerUserId = userId ∧ upsert.clientMutationId = p.clientMutationId then some upsert
  else none

section
variable {κ : Type} (R : Runtime κ)

/-- `none` where an envelope fails its schema. -/
def freshUpsert (vault : UnlockedVault κ) (userId : UserId) (credential : VaultItem) (expected : Nat) (draw : Draw) :
    Option ItemLevelEncryptedUpsert :=
  let bundle := encryptItemForSync R vault credential draw.nonces
  let searchTokens := generateSearchTokens R vault credential
  if aeadCiphertextEnvelopeSchema bundle.encryptedItemKey && aeadCiphertextEnvelopeSchema bundle.encryptedPayload &&
      searchTokens.all hmacSha256EnvelopeSchema then
    some {
      id := credential.id
      ownerUserId := userId
      revision := expected
      createdAt := credential.createdAt
      updatedAt := credential.updatedAt
      encryptedItemKey := bundle.encryptedItemKey
      encryptedPayload := bundle.encryptedPayload
      encryptedSearchTokens := searchTokens
      baseItemRevision := expected
      clientMutationId := draw.randomUUID
      ciphertextHash := none }
  else none

/-- One turn of the loop over the items. `revisionMap`, `conflicts`,
`pendingMutations` and `syncedUpdatedAt` are the fields of `state`. -/
def planItem (vault : UnlockedVault κ) (userId : UserId) (state : SyncState) (draw : Draw) (st : PlanState)
    (credential : VaultItem) : Option PlanState :=
  let baseItemRevision := state.revisions.get? credential.id
  let note (status : ItemSyncStatus) : PlanState :=
    { st with itemInfos := st.itemInfos ++ [⟨credential.id, status, baseItemRevision⟩] }
  if credential.id ∈ state.conflicts then some (note .conflict)
  else
    let previous := st.nextPendingMutations.get? credential.id
    if state.timestamps.get? credential.id = some credential.updatedAt ∧ previous.isNone then some (note .synced)
    -- a full plan leaves the item to the next round
    else if MAX_SYNC_MUTATIONS ≤ st.upserts.length then some (note .pending)
    else
      let expected := expectedBaseRevision credential baseItemRevision previous
      ((replayedUpsert userId credential expected previous).or
        (freshUpsert R vault userId credential expected draw)).map fun upsert =>
          { note .pending with
            upserts := st.upserts ++ [upsert]
            nextPendingMutations := st.nextPendingMutations.set credential.id
              ⟨credential.updatedAt, upsert.clientMutationId, some expected, some upsert, none⟩ }

end

/-- One turn of the loop over the known ids. -/
def planDelete (localIds : List ItemId) (userId : UserId) (state : SyncState) (draw : Draw) (st : PlanState)
    (itemId : ItemId) : PlanState :=
  if itemId ∈ localIds ∨ itemId ∈ state.conflicts then st
  -- `break`: no later turn adds anything either
  else if MAX_SYNC_MUTATIONS ≤ st.upserts.length + st.deletes.length then st
  else
    let previous := state.pending.get? itemId
    let baseItemRevision := ((state.revisions.get? itemId).or (previous.bind (·.baseItemRevision))).getD 0
    let deletion := ((previous.bind (·.delete)).filter fun d =>
      d.ownerUserId = userId && d.baseItemRevision = baseItemRevision).getD
        ⟨itemId, userId, baseItemRevision, draw.now, draw.randomUUID⟩
    { st with
      deletes := st.deletes ++ [deletion]
      nextPendingMutations := st.nextPendingMutations.set itemId
        ⟨deletion.deletedAt, deletion.clientMutationId, some baseItemRevision, none, some deletion⟩ }

/-- `new Set([...Object.keys(revisionMap), ...Object.keys(pendingMutations)])`;
the keys of either record are distinct. -/
def SyncState.knownIds (state : SyncState) : List ItemId :=
  state.revisions.rows.map Prod.fst ++
    (state.pending.rows.map Prod.fst).filter fun id => !state.revisions.contains id

section
variable {κ : Type} (R : Runtime κ)

def buildItemLevelSyncPlan (draws : Nat → Draw) (vault : UnlockedVault κ) (userId : UserId) (state : SyncState) :
    Option BuiltPlan := do
  let st ← vault.items.zipIdx.foldlM (fun st p => planItem R vault userId state (draws p.2) st p.1)
    ⟨[], [], [], state.pending⟩
  let st := (state.knownIds.zipIdx vault.items.length).foldl
    (fun st p => planDelete vault.itemIds userId state (draws p.2) st p.1) st
  pure ⟨⟨state.serverRevision, st.upserts, st.deletes⟩, st.itemInfos, st.nextPendingMutations⟩

end

/-! ## The locals of `syncVault` -/

inductive SyncVaultError
  | syncReceiptInvalid
  | syncConflictInvalid
  | syncReceiptMissing
  | syncCursorInvalid
  | itemOwnerMismatch
  | undecryptable
  /-- A property read of an absent pending mutation. -/
  | typeError
deriving DecidableEq, Repr

structure ConflictDetail where
  itemId : ItemId
  /-- `none` is `'unresolved'`. -/
  reason : Option ConflictReason
  localRevision : Option Nat
  serverRevision : Option Nat
deriving DecidableEq, Repr

structure Locals (κ : Type) where
  state : SyncState
  active : UnlockedVault κ
  appliedCount : Nat
  conflictDetails : List ConflictDetail

/-- The `conflicts` that a run returns. -/
def Locals.conflicts {κ : Type} (l : Locals κ) : List ConflictDetail :=
  l.state.conflicts.foldl (fun details id =>
    if details.any (·.itemId = id) then details
    else details ++ [⟨id, none, l.state.revisions.get? id, none⟩]) l.conflictDetails

/-! ## The answer to a push -/

/-- The `operations` map. -/
def operationsById (plan : ItemLevelSyncPlan) : Table MutationId Operation :=
  plan.operations.foldl (fun t op => t.set op.clientMutationId op) ∅

def checkReceipt (operations : Table MutationId Operation) (serverRevision : Nat) (seen : List MutationId)
    (receipt : AppliedMutationReceipt) : Except SyncVaultError (List MutationId) :=
  match operations.get? receipt.clientMutationId with
  | none => .error .syncReceiptInvalid
  | some submitted =>
    if receipt.clientMutationId ∈ seen ∨ submitted.id ≠ receipt.itemId ∨ submitted.kind ≠ receipt.operation ∨
        receipt.appliedItemRevision ≤ submitted.baseItemRevision ∨ receipt.appliedItemRevision > serverRevision then
      .error .syncReceiptInvalid
    else .ok (receipt.clientMutationId :: seen)

def checkConflict (operations : Table MutationId Operation) (seen : List MutationId) (conflicting : List ItemId)
    (conflict : ItemLevelSyncConflict) : Except SyncVaultError (List ItemId) :=
  match (operations.rows.map Prod.snd).find? (·.id = conflict.itemId) with
  | none => .error .syncConflictInvalid
  | some submitted =>
    if conflict.itemId ∈ conflicting ∨ submitted.kind ≠ conflict.operation ∨
        submitted.baseItemRevision ≠ conflict.clientBaseRevision ∨ submitted.clientMutationId ∈ seen then
      .error .syncConflictInvalid
    else .ok (conflict.itemId :: conflicting)

def applyReceipt (state : SyncState) (receipt : AppliedMutationReceipt) : Except SyncVaultError SyncState :=
  match receipt.operation with
  | .delete =>
    .ok { state with
      revisions := state.revisions.erase receipt.itemId
      timestamps := state.timestamps.erase receipt.itemId
      pending := state.pending.erase receipt.itemId }
  | .upsert =>
    match state.pending.get? receipt.itemId with
    | none => .error .typeError
    | some p =>
      .ok { state with
        revisions := state.revisions.set receipt.itemId receipt.appliedItemRevision
        timestamps := state.timestamps.set receipt.itemId p.itemUpdatedAt
        pending := state.pending.erase receipt.itemId }

def noteConflict (conflicts : List ItemId) (conflict : ItemLevelSyncConflict) : List ItemId :=
  if conflict.itemId ∈ conflicts then conflicts else conflicts ++ [conflict.itemId]

def detailOf (conflict : ItemLevelSyncConflict) : ConflictDetail :=
  ⟨conflict.itemId, some conflict.reason, some conflict.clientBaseRevision, conflict.serverItemRevision⟩

section
variable {κ : Type}

/-- From the answer of a push to the commit after it. -/
def receivePush (l : Locals κ) (plan : ItemLevelSyncPlan) (response : ItemLevelSyncPushResult) :
    Except SyncVaultError (Locals κ) := do
  let receipts := response.applied.mutationReceipts
  if response.serverRevision < l.state.serverRevision then throw .syncReceiptInvalid
  let operations := operationsById plan
  let seen ← receipts.foldlM (checkReceipt operations response.serverRevision) []
  let _ ← response.conflicts.foldlM (checkConflict operations seen) []
  -- every operation has its receipt or its conflict
  if receipts.length + response.conflicts.length ≠ operations.rows.length then throw .syncReceiptMissing
  let state ← receipts.foldlM applyReceipt l.state
  pure { l with
    state := { state with
      serverRevision := response.serverRevision
      conflicts := response.conflicts.foldl noteConflict state.conflicts }
    appliedCount := l.appliedCount + receipts.length
    conflictDetails := l.conflictDetails ++ response.conflicts.map detailOf }

/-! ## A page of the pull -/

def LOCAL_VAULT_ITEM_ID : ItemId := "00000000-0000-4000-8000-000000000001"

structure PullState where
  state : SyncState
  items : Table ItemId VaultItem

def applyChange (R : Runtime κ) (active : UnlockedVault κ) (userId : UserId) (st : PullState)
    (change : ItemLevelSyncChange) : Except SyncVaultError PullState :=
  let id := change.change.itemId
  -- what is pending or in conflict is not overwritten
  if id = LOCAL_VAULT_ITEM_ID ∨ st.state.pending.contains id ∨ id ∈ st.state.conflicts then .ok st
  else match change.change with
    | .delete _ revision _ =>
      if (st.state.revisions.get? id).any (revision < ·) then .ok st
      else .ok {
        state := { st.state with
          revisions := st.state.revisions.erase id
          timestamps := st.state.timestamps.erase id }
        items := st.items.erase id }
    | .upsert item =>
      if item.ownerUserId ≠ userId then .error .itemOwnerMismatch
      else if (st.state.revisions.get? id).any (item.revision < ·) then .ok st
      else match decryptItemFromSync R active item.encryptedItemKey item.encryptedPayload id with
        | none => .error .undecryptable
        | some plain => .ok {
            state := { st.state with
              revisions := st.state.revisions.set id item.revision
              timestamps := st.state.timestamps.set id plain.updatedAt }
            items := st.items.set id plain }

/-- `new Map(items.map(item => [item.id, item]))`. -/
def itemMap (items : List VaultItem) : Table ItemId VaultItem := items.foldl (fun t item => t.set item.id item) ∅

/-- From the answer of a pull to the commit after it. -/
def receivePull (R : Runtime κ) (userId : UserId) (l : Locals κ) (remote : ItemLevelSyncPullResponse) :
    Except SyncVaultError (Locals κ) := do
  if remote.cursor < l.state.cursor ∨ remote.serverRevision < l.state.serverRevision ∨
      (remote.hasMore ∧ remote.cursor ≤ l.state.cursor) then throw .syncCursorInvalid
  let st ← remote.changes.foldlM (applyChange R l.active userId) ⟨l.state, itemMap l.active.items⟩
  pure { l with
    active := { l.active with items := st.items.rows.map Prod.snd }
    state := { st.state with serverRevision := remote.serverRevision, cursor := remote.cursor } }

/-! ## Clients -/

inductive Run (κ : Type)
  | planning (l : Locals κ)
  | pushing (l : Locals κ) (plan : ItemLevelSyncPlan)
  | pulling (l : Locals κ) (page : Nat)
  | returned (l : Locals κ)

/-- A client: what its last commit or local change stored, and the run it is in. -/
structure Client (κ : Type) where
  vault : UnlockedVault κ
  sync : SyncState
  run : Option (Run κ)

def Client.stop (c : Client κ) : Client κ := { c with run := none }

def Client.commit (c : Client κ) (l : Locals κ) (next : Run κ) : Client κ :=
  { c with sync := l.state, run := some next }

inductive ClientEvent
  | add (item : ItemInput) (id : ItemId) (now : String)
  | update (id : ItemId) (updates : ItemInput → ItemInput) (now : String)
  | delete (id : ItemId)
  | start
  | plan (draws : Nat → Draw)
  /-- The Worker answers the push; the answer may be lost. -/
  | push (env : Nat → Env) (delivered : Bool)
  | pull
  | abort

def Client.planned (c : Client κ) (l : Locals κ) (built : BuiltPlan) : Client κ :=
  let l := { l with state := { l.state with pending := built.pendingMutations } }
  c.commit l (if built.plan.operations.isEmpty then .pulling l 0 else .pushing l built.plan)

def Client.pushed (c : Client κ) (l : Locals κ) (plan : ItemLevelSyncPlan)
    (answer : Option ItemLevelSyncPushResult) : Client κ :=
  match answer with
  | none => c.stop
  | some response =>
    match receivePush l plan response with
    | .error _ => c.stop
    | .ok l => c.commit l (.planning l)

def MAX_PULL_PAGES : Nat := 1000

def Client.pulled (R : Runtime κ) (userId : UserId) (c : Client κ) (l : Locals κ) (page : Nat)
    (remote : ItemLevelSyncPullResponse) : Client κ :=
  match receivePull R userId l remote with
  | .error _ => c.stop
  | .ok l =>
    let c := { c with vault := l.active }
    if !remote.hasMore then c.commit l (.returned l)
    else if page + 1 = MAX_PULL_PAGES then (c.commit l (.returned l)).stop
    else c.commit l (.pulling l (page + 1))

def DEFAULT_PULL_LIMIT : Nat := 200

/-- One event of a client at the Worker's database; `none` where the client is
not in a state for it. Local changes wait for a run to end. -/
def Client.step (R : Runtime κ) (userId : UserId) (event : ClientEvent) (db : Db) (c : Client κ) :
    Option (Db × Client κ) :=
  match event, c.run with
  | .add item id now, none => some (db, { c with vault := addItem c.vault item id now })
  | .update id updates now, none => some (db, { c with vault := updateItem c.vault id updates now })
  | .delete id, none => some (db, { c with vault := deleteItem c.vault id })
  | .start, none => some (db, { c with run := some (.planning ⟨c.sync, c.vault, 0, []⟩) })
  | .plan draws, some (.planning l) =>
    match buildItemLevelSyncPlan R draws l.active userId l.state with
    | none => some (db, c.stop)
    | some built => some (db, c.planned l built)
  | .push env delivered, some (.pushing l plan) =>
    -- the Worker's route answers 400 to a plan that fails its schema
    if !itemLevelSyncPlanSchema R.formats plan then some (db, c.stop)
    else
      let result := (pushItemLevelSync env userId plan).run db
      some (result.1, c.pushed l plan (if delivered then result.2.toOption else none))
  | .pull, some (.pulling l page) =>
    match ((pullItemLevelSync R.formats userId l.state.cursor DEFAULT_PULL_LIMIT).run db).2 with
    | .error _ => some (db, c.stop)
    | .ok remote => some (db, c.pulled R userId l page remote)
  | .abort, some _ => some (db, c.stop)
  | _, _ => none

end

end ZeroVault.Browser

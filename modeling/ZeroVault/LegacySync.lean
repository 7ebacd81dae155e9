import ZeroVault.BrowserSync

/-!
# The sync of a legacy vault in the web app

`performSync` for a `webcrypto-mvp` vault: it pulls the whole vault, merges what
it pulled and stores the result, pushes single items, and falls back to pushing
the sealed vault. The answers of the server are given, one function for each
request; a push may be taken and its answer lost. Writes to the local storage
succeed.
-/

namespace ZeroVault.Legacy

open Lib Browser

/-! ## The sealed vault -/

structure Kdf where
  iterations : Nat
  salt : String
deriving DecidableEq, Repr

/-- `LegacyWebCryptoVault`; a `σ` is what AES-GCM makes of a snapshot. -/
structure EncryptedLocalVault (σ : Type) where
  kdf : Kdf
  cipher : σ
  itemCount : Nat
  updatedAt : String
deriving DecidableEq, Repr

structure VaultSnapshot where
  createdAt : String
  updatedAt : String
  items : List VaultItem
deriving DecidableEq, Repr

structure LegacyUnlockedVault (κ : Type) where
  key : κ
  kdf : Kdf
  snapshot : VaultSnapshot
deriving DecidableEq, Repr

def LegacyUnlockedVault.browser {κ : Type} (vault : LegacyUnlockedVault κ) : UnlockedVault κ :=
  ⟨vault.key, vault.snapshot.items⟩

structure WebCrypto (κ σ : Type) where
  encryptSnapshot : κ → VaultSnapshot → String → σ
  decryptSnapshot : κ → σ → Option VaultSnapshot
  nonce : σ → String
  encodeKdf : Kdf → String
  encodeVault : EncryptedLocalVault σ → String
  decodeVault : String → Except String (EncryptedLocalVault σ)

section
variable {κ σ : Type} (W : WebCrypto κ σ)

def sealUnlockedVault (vault : LegacyUnlockedVault κ) (nonce now : String) : EncryptedLocalVault σ where
  kdf := vault.kdf
  cipher := W.encryptSnapshot vault.key { vault.snapshot with updatedAt := now } nonce
  itemCount := vault.snapshot.items.length
  updatedAt := now

/-! ## The local storage -/

structure Storage (σ : Type) where
  vault : Option (EncryptedLocalVault σ)
  serverRevision : Nat
  itemRevisions : Table ItemId Nat
  lastSyncedAt : Option String
  conflictIds : List ItemId
  pendingMutations : Table ItemId PendingItemMutation

def persistUnlockedVault (storage : Storage σ) (vault : LegacyUnlockedVault κ) (nonce now : String) :
    Storage σ × EncryptedLocalVault σ × LegacyUnlockedVault κ :=
  let encrypted := sealUnlockedVault W vault nonce now
  ({ storage with vault := some encrypted }, encrypted,
    { vault with snapshot := { vault.snapshot with updatedAt := encrypted.updatedAt } })

/-! ## The sealed vault as one item -/

def LOCAL_VAULT_SYNC_ITEM_ID : ItemId := "00000000-0000-4000-8000-000000000001"

def encryptedVaultToSyncRequest (encryptedVault : EncryptedLocalVault σ) (userId : UserId) (baseRevision : Nat)
    (now : String) : SyncPushRequest where
  baseRevision := baseRevision
  upserts := [{
    id := LOCAL_VAULT_SYNC_ITEM_ID
    ownerUserId := userId
    revision := baseRevision
    createdAt := encryptedVault.updatedAt
    updatedAt := now
    encryptedItemKey := ⟨.aes256Gcm, encryptedVault.kdf.salt, W.encodeKdf encryptedVault.kdf, none⟩
    encryptedPayload := ⟨.aes256Gcm, W.nonce encryptedVault.cipher, W.encodeVault encryptedVault, none⟩
    encryptedSearchTokens := [] }]
  deletes := []

def getSyncedLocalVaultItem (items : List VaultItemCiphertext) : Option VaultItemCiphertext :=
  items.find? (·.id = LOCAL_VAULT_SYNC_ITEM_ID)

def syncItemToEncryptedVault (item : VaultItemCiphertext) : Except String (EncryptedLocalVault σ) :=
  W.decodeVault item.encryptedPayload.ciphertext

end

/-! ## `mergeRemoteItems` -/

structure MergeRemoteItemsResult (κ : Type) where
  vault : LegacyUnlockedVault κ
  revisionMap : Table ItemId Nat
  mergedItemIds : List ItemId
  failedItemIds : List ItemId

/-- The credential takes the place of the first item of its id. -/
def place (items : List VaultItem) (credential : VaultItem) : List VaultItem :=
  match items.findIdx? (·.id = credential.id) with
  | some existingIndex => items.set existingIndex credential
  | none => items ++ [credential]

section
variable {κ σ : Type} (R : Runtime κ)

def mergeRemoteItem (now : String) (st : MergeRemoteItemsResult κ) (item : VaultItemCiphertext) :
    MergeRemoteItemsResult κ :=
  if item.id = LOCAL_VAULT_SYNC_ITEM_ID then st
  else match decryptItemFromSync R st.vault.browser item.encryptedItemKey item.encryptedPayload item.id with
    | some credential =>
      { st with
        vault := { st.vault with snapshot := { st.vault.snapshot with
          items := place st.vault.snapshot.items credential
          updatedAt := now } }
        revisionMap := st.revisionMap.set credential.id item.revision
        mergedItemIds := st.mergedItemIds ++ [credential.id] }
    | none => { st with failedItemIds := st.failedItemIds ++ [item.id] }

def mergeRemoteItems (now : String) (storage : Storage σ) (vault : LegacyUnlockedVault κ)
    (remoteItems : List VaultItemCiphertext) : Storage σ × MergeRemoteItemsResult κ :=
  let merged := remoteItems.foldl (mergeRemoteItem R now) ⟨vault, storage.itemRevisions, [], []⟩
  ({ storage with itemRevisions := merged.revisionMap }, merged)

/-! ## `performItemLevelSync` -/

/-- The planner is called without `syncedUpdatedAt`, and reads no cursor. -/
def Storage.syncState (storage : Storage σ) : SyncState where
  cursor := 0
  serverRevision := storage.serverRevision
  revisions := storage.itemRevisions
  timestamps := ∅
  pending := storage.pendingMutations
  conflicts := storage.conflictIds

def updateItemRevisionMap (current : Table ItemId Nat) (applied : ItemLevelApplied) (serverRevision : Nat) :
    Table ItemId Nat :=
  let next := applied.upsertedItemIds.foldl (fun next id =>
    let receipt := applied.mutationReceipts.find? fun r => r.operation = .upsert && r.itemId = id
    next.set id ((receipt.map (·.appliedItemRevision)).getD serverRevision)) current
  applied.deletedItemIds.foldl Table.erase next

structure ItemLevelSyncResult (κ : Type) where
  response : ItemLevelSyncPushResult
  mergedVault : UnlockedVault κ
  itemInfos : List ItemSyncInfo
  hasConflicts : Bool

/-- A call: what it leaves in the storage, the plan it sent, and what it
returned, `none` where it threw. -/
structure ItemLevelRun (κ σ : Type) where
  storage : Storage σ
  sent : Option ItemLevelSyncPlan
  result : Option (ItemLevelSyncResult κ)

def syncedInfo (updatedMap : Table ItemId Nat) (upsertedItemIds : List ItemId) (info : ItemSyncInfo) : ItemSyncInfo :=
  if info.itemId ∈ upsertedItemIds then
    { info with status := .synced, revision := updatedMap.get? info.itemId }
  else info

def conflictInfo (newConflictIds : List ItemId) (updatedMap : Table ItemId Nat) (upsertedItemIds : List ItemId)
    (info : ItemSyncInfo) : ItemSyncInfo :=
  if info.itemId ∈ newConflictIds then { info with status := .conflict }
  else syncedInfo updatedMap upsertedItemIds info

def performItemLevelSync (draws : Nat → Draw) (now : String) (storage : Storage σ) (vault : UnlockedVault κ)
    (userId : UserId) (pushItemLevel : ItemLevelSyncPlan → Option ItemLevelSyncPushResult) : ItemLevelRun κ σ :=
  match buildItemLevelSyncPlan R draws vault userId storage.syncState with
  | none => ⟨storage, none, none⟩
  | some built =>
    match pushItemLevel built.plan with
    -- no answer: what was planned stays pending
    | none => ⟨{ storage with pendingMutations := built.pendingMutations }, some built.plan, none⟩
    | some response =>
      let updatedMap := updateItemRevisionMap storage.itemRevisions response.applied response.serverRevision
      let upserted := response.applied.upsertedItemIds
      let storage := { storage with
        serverRevision := response.serverRevision
        itemRevisions := updatedMap
        pendingMutations := (upserted ++ response.applied.deletedItemIds).foldl Table.erase built.pendingMutations }
      if response.conflicts.isEmpty then
        ⟨{ storage with conflictIds := [], lastSyncedAt := some now }, some built.plan,
          some ⟨response, vault, built.itemInfos.map (syncedInfo updatedMap upserted), false⟩⟩
      else
        -- the ids of this answer take the place of the stored ones
        let newConflictIds := (response.conflicts.map (·.itemId)).eraseDups
        ⟨{ storage with conflictIds := newConflictIds }, some built.plan,
          some ⟨response, vault, built.itemInfos.map (conflictInfo newConflictIds updatedMap upserted), true⟩⟩

end

/-! ## `performSync` -/

/-- The server: what it makes of each request, and which of its answers to a
push arrive. -/
structure Server where
  pullVault : Except String SyncPullResponse
  pushItemLevelSync : ItemLevelSyncPlan → Option ItemLevelSyncPushResult
  itemAnswerArrives : Bool
  pushVault : SyncPushRequest → Except String Nat
  vaultAnswerArrives : Bool

def Server.itemAnswer (server : Server) (plan : ItemLevelSyncPlan) : Option ItemLevelSyncPushResult :=
  if server.itemAnswerArrives then server.pushItemLevelSync plan else none

def Server.vaultAnswer (server : Server) (request : SyncPushRequest) : Except String Nat :=
  if server.vaultAnswerArrives then server.pushVault request else .error "network_error"

structure ItemConflict where
  itemId : ItemId
  reason : ConflictReason
  localRevision : Nat
  serverRevision : Option Nat
deriving DecidableEq, Repr

inductive SyncResult (κ σ : Type)
  | noLocalVault
  | notLoggedIn
  | merged (serverRevision : Nat) (mergedVault : EncryptedLocalVault σ × LegacyUnlockedVault κ)
  | itemSynced (serverRevision : Nat) (itemInfos : List ItemSyncInfo) (appliedCount : Nat)
  | restoredFromCloud (encrypted : EncryptedLocalVault σ) (serverRevision : Nat)
  | conflicts (conflicts : List ItemConflict) (itemInfos : List ItemSyncInfo)
  | versionConflict (localRevision remoteRevision : Nat)
  | remoteVaultMismatch (failedItemCount : Nat) (canRestoreFromCloud : Bool)
  | syncConflict (localRevision : Nat)
  | error (message : String)

structure Deps (κ σ : Type) where
  encryptedVault : Option (EncryptedLocalVault σ)
  unlockedVault : Option (LegacyUnlockedVault κ)
  user : Option UserId
  csrfToken : String

structure Readings where
  draws : Nat → Draw
  nonce : String
  now : String

/-- A run: what it leaves in the storage, the plans and the sealed vaults (with
their requests) that it sent, and what it returned. -/
structure SyncRun (κ σ : Type) where
  storage : Storage σ
  plans : List ItemLevelSyncPlan
  vaults : List (EncryptedLocalVault σ × SyncPushRequest)
  result : SyncResult κ σ

section
variable {κ σ : Type} (R : Runtime κ) (W : WebCrypto κ σ) (readings : Readings) (server : Server)

/-- The outer `catch`. -/
def SyncRun.caught (storage : Storage σ) (plans : List ItemLevelSyncPlan)
    (vaults : List (EncryptedLocalVault σ × SyncPushRequest)) (message : String) : SyncRun κ σ :=
  ⟨storage, plans, vaults,
    if message = "sync_conflict" then .syncConflict storage.serverRevision else .error message⟩

def legacySync (encryptedVault : EncryptedLocalVault σ) (userId : UserId) (remote : SyncPullResponse)
    (baseRevision : Nat) (mergedVault : Option (EncryptedLocalVault σ × LegacyUnlockedVault κ)) (storage : Storage σ)
    (plans : List ItemLevelSyncPlan) : SyncRun κ σ :=
  if remote.serverRevision ≠ baseRevision then
    ⟨storage, plans, [], .versionConflict baseRevision remote.serverRevision⟩
  else
    let request := encryptedVaultToSyncRequest W encryptedVault userId baseRevision readings.now
    match server.vaultAnswer request with
    | .error message => .caught storage plans [(encryptedVault, request)] message
    | .ok serverRevision =>
      ⟨{ storage with serverRevision }, plans, [(encryptedVault, request)],
        match mergedVault with
        | some mergedVault => .merged serverRevision mergedVault
        | none => .itemSynced serverRevision [] 0⟩

/-- After an item-level sync that returned. -/
def itemSynced (activeEncryptedVault : EncryptedLocalVault σ) (userId : UserId)
    (syncedLocalVaultItem : Option VaultItemCiphertext) (storage : Storage σ) (plans : List ItemLevelSyncPlan)
    (result : ItemLevelSyncResult κ) : SyncRun κ σ :=
  if result.hasConflicts then
    ⟨storage, plans, [], .conflicts (result.response.conflicts.map fun c =>
      ⟨c.itemId, c.reason, c.clientBaseRevision, c.serverItemRevision⟩) result.itemInfos⟩
  else
    let applied := result.response.applied
    let appliedCount := applied.upsertedItemIds.length + applied.deletedItemIds.length
    let serverRevision := result.response.serverRevision
    if appliedCount > 0 ∨ syncedLocalVaultItem.isNone then
      let request := encryptedVaultToSyncRequest W activeEncryptedVault userId serverRevision readings.now
      -- a legacy push that fails keeps the revision of the item sync
      let serverRevision :=
        match server.vaultAnswer request with
        | .ok legacyRevision => legacyRevision
        | .error _ => serverRevision
      ⟨{ storage with serverRevision }, plans, [(activeEncryptedVault, request)],
        .itemSynced serverRevision result.itemInfos appliedCount⟩
    else ⟨{ storage with serverRevision }, plans, [], .itemSynced serverRevision result.itemInfos appliedCount⟩

/-- From the item-level sync on. -/
def pushMerged (encryptedVault : EncryptedLocalVault σ) (unlockedVault : Option (LegacyUnlockedVault κ))
    (userId : UserId) (remote : SyncPullResponse) (baseRevision : Nat)
    (mergedVault : Option (EncryptedLocalVault σ × LegacyUnlockedVault κ)) (storage : Storage σ) : SyncRun κ σ :=
  match (mergedVault.map Prod.snd).or unlockedVault with
  | none => legacySync W readings server encryptedVault userId remote baseRevision mergedVault storage []
  | some activeVault =>
    let run := performItemLevelSync R readings.draws readings.now storage activeVault.browser userId server.itemAnswer
    match run.result with
    | some result =>
      itemSynced W readings server ((mergedVault.map Prod.fst).getD encryptedVault) userId
        (getSyncedLocalVaultItem remote.items) run.storage run.sent.toList result
    | none =>
      legacySync W readings server encryptedVault userId remote baseRevision mergedVault run.storage run.sent.toList

def undecryptable (unlockedVault : LegacyUnlockedVault κ) (failedItemIds : List ItemId) (remote : SyncPullResponse)
    (storage : Storage σ) : SyncRun κ σ :=
  let mismatch (canRestoreFromCloud : Bool) : SyncRun κ σ :=
    ⟨storage, [], [], .remoteVaultMismatch failedItemIds.length canRestoreFromCloud⟩
  match getSyncedLocalVaultItem remote.items with
  | none => mismatch false
  | some syncedLocalVaultItem =>
    if unlockedVault.snapshot.items.isEmpty then
      match syncItemToEncryptedVault W syncedLocalVaultItem with
      | .error message => .caught storage [] [] message
      | .ok restored =>
        ⟨{ storage with vault := some restored, serverRevision := remote.serverRevision }, [], [],
          .restoredFromCloud restored remote.serverRevision⟩
    else mismatch true

def performSync (deps : Deps κ σ) (storage : Storage σ) : SyncRun κ σ :=
  match deps.encryptedVault, deps.user with
  | none, _ => ⟨storage, [], [], .noLocalVault⟩
  | some _, none => ⟨storage, [], [], .notLoggedIn⟩
  | some encryptedVault, some userId =>
    if deps.csrfToken = "" then ⟨storage, [], [], .notLoggedIn⟩
    else match server.pullVault with
      | .error message => .caught storage [] [] message
      | .ok remote =>
        let baseRevision := storage.serverRevision
        match deps.unlockedVault with
        -- a locked vault is pushed as it is stored
        | none => pushMerged R W readings server encryptedVault none userId remote baseRevision none storage
        | some unlockedVault =>
          if remote.items.isEmpty then
            pushMerged R W readings server encryptedVault (some unlockedVault) userId remote baseRevision none storage
          else
            let (storage, merged) := mergeRemoteItems R readings.now storage unlockedVault remote.items
            if merged.failedItemIds.isEmpty then
              -- the merged vault is stored before anything is pushed
              let (storage, persisted) := persistUnlockedVault W storage merged.vault readings.nonce readings.now
              pushMerged R W readings server encryptedVault (some unlockedVault) userId remote baseRevision
                (some persisted) storage
            else undecryptable W unlockedVault merged.failedItemIds remote storage

end

end ZeroVault.Legacy

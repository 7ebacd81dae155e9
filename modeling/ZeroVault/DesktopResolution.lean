import ZeroVault.DesktopMarks

/-!
# Conflict resolution on the desktop

`resolveConflict` of the sync service, against any server: `accept_remote` clears
the marker and sends nothing; the other two push, `keep_local` going on as a copy
after its third refusal in a row. What they come to is `conflict_outcomes`; the
Worker itself refuses every push of the desktop (`worker_resolves`).
-/

namespace ZeroVault.Desktop

open Lib
open Browser (Runtime VaultItem)

/-! ## The service -/

inductive Strategy
  | keepLocal
  | acceptRemote
  | createCopy
  | skip
deriving DecidableEq, Repr

/-- What a server makes of a plan, and what `fetch` comes to. -/
abbrev Server := WirePlan → Db → Db × Fetch ItemLevelSyncPushResult

structure Session where
  store : CiphertextStore
  keepLocalAttempts : Table ItemId Nat
  db : Db

/-- What the platform gives to a call: its clock, nonces and id, for the item and for a copy. -/
structure Draws where
  now : String
  nonces : String
  copyNow : String
  copyNonces : String
  clonedItemId : ItemId
deriving DecidableEq, Repr

structure ResolveConflictOptions (κ : Type) where
  localItem : VaultItem
  vaultKey : κ
  ownerUserId : UserId

def KEEP_LOCAL_RETRY_LIMIT : Nat := 3

def clearConflictMarker (itemId : ItemId) (store : CiphertextStore) : CiphertextStore :=
  let store := store.setConflictIds (store.getConflictIds.filter (· ≠ itemId))
  match store.getById itemId with
  | none => store
  | some stored => store.upsert { stored with hasConflict := false, conflictServerItemRevision := none }

def Session.attempts (s : Session) (itemId : ItemId) : Nat := (s.keepLocalAttempts.get? itemId).getD 0

section
variable {κ : Type} (R : Runtime κ) (serve : Server) (draws : Draws) (itemId : ItemId) (o : ResolveConflictOptions κ)

def pushSync (plan : WirePlan) (s : Session) : Session × Except Thrown ItemLevelSyncPushResult :=
  ({ s with db := (serve plan s.db).1 }, answerOf [409] (serve plan s.db).2)

def clonedItem : VaultItem :=
  { o.localItem with id := draws.clonedItemId, title := o.localItem.title ++ " (副本)", createdAt := draws.copyNow,
                     updatedAt := draws.copyNow }

def copyUpsert : WireUpsert :=
  { encryptedUpsert R o.vaultKey (clonedItem draws o) draws.copyNonces o.ownerUserId 0 draws.copyNow draws.copyNow 0 with
    encryptedSearchTokens := [] }

def resolveCreateCopy (s : Session) : Session × Except Thrown (Option ItemId) :=
  let upsert := copyUpsert R draws o
  match pushSync serve (upsertPlan s.store.serverRevision upsert) s with
  | (s, .error thrown) => (s, .error thrown)
  | (s, .ok response) =>
    let store := match s.store.getById itemId with
      | none => s.store
      | some stored => s.store.upsert { stored with hasConflict := false, conflictServerItemRevision := none }
    let conflicts := store.getConflictIds.filter (· ≠ itemId) ++ response.conflicts.map (·.itemId)
    let store := (store.setConflictIds conflicts).setServerRevision response.serverRevision
    let storedRevision := if draws.clonedItemId ∈ response.applied.upsertedItemIds then response.serverRevision else 1
    let store := if response.conflicts.isEmpty then store.upsert (storedUpsert upsert storedRevision draws.copyNow false none)
      else store
    ({ s with store }, .ok (some draws.clonedItemId))

/-- The revision that the upsert of `keep_local` is based on. -/
def serverItemRevision (stored : StoredItem) : Nat := stored.conflictServerItemRevision.getD stored.itemRevision

def keepLocalUpsert (stored : StoredItem) : WireUpsert :=
  { encryptedUpsert R o.vaultKey o.localItem draws.nonces o.ownerUserId (serverItemRevision stored + 1)
      stored.ciphertext.createdAt draws.now (serverItemRevision stored) with
    id := itemId }

def resolveKeepLocal (s : Session) : Session × Except Thrown (Option ItemId) :=
  match s.store.getById itemId with
  | none => ({ s with store := clearConflictMarker itemId s.store }, .ok none)
  | some stored =>
    let upsert := keepLocalUpsert R draws itemId o stored
    match pushSync serve (upsertPlan s.store.serverRevision upsert) s with
    | (s, .error thrown) => (s, .error thrown)
    | (s, .ok response) =>
      if response.conflicts.isEmpty then
        let storedRevision :=
          if itemId ∈ response.applied.upsertedItemIds then response.serverRevision else serverItemRevision stored + 1
        let store := s.store.upsert (storedUpsert upsert storedRevision draws.now false none)
        ({ s with
            store := store.setServerRevision response.serverRevision
            keepLocalAttempts := s.keepLocalAttempts.erase itemId }, .ok none)
      else
        let attempts := s.attempts itemId + 1
        -- refused too often, the local version becomes a copy
        if KEEP_LOCAL_RETRY_LIMIT ≤ attempts then
          resolveCreateCopy R serve draws itemId o { s with keepLocalAttempts := s.keepLocalAttempts.erase itemId }
        else
          let conflictIds := s.store.getConflictIds ++ response.conflicts.map (·.itemId)
          let store := (s.store.setConflictIds conflictIds).setServerRevision response.serverRevision
          let newServerItemRevision := (conflictOf response itemId).getD (serverItemRevision stored)
          let stored := storedUpsert upsert (serverItemRevision stored) draws.now true (some newServerItemRevision)
          ({ s with store := store.upsert stored, keepLocalAttempts := s.keepLocalAttempts.set itemId attempts }, .ok none)

def Service.resolveConflict (s : Session) : Strategy → Session × Except Thrown (Option ItemId)
  | .skip => (s, .ok none)
  | .acceptRemote => ({ s with store := clearConflictMarker itemId s.store }, .ok none)
  | .keepLocal => resolveKeepLocal R serve draws itemId o s
  | .createCopy => resolveCreateCopy R serve draws itemId o s

end

/-- `resolveConflict` of the vault state: the local item is the decrypted one, and a failure is its message. -/
def resolveConflict {κ : Type} (R : Runtime κ) (syncService : Option Server) (draws : Draws) (items : List VaultItem)
    (vaultKey : Option κ) (ownerUserId : UserId) (itemId : ItemId) (strategy : Strategy) (s : Session) :
    Session × Except String (Option ItemId) :=
  match syncService, vaultKey, items.find? (·.id = itemId) with
  | none, _, _ => (s, .error "同步服务未配置")
  | some _, none, _ => (s, .error "密码库已锁定，请先解锁")
  | some _, some _, none => (s, .error "未找到冲突项目")
  | some serve, some vaultKey, some localItem =>
    let (s, result) := Service.resolveConflict R serve draws itemId ⟨localItem, vaultKey, ownerUserId⟩ s strategy
    (s, result.mapError getErrorMessage)

/-! ## What a server holds -/

/-- The current version of the user's item; `none` where there is none or it is deleted. -/
def serverItem (db : Db) (ownerUserId : UserId) (id : ItemId) : Option VaultItemCiphertext :=
  ((db.vaultItems.get? id).filter fun row => row.userId = ownerUserId && row.deletedAt.isNone).map (rowToVaultItem id)

/-- The server answers without a conflict only where it has stored what it was sent. Only of upserts that name no
mutation, as all of the desktop's. -/
def Honest (serve : Server) : Prop :=
  ∀ plan db response, answerOf [409] (serve plan db).2 = .ok response → response.conflicts = [] →
    ∀ u ∈ plan.upserts, u.clientMutationId = none → ∃ item, serverItem (serve plan db).1 u.ownerUserId u.id = some item ∧
      item.encryptedItemKey = u.encryptedItemKey ∧ item.encryptedPayload = u.encryptedPayload

def worker (F : Formats) (env : Nat → Env) (userId : UserId) : Server := fun plan db =>
  (((postItemSync F env userId plan).run db).1, .answered ((postItemSync F env userId plan).run db).2)

section
variable {F : Formats} {env : Nat → Env} {userId : UserId} {plan : WirePlan} {db : Db}

theorem worker_refuses {u : WireUpsert} (hu : u ∈ plan.upserts) (hname : u.clientMutationId = none) :
    worker F env userId plan db = (db, .answered ⟨400, some "invalid_item_sync_request", none⟩) := by
  unfold worker postItemSync
  rw [parse_unnamed (.inl ⟨u, hu, hname⟩)]
  rfl

theorem worker_honest : Honest (worker F env userId) := by
  intro plan db response hanswer _ u hu hname
  rw [worker_refuses hu hname] at hanswer
  cases hanswer

end

/-! ## The store after a resolution -/

section
variable {store : CiphertextStore} {itemId : ItemId} {stored : StoredItem}

theorem getById_clearConflictMarker (h : store.getById itemId = some stored) :
    (clearConflictMarker itemId store).getById itemId =
      some { stored with hasConflict := false, conflictServerItemRevision := none } := by
  have hid := CiphertextStore.getById_itemId h
  unfold clearConflictMarker
  dsimp only
  rw [getById_setConflictIds, h, Option.map_some]
  dsimp only
  rw [getById_upsert, if_pos hid.symm]

end

/-! ## What a resolution comes to -/

section
variable {κ : Type} {R : Runtime κ} {serve : Server} {draws : Draws} {itemId : ItemId} {o : ResolveConflictOptions κ}
variable {s s' : Session} {stored : StoredItem} {result : Except Thrown (Option ItemId)}

def Carries (R : Runtime κ) (vaultKey : κ) (item : VaultItem) (ciphertext : VaultItemCiphertext) : Prop :=
  ∃ nonces, R.encryptItem vaultKey item nonces = ⟨ciphertext.encryptedItemKey, ciphertext.encryptedPayload⟩

/-- The server's current version under the id is an encryption of the item. -/
def OnServer (R : Runtime κ) (o : ResolveConflictOptions κ) (id : ItemId) (item : VaultItem) (db : Db) : Prop :=
  ∃ ciphertext, serverItem db o.ownerUserId id = some ciphertext ∧ Carries R o.vaultKey item ciphertext

def copyPlan (R : Runtime κ) (draws : Draws) (o : ResolveConflictOptions κ) (store : CiphertextStore) : WirePlan :=
  upsertPlan store.serverRevision (copyUpsert R draws o)

/-- The server, in the state `db`, has answered the push of the copy, and holds the copy unless the answer has conflicts. -/
def Copied (R : Runtime κ) (serve : Server) (draws : Draws) (o : ResolveConflictOptions κ) (store : CiphertextStore)
    (db db' : Db) : Prop :=
  db' = (serve (copyPlan R draws o store) db).1 ∧
    ∃ response, answerOf [409] (serve (copyPlan R draws o store) db).2 = .ok response ∧
      (response.conflicts = [] → OnServer R o draws.clonedItemId (clonedItem draws o) db')

/-- The local content is stored: as it was, or encrypted again. -/
def LocalContent (R : Runtime κ) (o : ResolveConflictOptions κ) (stored stored' : StoredItem) : Prop :=
  stored'.ciphertext = stored.ciphertext ∨ Carries R o.vaultKey o.localItem stored'.ciphertext

theorem onServer_of_honest (hserve : Honest serve) {plan : WirePlan} {db : Db} {response : ItemLevelSyncPushResult}
    (hanswer : answerOf [409] (serve plan db).2 = .ok response) (hnone : response.conflicts = []) {u : WireUpsert}
    (hu : u ∈ plan.upserts) (hname : u.clientMutationId = none) (howner : u.ownerUserId = o.ownerUserId)
    {item : VaultItem} {nonces : String}
    (hencrypts : R.encryptItem o.vaultKey item nonces = ⟨u.encryptedItemKey, u.encryptedPayload⟩) :
    OnServer R o u.id item (serve plan db).1 := by
  obtain ⟨ciphertext, hitem, hkey, hpayload⟩ := hserve _ _ _ hanswer hnone u hu hname
  exact ⟨ciphertext, howner ▸ hitem, nonces, by rw [hencrypts, hkey, hpayload]⟩

theorem resolveCreateCopy_outcome (hserve : Honest serve) (hid : draws.clonedItemId ≠ itemId)
    (h : resolveCreateCopy R serve draws itemId o s = (s', result)) (hstored : s.store.getById itemId = some stored) :
    (s'.store = s.store ∧ ∃ thrown, result = .error thrown) ∨
      (∃ id, result = .ok id) ∧ Copied R serve draws o s.store s.db s'.db ∧
        ∃ stored', s'.store.getById itemId = some stored' ∧ stored'.ciphertext = stored.ciphertext := by
  unfold resolveCreateCopy pushSync at h
  dsimp only at h
  cases hanswer : answerOf [409] (serve (upsertPlan s.store.serverRevision (copyUpsert R draws o)) s.db).2 with
  | error thrown =>
    rw [hanswer] at h
    cases h
    exact .inl ⟨rfl, thrown, rfl⟩
  | ok response =>
    rw [hanswer] at h
    dsimp only at h
    rw [hstored] at h
    cases h
    refine .inr ⟨⟨_, rfl⟩, ⟨rfl, response, hanswer, fun hnone => ?_⟩, ?_⟩
    · exact onServer_of_honest hserve hanswer hnone (List.mem_singleton_self _) rfl rfl rfl
    · have hrow (ids : List ItemId) : ((((s.store.upsert { stored with
          hasConflict := false, conflictServerItemRevision := none }).setConflictIds ids).setServerRevision
          response.serverRevision).getById itemId).map (·.ciphertext) = some stored.ciphertext := by
        change (((s.store.upsert _).setConflictIds ids).getById itemId).map _ = _
        rw [getById_setConflictIds, getById_upsert, if_pos (CiphertextStore.getById_itemId hstored).symm]
        rfl
      refine Option.map_eq_some_iff.mp ?_
      dsimp only
      split
      · rw [getById_upsert, if_neg (fun he => hid he.symm)]
        exact hrow _
      · exact hrow _

/-- What `keep_local` comes to: the item is on the server, or a copy is, or the item is in conflict as before. -/
theorem resolveKeepLocal_outcome (hserve : Honest serve) (hstored : s.store.getById itemId = some stored)
    (hid : draws.clonedItemId ≠ itemId)
    (h : resolveKeepLocal R serve draws itemId o s = (s', result)) :
    (s'.store = s.store ∧ ∃ thrown, result = .error thrown) ∨
      (∃ id, result = .ok id) ∧ ∃ stored', s'.store.getById itemId = some stored' ∧ LocalContent R o stored stored' ∧
        (stored'.hasConflict = true ∨ OnServer R o itemId o.localItem s'.db ∨
          KEEP_LOCAL_RETRY_LIMIT ≤ s.attempts itemId + 1 ∧ ∃ db, Copied R serve draws o s.store db s'.db) := by
  unfold resolveKeepLocal pushSync at h
  rw [hstored] at h
  dsimp only at h
  cases hanswer : answerOf [409]
      (serve (upsertPlan s.store.serverRevision (keepLocalUpsert R draws itemId o stored)) s.db).2 with
  | error thrown =>
    rw [hanswer] at h
    cases h
    exact .inl ⟨rfl, thrown, rfl⟩
  | ok response =>
    rw [hanswer] at h
    dsimp only at h
    -- the row that either branch without a copy stores
    have hrow (store : CiphertextStore) (revision : Nat) (mark : Bool) (noted : Option Nat) :
        (store.upsert (storedUpsert (keepLocalUpsert R draws itemId o stored) revision draws.now mark noted)).getById itemId =
          some (storedUpsert (keepLocalUpsert R draws itemId o stored) revision draws.now mark noted) := by
      rw [getById_upsert]
      exact if_pos rfl
    have hcontent (revision : Nat) (mark : Bool) (noted : Option Nat) : LocalContent R o stored
        (storedUpsert (keepLocalUpsert R draws itemId o stored) revision draws.now mark noted) := .inr ⟨draws.nonces, rfl⟩
    split at h
    · rename_i hnone
      cases h
      refine .inr ⟨⟨_, rfl⟩, _, hrow .., hcontent .., .inr (.inl ?_)⟩
      exact onServer_of_honest hserve hanswer (List.isEmpty_iff.mp hnone) (List.mem_singleton_self _) rfl rfl rfl
    split at h
    · rename_i hlimit
      rcases resolveCreateCopy_outcome hserve hid h hstored with ⟨hstore, hthrown⟩ | ⟨hok, hcopied, stored', hrow', hcipher⟩
      · exact .inl ⟨hstore, hthrown⟩
      · exact .inr ⟨hok, stored', hrow', .inl hcipher, .inr (.inr ⟨hlimit, _, hcopied⟩)⟩
    · cases h
      exact .inr ⟨⟨_, rfl⟩, _, hrow .., hcontent .., .inl rfl⟩

/-- When the marker is cleared, by strategy. -/
def Cleared (R : Runtime κ) (serve : Server) (draws : Draws) (itemId : ItemId) (o : ResolveConflictOptions κ)
    (s s' : Session) (stored stored' : StoredItem) : Strategy → Prop
  | .skip => False
  | .acceptRemote => stored' = { stored with hasConflict := false, conflictServerItemRevision := none } ∧ s'.db = s.db
  | .keepLocal => OnServer R o itemId o.localItem s'.db ∨
      KEEP_LOCAL_RETRY_LIMIT ≤ s.attempts itemId + 1 ∧ ∃ db, Copied R serve draws o s.store db s'.db
  | .createCopy => Copied R serve draws o s.store s.db s'.db

theorem service_outcome (hserve : Honest serve) (hstored : s.store.getById itemId = some stored)
    (hmark : stored.hasConflict = true) (hid : draws.clonedItemId ≠ itemId) {strategy : Strategy}
    (h : Service.resolveConflict R serve draws itemId o s strategy = (s', result)) :
    ∃ stored', s'.store.getById itemId = some stored' ∧ LocalContent R o stored stored' ∧
      (stored'.hasConflict = true ∨ (∃ id, result = .ok id) ∧ Cleared R serve draws itemId o s s' stored stored' strategy) := by
  have hsame (hstore : s'.store = s.store) : ∃ stored', s'.store.getById itemId = some stored' ∧
      LocalContent R o stored stored' ∧
      (stored'.hasConflict = true ∨ (∃ id, result = .ok id) ∧ Cleared R serve draws itemId o s s' stored stored' strategy) :=
    ⟨stored, hstore ▸ hstored, .inl rfl, .inl hmark⟩
  cases strategy with
  | skip =>
    cases h
    exact hsame rfl
  | acceptRemote =>
    cases h
    exact ⟨_, getById_clearConflictMarker hstored, .inl rfl, .inr ⟨⟨_, rfl⟩, rfl, rfl⟩⟩
  | keepLocal =>
    rcases resolveKeepLocal_outcome hserve hstored hid h with ⟨hstore, -⟩ | ⟨hok, stored', hrow, hcontent, hcase⟩
    · exact hsame hstore
    · exact ⟨stored', hrow, hcontent, hcase.imp_right fun hcleared => ⟨hok, hcleared⟩⟩
  | createCopy =>
    rcases resolveCreateCopy_outcome hserve hid h hstored with ⟨hstore, -⟩ | ⟨hok, hcopied, stored', hrow, hcipher⟩
    · exact hsame hstore
    · exact ⟨stored', hrow, .inl hcipher, .inr ⟨hok, hcopied⟩⟩

end

/-- Over any honest server: the local content stays stored, and where the marker goes the outcome is `Cleared`. -/
theorem conflict_outcomes {κ : Type} {R : Runtime κ} {syncService : Option Server} {draws : Draws} {items : List VaultItem}
    {vaultKey : Option κ} {ownerUserId : UserId} {itemId : ItemId} {strategy : Strategy} {s s' : Session}
    {stored : StoredItem} {result : Except String (Option ItemId)} (hserve : ∀ serve ∈ syncService, Honest serve)
    (hstored : s.store.getById itemId = some stored) (hmark : stored.hasConflict = true)
    (hid : draws.clonedItemId ≠ itemId)
    (h : resolveConflict R syncService draws items vaultKey ownerUserId itemId strategy s = (s', result)) :
    (s' = s ∧ ∃ message, result = .error message) ∨ ∃ serve ∈ syncService, ∃ key ∈ vaultKey, ∃ localItem ∈ items,
      localItem.id = itemId ∧ ∃ stored', s'.store.getById itemId = some stored' ∧
        LocalContent R ⟨localItem, key, ownerUserId⟩ stored stored' ∧
        (stored'.hasConflict = true ∨ (∃ id, result = .ok id) ∧
          Cleared R serve draws itemId ⟨localItem, key, ownerUserId⟩ s s' stored stored' strategy) := by
  unfold resolveConflict at h
  split at h
  · cases h
    exact .inl ⟨rfl, _, rfl⟩
  · cases h
    exact .inl ⟨rfl, _, rfl⟩
  · cases h
    exact .inl ⟨rfl, _, rfl⟩
  · rename_i serve key localItem hfind
    cases hrun : Service.resolveConflict R serve draws itemId ⟨localItem, key, ownerUserId⟩ s strategy with
    | mk s₁ served =>
      rw [hrun] at h
      cases h
      obtain ⟨stored', hrow, hcontent, hcase⟩ := service_outcome (hserve serve rfl) hstored hmark hid hrun
      refine .inr ⟨serve, rfl, key, rfl, localItem, List.mem_of_find?_eq_some hfind, ?_, stored', hrow, hcontent, ?_⟩
      · simpa using List.find?_some hfind
      · rcases hcase with hmark' | ⟨⟨id, rfl⟩, hcleared⟩
        · exact .inl hmark'
        · exact .inr ⟨⟨id, rfl⟩, hcleared⟩

/-! ## An edit the server has moved on from -/

def sampleDraws : Draws where
  now := "2024-01-03T00:00:00.000Z"
  nonces := ""
  copyNow := "2024-01-03T00:00:00.000Z"
  copyNonces := ""
  clonedItemId := "0b8f8ed0-4c1a-4e0e-9d5e-0d1c5a0a0009"

def otherEnvelope : CiphertextEnvelope := ⟨.aes256Gcm, "BBBBBBBBBBBBBBBB", "AAAAAAAAAAAAAAAAAAAAAA", none⟩

/-- The server's version of the item of `refusedEdit`. -/
def remoteVersion : VaultItemCiphertext :=
  { sampleUpsert.toVaultItemCiphertext with revision := 2, encryptedItemKey := otherEnvelope, encryptedPayload := otherEnvelope }

def remoteDb : Db :=
  { vaultItems := (∅ : Table ItemId VaultItemRow).set sampleUpsert.id (VaultItemRow.ofItem sampleUser remoteVersion) }

/-- Two refusals of `keep_local` before. -/
def refusedTwice : Session := ⟨refusedStore, (∅ : Table ItemId Nat).set sampleUpsert.id 2, remoteDb⟩

/-- A server that keeps its version of the item and stores any other. -/
def keepsItsVersion : Server := fun plan db =>
  match plan.upserts with
  | [u] =>
    if u.id = sampleUpsert.id then (db, .answered ⟨409, some "sync_conflict", some ⟨2, ⟨[], [], []⟩,
      [⟨u.id, .upsert, .itemRevisionAdvanced, u.baseItemRevision, 2, some 2, .item remoteVersion⟩]⟩⟩)
    else ({ db with vaultItems := db.vaultItems.set u.id (VaultItemRow.ofItem u.ownerUserId u.toVaultItemCiphertext) },
      .answered ⟨200, none, some ⟨3, ⟨[u.id], [], []⟩, []⟩⟩)
  | _ => (db, .failed)

theorem keepsItsVersion_honest : Honest keepsItsVersion := by
  intro plan db response hanswer hnone u hu _
  unfold keepsItsVersion at hanswer ⊢
  split at hanswer
  · rename_i u' hplan
    rw [hplan] at hu
    obtain rfl := List.mem_singleton.mp hu
    split at hanswer
    · cases hanswer
      cases hnone
    · rename_i hother
      rw [if_neg hother]
      refine ⟨rowToVaultItem u.id (VaultItemRow.ofItem u.ownerUserId u.toVaultItemCiphertext), ?_, rfl, rfl⟩
      unfold serverItem
      dsimp only
      rw [Table.get?_set, if_pos rfl]
      simp [VaultItemRow.ofItem]
  · cases hanswer

def acceptedRun : Session × Except String (Option ItemId) :=
  resolveConflict sampleRuntime (some (worker sampleFormats (fun _ => ⟨id, id⟩) sampleUser)) sampleDraws [sampleLogin]
    (some ()) sampleUser sampleUpsert.id .acceptRemote refusedTwice

def copiedRun : Session × Except String (Option ItemId) :=
  resolveConflict sampleRuntime (some keepsItsVersion) sampleDraws [sampleLogin] (some ()) sampleUser sampleUpsert.id
    .keepLocal refusedTwice

theorem refusedEdit_stored : refusedStore.getById sampleUpsert.id = some refusedEdit := by
  unfold refusedStore
  rw [getById_upsert]
  exact if_pos rfl

/-- The marker goes, and neither is the stored version the server's nor the server's the local one: after
`accept_remote` against the Worker, and after the third refusal of `keep_local`. -/
theorem cleared_without_outcome :
    (acceptedRun.1.store.getConflictIds = [] ∧
      (acceptedRun.1.store.getById sampleUpsert.id).map (·.ciphertext) = some refusedEdit.ciphertext ∧
      serverItem acceptedRun.1.db sampleUser sampleUpsert.id = some remoteVersion ∧
      remoteVersion ≠ refusedEdit.ciphertext) ∧
    copiedRun.1.store.getConflictIds = [] ∧
      serverItem copiedRun.1.db sampleUser sampleUpsert.id = some remoteVersion ∧
      ¬ Carries sampleRuntime () sampleLogin remoteVersion := by
  refine ⟨⟨by decide +kernel, by decide +kernel, by decide +kernel, by decide⟩, by decide +kernel, by decide +kernel, ?_⟩
  rintro ⟨_, h⟩
  have hkey : sampleEnvelope = otherEnvelope := congrArg (·.encryptedItemKey) h
  exact absurd hkey (by decide)

theorem conflict_outcomes_copied :
    (copiedRun.1 = refusedTwice ∧ ∃ message, copiedRun.2 = .error message) ∨
      ∃ serve ∈ some keepsItsVersion, ∃ key ∈ some (), ∃ localItem ∈ [sampleLogin], localItem.id = sampleUpsert.id ∧
        ∃ stored', copiedRun.1.store.getById sampleUpsert.id = some stored' ∧
          LocalContent sampleRuntime ⟨localItem, key, sampleUser⟩ refusedEdit stored' ∧
          (stored'.hasConflict = true ∨ (∃ id, copiedRun.2 = .ok id) ∧
            Cleared sampleRuntime serve sampleDraws sampleUpsert.id ⟨localItem, key, sampleUser⟩ refusedTwice copiedRun.1
              refusedEdit stored' .keepLocal) :=
  conflict_outcomes (fun _ hserve => Option.mem_some_iff.mp hserve ▸ keepsItsVersion_honest) refusedEdit_stored rfl
    (by decide) rfl

/-- The Worker refuses what `keep_local` and `create_copy` push, and nothing changes. -/
theorem worker_resolves {κ : Type} (R : Runtime κ) (F : Formats) (env : Nat → Env) (userId : UserId) (draws : Draws)
    {itemId : ItemId} (o : ResolveConflictOptions κ) {s : Session} {stored : StoredItem}
    (hstored : s.store.getById itemId = some stored) {strategy : Strategy}
    (hpush : strategy = .keepLocal ∨ strategy = .createCopy) :
    Service.resolveConflict R (worker F env userId) draws itemId o s strategy =
      (s, .error (.error "invalid_item_sync_request")) := by
  rcases hpush with rfl | rfl
  · unfold Service.resolveConflict resolveKeepLocal pushSync
    rw [hstored]
    dsimp only
    rw [worker_refuses (List.mem_singleton_self _) rfl]
    rfl
  · unfold Service.resolveConflict resolveCreateCopy pushSync
    dsimp only
    rw [worker_refuses (List.mem_singleton_self _) rfl]
    rfl

end ZeroVault.Desktop

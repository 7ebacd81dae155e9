import ZeroVault.OfflinePush

/-!
# Conflict marks and the desktop's pull

Both ciphertext stores of the desktop, seen through their item rows and their set
of conflict ids. A pull looks at neither: it keeps what is in conflict exactly
when it does not touch it (`pull_keeps_conflicts`).
-/

namespace ZeroVault.Desktop

open Lib

/-! ## The store of the tests -/

structure InMemoryCiphertextStore where
  items : Table ItemId StoredItem
  serverRevision : Nat
  lastSyncedAt : Option String
  conflictIds : List ItemId

namespace InMemoryCiphertextStore

def getById (store : InMemoryCiphertextStore) (itemId : ItemId) : Option StoredItem := store.items.get? itemId

def upsert (store : InMemoryCiphertextStore) (item : StoredItem) : InMemoryCiphertextStore :=
  { store with items := store.items.set item.itemId item }

def delete (store : InMemoryCiphertextStore) (itemId : ItemId) : InMemoryCiphertextStore :=
  { store with items := store.items.erase itemId }

def setServerRevision (store : InMemoryCiphertextStore) (revision : Nat) : InMemoryCiphertextStore :=
  { store with serverRevision := revision }

def setLastSyncedAt (store : InMemoryCiphertextStore) (timestamp : String) : InMemoryCiphertextStore :=
  { store with lastSyncedAt := some timestamp }

def getConflictIds (store : InMemoryCiphertextStore) : List ItemId := store.conflictIds

def setConflictIds (store : InMemoryCiphertextStore) (ids : List ItemId) : InMemoryCiphertextStore :=
  { store with conflictIds := ids }

/-- `processPullResponse` over this store. -/
def processPullResponse (now : String) (response : ItemLevelSyncPullResponse) (store : InMemoryCiphertextStore) :
    InMemoryCiphertextStore × SyncResult :=
  let store := response.items.foldl (fun store item => store.upsert (pulledItem now item)) store
  let store := response.deletedItemIds.foldl delete store
  let store := (store.setServerRevision response.serverRevision).setLastSyncedAt now
  let existingConflicts := store.getConflictIds
  (store.setConflictIds existingConflicts, ⟨response.items.length, existingConflicts, response.serverRevision⟩)

end InMemoryCiphertextStore

/-! ## What is in conflict -/

structure StoreView where
  getById : ItemId → Option StoredItem
  conflictIds : List ItemId

def CiphertextStore.view (store : CiphertextStore) : StoreView := ⟨store.getById, store.getConflictIds⟩

def InMemoryCiphertextStore.view (store : InMemoryCiphertextStore) : StoreView := ⟨store.getById, store.getConflictIds⟩

def StoreView.Consistent (v : StoreView) : Prop :=
  ∀ x, x ∈ v.conflictIds ↔ ∃ item, v.getById x = some item ∧ item.hasConflict = true

/-- The item has kept its ciphertext and its marks, or has moved to a revision of the response. -/
def Survives (response : ItemLevelSyncPullResponse) (x : ItemId) (item item' : StoredItem) : Prop :=
  item'.ciphertext = item.ciphertext ∧ item'.hasConflict = item.hasConflict ∧
    (item'.conflictServerItemRevision = item.conflictServerItemRevision ∨
      ∃ remote ∈ response.items, remote.id = x ∧ item'.conflictServerItemRevision = some remote.revision)

/-- What was in conflict is still there and in conflict, and set and marks agree. -/
def KeepsConflicts (response : ItemLevelSyncPullResponse) (v v' : StoreView) : Prop :=
  v'.Consistent ∧ ∀ x ∈ v.conflictIds, x ∈ v'.conflictIds ∧
    ∃ item item', v.getById x = some item ∧ v'.getById x = some item' ∧ Survives response x item item'

/-- The items that the response writes or removes. -/
def touched (response : ItemLevelSyncPullResponse) : List ItemId :=
  response.items.map (·.id) ++ response.deletedItemIds

/-! ## Rows after a pull -/

section
variable {response : ItemLevelSyncPullResponse} {now : String}

/-- The row a pull leaves: removed, the response's, or the one that was there. -/
def pulledRow (now : String) (response : ItemLevelSyncPullResponse) (row : Option StoredItem) (x : ItemId) :
    Option StoredItem :=
  if x ∈ response.deletedItemIds then none
  else ((response.items.reverse.find? (·.id = x)).map (pulledItem now)).or row

theorem pulledRow_untouched {row : Option StoredItem} {x : ItemId} (h : x ∉ touched response) :
    pulledRow now response row x = row := by
  obtain ⟨hitems, hdeleted⟩ := not_or.mp fun hx => h (List.mem_append.mpr hx)
  unfold pulledRow
  rw [if_neg hdeleted, List.find?_eq_none.mpr fun item hitem hid => hitems (List.mem_map.mpr
    ⟨item, List.mem_reverse.mp hitem, of_decide_eq_true hid⟩)]
  rfl

/-- A row of the response carries no mark. -/
theorem pulledRow_touched {row : Option StoredItem} {x : ItemId} (h : x ∈ touched response) {item : StoredItem}
    (hitem : pulledRow now response row x = some item) : item.hasConflict = false := by
  unfold pulledRow at hitem
  split at hitem
  · cases hitem
  · rename_i hdeleted
    obtain ⟨remote, hremote, hid⟩ := List.mem_map.mp ((List.mem_append.mp h).resolve_right hdeleted)
    cases hfind : response.items.reverse.find? (·.id = x) with
    | none => exact absurd (decide_eq_true hid) (List.find?_eq_none.mp hfind remote (List.mem_reverse.mpr hremote))
    | some found =>
      rw [hfind] at hitem
      cases hitem
      rfl

/-- Loops that set and erase rows of a table leave what `pulledRow` says. -/
theorem pulledRow_eq {σ : Type} {getById : σ → ItemId → Option StoredItem} {upsert : σ → StoredItem → σ}
    {delete : σ → ItemId → σ}
    (hupsert : ∀ store item x, getById (upsert store item) x = if x = item.itemId then some item else getById store x)
    (hdelete : ∀ store itemId x, getById (delete store itemId) x = if x = itemId then none else getById store x)
    (store : σ) (x : ItemId) :
    getById (response.deletedItemIds.foldl delete
      (response.items.foldl (fun store item => upsert store (pulledItem now item)) store)) x =
      pulledRow now response (getById store x) x := by
  have hitems (items : List VaultItemCiphertext) :
      getById (items.foldl (fun store item => upsert store (pulledItem now item)) store) x =
        ((items.reverse.find? (·.id = x)).map (pulledItem now)).or (getById store x) := by
    induction items using List.reverseRecOn with
    | nil => rfl
    | append_singleton items item ih =>
      rw [List.foldl_append, List.foldl_cons, List.foldl_nil, hupsert, ih, List.reverse_append, List.reverse_singleton,
        List.singleton_append, List.find?_cons, show (pulledItem now item).itemId = item.id from rfl]
      by_cases hid : x = item.id
      · rw [if_pos hid, decide_eq_true hid.symm]
        rfl
      · rw [if_neg hid, decide_eq_false fun he => hid he.symm]
  have hdeleted (ids : List ItemId) : ∀ store, getById (ids.foldl delete store) x =
      if x ∈ ids then none else getById store x := by
    induction ids with
    | nil => exact fun _ => rfl
    | cons itemId ids ih =>
      intro store
      rw [List.foldl_cons, ih, hdelete]
      by_cases hid : x = itemId
      · simp [hid]
      · simp [hid]
  rw [hdeleted, hitems]
  rfl

end

/-! ## Rows of the stores -/

namespace InMemoryCiphertextStore

variable {store : InMemoryCiphertextStore} {x : ItemId}

theorem getById_upsert (item : StoredItem) :
    (store.upsert item).getById x = if x = item.itemId then some item else store.getById x := Table.get?_set ..

theorem getById_delete (itemId : ItemId) :
    (store.delete itemId).getById x = if x = itemId then none else store.getById x := Table.get?_erase ..

/-- The loops of a pull leave the set of ids as it is. -/
theorem conflictIds_pulled (now : String) (response : ItemLevelSyncPullResponse) (store : InMemoryCiphertextStore) :
    (store.processPullResponse now response).1.conflictIds = store.conflictIds := by
  have hitems : ∀ (items : List VaultItemCiphertext) (store : InMemoryCiphertextStore),
      (items.foldl (fun store item => store.upsert (pulledItem now item)) store).conflictIds = store.conflictIds := by
    intro items
    induction items with
    | nil => exact fun _ => rfl
    | cons item items ih => exact fun store => ih _
  have hdeleted : ∀ (ids : List ItemId) (store : InMemoryCiphertextStore),
      (ids.foldl delete store).conflictIds = store.conflictIds := by
    intro ids
    induction ids with
    | nil => exact fun _ => rfl
    | cons id ids ih => exact fun store => ih _
  exact (hdeleted _ _).trans (hitems _ _)

end InMemoryCiphertextStore

section
variable {store : CiphertextStore} {x : ItemId}

theorem getById_clearConflicts :
    store.clearConflicts.getById x = (store.getById x).map fun item => { item with hasConflict := false } := by
  unfold CiphertextStore.clearConflicts CiphertextStore.getById
  rw [Table.get?_updateWhere, Option.map_map, Option.map_map]
  rfl

theorem getById_setConflictIds (ids : List ItemId) : (store.setConflictIds ids).getById x =
    (store.getById x).map fun item => { item with hasConflict := decide (x ∈ ids) } := by
  have hmarks : ∀ (ids : List ItemId) (store : CiphertextStore), (ids.foldl CiphertextStore.markConflict store).getById x =
      (store.getById x).map fun item => { item with hasConflict := item.hasConflict || decide (x ∈ ids) } := by
    intro ids
    induction ids with
    | nil => exact fun store => by simp
    | cons itemId ids ih =>
      intro store
      rw [List.foldl_cons, ih, getById_markConflict, Option.map_map]
      congr 1
      funext item
      by_cases hid : x = itemId <;> simp [hid]
  unfold CiphertextStore.setConflictIds
  rw [hmarks, getById_clearConflicts, Option.map_map]
  congr 1

theorem view_consistent (store : CiphertextStore) : store.view.Consistent := fun _ => marked_getConflictIds

theorem getById_setSameIds : (store.setConflictIds store.getConflictIds).getById x = store.getById x := by
  rw [getById_setConflictIds]
  cases hrow : store.getById x with
  | none => rfl
  | some item =>
    have hmark : decide (x ∈ store.getConflictIds) = item.hasConflict := by
      rw [Bool.eq_iff_iff, decide_eq_true_eq, marked_getConflictIds, Marked, hrow]
      exact ⟨fun ⟨_, he, h⟩ => by cases he; exact h, fun h => ⟨item, rfl, h⟩⟩
    rw [Option.map_some, hmark]

theorem getById_processPullResponse (now : String) (response : ItemLevelSyncPullResponse) :
    (processPullResponse now response store).1.getById x = pulledRow now response (store.getById x) x := by
  unfold processPullResponse
  dsimp only
  rw [getById_setSameIds]
  exact pulledRow_eq (fun _ item _ => getById_upsert item) (fun _ itemId _ => getById_delete itemId) store x

theorem marked_pulled {v v' : StoreView} {now : String} {response : ItemLevelSyncPullResponse} (hv : v.Consistent)
    (hrows : ∀ x, v'.getById x = pulledRow now response (v.getById x) x)
    (huntouched : ∀ x ∈ v.conflictIds, x ∉ touched response) (x : ItemId) :
    (∃ item, v'.getById x = some item ∧ item.hasConflict = true) ↔ x ∈ v.conflictIds := by
  constructor
  · rintro ⟨item, hitem, hmark⟩
    have hnot : x ∉ touched response := fun ht =>
      absurd ((pulledRow_touched ht ((hrows x).symm.trans hitem)).symm.trans hmark) Bool.false_ne_true
    rw [hrows x, pulledRow_untouched hnot] at hitem
    exact (hv x).mpr ⟨item, hitem, hmark⟩
  · intro hx
    rw [hrows x, pulledRow_untouched (huntouched x hx)]
    exact (hv x).mp hx

/-- A pull whose rows are those of `pulledRow` keeps what is in conflict exactly where it does not touch it. -/
theorem keeps_iff {v v' : StoreView} {now : String} {response : ItemLevelSyncPullResponse} (hv : v.Consistent)
    (hrows : ∀ x, v'.getById x = pulledRow now response (v.getById x) x)
    (hids : (∀ x ∈ v.conflictIds, x ∉ touched response) → ∀ x, x ∈ v'.conflictIds ↔ x ∈ v.conflictIds) :
    KeepsConflicts response v v' ↔ ∀ x ∈ v.conflictIds, x ∉ touched response := by
  constructor
  · rintro ⟨-, hkept⟩ x hx htouched
    obtain ⟨item, hitem, hmark⟩ := (hv x).mp hx
    obtain ⟨-, item₁, item', h1, hitem', -, hsame, -⟩ := hkept x hx
    rw [hitem] at h1
    cases h1
    rw [pulledRow_touched htouched ((hrows x).symm.trans hitem')] at hsame
    exact absurd (hsame.trans hmark) Bool.false_ne_true
  · intro huntouched
    refine ⟨fun x => (hids huntouched x).trans (marked_pulled hv hrows huntouched x).symm, fun x hx => ?_⟩
    obtain ⟨item, hitem, -⟩ := (hv x).mp hx
    have hrow : v'.getById x = v.getById x := (hrows x).trans (pulledRow_untouched (huntouched x hx))
    exact ⟨(hids huntouched x).mpr hx, item, item, hitem, hrow.trans hitem, rfl, rfl, .inl rfl⟩

/-- In either store a pull keeps what is in conflict exactly when the response names none of it. -/
theorem pull_keeps_conflicts (now : String) (response : ItemLevelSyncPullResponse) :
    (∀ store : CiphertextStore, KeepsConflicts response store.view (processPullResponse now response store).1.view ↔
      ∀ x ∈ store.getConflictIds, x ∉ touched response) ∧
    ∀ store : InMemoryCiphertextStore, store.view.Consistent →
      (KeepsConflicts response store.view (store.processPullResponse now response).1.view ↔
        ∀ x ∈ store.getConflictIds, x ∉ touched response) := by
  refine ⟨fun store => ?_, fun store hv => ?_⟩
  · have hrows (x : ItemId) :
        (processPullResponse now response store).1.getById x = pulledRow now response (store.getById x) x :=
      getById_processPullResponse now response
    exact keeps_iff (view_consistent store) hrows fun huntouched x =>
      (view_consistent _ x).trans (marked_pulled (view_consistent store) hrows huntouched x)
  · have hrows (x : ItemId) :
        (store.processPullResponse now response).1.getById x = pulledRow now response (store.getById x) x :=
      pulledRow_eq (fun _ item _ => InMemoryCiphertextStore.getById_upsert item)
        (fun _ itemId _ => InMemoryCiphertextStore.getById_delete itemId) store x
    exact keeps_iff hv hrows fun _ x =>
      Eq.to_iff (congrArg (x ∈ ·) (InMemoryCiphertextStore.conflictIds_pulled now response store))

end

/-! ## An edit in conflict -/

/-- A local edit that the server refused: stored as the item itself, and marked. -/
def refusedEdit : StoredItem where
  itemId := sampleUpsert.id
  ciphertext := { sampleUpsert.toVaultItemCiphertext with updatedAt := "2024-01-02T00:00:00.000Z" }
  itemRevision := 0
  lastSyncedAt := "2024-01-02T00:00:00.000Z"
  hasConflict := true
  conflictServerItemRevision := some 1

def refusedStore : CiphertextStore := (⟨∅, 0, none⟩ : CiphertextStore).upsert refusedEdit

def remotePage : ItemLevelSyncPullResponse where
  serverRevision := 1
  cursor := 1
  items := [{ sampleUpsert.toVaultItemCiphertext with revision := 1 }]
  deletedItems := []
  deletedItemIds := []
  changes := []
  hasMore := false

def refusedInMemory : InMemoryCiphertextStore :=
  ⟨(∅ : Table ItemId StoredItem).set refusedEdit.itemId refusedEdit, 0, none, [refusedEdit.itemId]⟩

theorem refusedInMemory_consistent : refusedInMemory.view.Consistent := by
  intro x
  change x ∈ [refusedEdit.itemId] ↔ ∃ item, Table.get? ((∅ : Table ItemId StoredItem).set refusedEdit.itemId refusedEdit) x =
    some item ∧ item.hasConflict = true
  rw [List.mem_singleton, Table.get?_set]
  by_cases hx : x = refusedEdit.itemId
  · simp [hx, refusedEdit]
  · simp [hx]

def otherPage : ItemLevelSyncPullResponse :=
  { remotePage with
    items := [{ unrelatedUpsert.toVaultItemCiphertext with revision := 1 }]
    deletedItemIds := ["0b8f8ed0-4c1a-4e0e-9d5e-0d1c5a0a0019"] }

/-- `pull_keeps_conflicts` in both stores, and in that of the tests where the page names the item. -/
theorem pull_keeps_conflicts_otherPage :
    KeepsConflicts otherPage refusedStore.view
      (processPullResponse "2024-01-03T00:00:00.000Z" otherPage refusedStore).1.view ∧
    KeepsConflicts otherPage refusedInMemory.view
      (refusedInMemory.processPullResponse "2024-01-03T00:00:00.000Z" otherPage).1.view ∧
    ¬ KeepsConflicts remotePage refusedInMemory.view
      (refusedInMemory.processPullResponse "2024-01-03T00:00:00.000Z" remotePage).1.view := by
  obtain ⟨hstored, hother⟩ := pull_keeps_conflicts "2024-01-03T00:00:00.000Z" otherPage
  have hnamed := (pull_keeps_conflicts "2024-01-03T00:00:00.000Z" remotePage).2 refusedInMemory refusedInMemory_consistent
  exact ⟨(hstored refusedStore).mpr (by decide +kernel),
    (hother refusedInMemory refusedInMemory_consistent).mpr (by decide +kernel), fun h =>
      absurd (hnamed.mp h) (by decide +kernel)⟩

/-- A pull that brings the server's version replaces the edit and drops its mark. -/
theorem pull_drops_conflict :
    sampleUpsert.id ∈ refusedStore.getConflictIds ∧
      (processPullResponse "2024-01-03T00:00:00.000Z" remotePage refusedStore).1.getConflictIds = [] ∧
      ¬ KeepsConflicts remotePage refusedStore.view
        (processPullResponse "2024-01-03T00:00:00.000Z" remotePage refusedStore).1.view := by
  have hmarked : sampleUpsert.id ∈ refusedStore.getConflictIds := by decide +kernel
  have hnone : (processPullResponse "2024-01-03T00:00:00.000Z" remotePage refusedStore).1.getConflictIds = [] := by
    decide +kernel
  refine ⟨hmarked, hnone, ?_⟩
  rintro ⟨-, hkept⟩
  have hin : sampleUpsert.id ∈ (processPullResponse "2024-01-03T00:00:00.000Z" remotePage refusedStore).1.getConflictIds :=
    (hkept sampleUpsert.id hmarked).1
  rw [hnone] at hin
  exact absurd hin List.not_mem_nil

end ZeroVault.Desktop

import ZeroVault.Desktop
import ZeroVault.FeedIsTable
import ZeroVault.PagedPull

/-!
# Repeated desktop pulls

`pullAll` sends the stored server revision, which the route does not read, and
no cursor: every pull is answered by the first page of the feed. So one pull
brings all that any number of them will, and they converge exactly when the
first page and what is stored already make up the feed (`desktop_pull_converges`).
-/

namespace ZeroVault.Desktop

open Lib

/-! ## What a store holds -/

def CiphertextStore.held (store : CiphertextStore) (id : ItemId) : Option (VaultItemCiphertext × Nat) :=
  (store.getById id).map fun item => (item.ciphertext, item.itemRevision)

def withRevision (item : VaultItemCiphertext) : VaultItemCiphertext × Nat := (item, item.revision)

section
variable {store : CiphertextStore} {id : ItemId}

@[simp] theorem held_upsert (item : StoredItem) :
    (store.upsert item).held id =
      if id = item.itemId then some (item.ciphertext, item.itemRevision) else store.held id := by
  unfold CiphertextStore.held CiphertextStore.getById CiphertextStore.upsert
  rw [Table.get?_set]
  split <;> rfl

@[simp] theorem held_delete (itemId : ItemId) :
    (store.delete itemId).held id = if id = itemId then none else store.held id := by
  unfold CiphertextStore.held CiphertextStore.getById CiphertextStore.delete
  rw [Table.get?_erase]
  split <;> rfl

@[simp] theorem held_setServerRevision (revision : Nat) : (store.setServerRevision revision).held id = store.held id :=
  rfl

@[simp] theorem held_setLastSyncedAt (timestamp : String) :
    (store.setLastSyncedAt timestamp).held id = store.held id := rfl

variable (store) in
theorem held_clearConflicts : store.clearConflicts.held id = store.held id := by
  unfold CiphertextStore.held CiphertextStore.getById CiphertextStore.clearConflicts
  rw [Table.get?_updateWhere, Option.map_map, Option.map_map, Option.map_map]
  rfl

theorem held_markConflict (itemId : ItemId) : (store.markConflict itemId).held id = store.held id := by
  unfold CiphertextStore.held CiphertextStore.getById CiphertextStore.markConflict
  rw [Table.get?_updateWhere, Option.map_map, Option.map_map, Option.map_map]
  congr 1
  funext item
  simp only [Function.comp]
  split <;> rfl

@[simp] theorem held_setConflictIds (ids : List ItemId) : (store.setConflictIds ids).held id = store.held id := by
  unfold CiphertextStore.setConflictIds
  rw [← held_clearConflicts store]
  generalize store.clearConflicts = cleared
  induction ids generalizing cleared with
  | nil => rfl
  | cons itemId ids ih => rw [List.foldl_cons, ih, held_markConflict]

end

/-! ## One pull -/

/-- What the loops of `processPullResponse` do with one change. -/
def storeChange (now : String) (store : CiphertextStore) : ItemLevelChange → CiphertextStore
  | .upsert item => store.upsert (pulledItem now item)
  | .delete itemId _ _ => store.delete itemId

def pageChanges (p : ItemLevelSyncPullResponse) : List ItemLevelChange :=
  p.items.map .upsert ++ p.deletedItems.map fun d => .delete d.id d.revision d.deletedAt

/-- The item a list of changes leaves live. -/
def liveItem (changes : List ItemLevelSyncChange) (id : ItemId) : Option VaultItemCiphertext :=
  (foldChanges (fun _ => none) changes id).bind ItemLevelChange.live?

theorem held_storeChanges (now : String) (changes : List ItemLevelChange) (store : CiphertextStore) (id : ItemId) :
    (changes.foldl (storeChange now) store).held id =
      match applyAll (fun _ => none) (changes.map fun c => (c.itemId, c)) id with
      | some c => c.live?.map withRevision
      | none => store.held id := by
  induction changes using List.reverseRecOn with
  | nil => rfl
  | append_singleton changes c ih =>
    rw [List.foldl_append, List.map_append, applyAll_append]
    by_cases hid : id = c.itemId
    · subst hid
      cases c with
      | upsert item => simp [storeChange, applyAll, pulledItem, ItemLevelChange.itemId, ItemLevelChange.live?, withRevision]
      | delete itemId revision deletedAt =>
        simp [storeChange, applyAll, ItemLevelChange.itemId, ItemLevelChange.live?]
    · have hother : (storeChange now (changes.foldl (storeChange now) store) c).held id =
          (changes.foldl (storeChange now) store).held id := by
        cases c with
        | upsert item =>
          have hne : id ≠ item.id := hid
          simp [storeChange, pulledItem, hne]
        | delete itemId revision deletedAt =>
          have hne : id ≠ itemId := hid
          simp [storeChange, hne]
      rw [List.foldl_cons, List.foldl_nil, hother, ih]
      simp [applyAll, hid]

theorem held_processPullResponse {now : String} {p : ItemLevelSyncPullResponse}
    (hd : p.deletedItemIds = p.deletedItems.map (·.id)) (store : CiphertextStore) (id : ItemId) :
    (processPullResponse now p store).1.held id =
      match foldPage (fun _ => none) p id with
      | some c => c.live?.map withRevision
      | none => store.held id := by
  have hloops : (p.deletedItemIds.foldl CiphertextStore.delete
      (p.items.foldl (fun store item => store.upsert (pulledItem now item)) store)) =
      (pageChanges p).foldl (storeChange now) store := by
    unfold pageChanges
    rw [List.foldl_append, List.foldl_map, List.foldl_map, hd, List.foldl_map]
    rfl
  have hfold : foldPage (fun _ => none) p = applyAll (fun _ => none) ((pageChanges p).map fun c => (c.itemId, c)) := by
    unfold foldPage pageChanges
    rw [List.map_append, List.map_map, List.map_map]
    rfl
  simp only [processPullResponse, held_setConflictIds, held_setLastSyncedAt, held_setServerRevision]
  rw [hloops, hfold]
  exact held_storeChanges now (pageChanges p) store id

/-! ## Pulls against one feed -/

/-- The changes of the whole feed that its readers accept. -/
def feedChanges (F : Formats) (u : UserId) (db : Db) : List ItemLevelSyncChange :=
  ((userRows db.itemSyncChanges u).map (·.entry)).filter (itemLevelSyncChangeSchema F)

def firstChanges (F : Formats) (u : UserId) (db : Db) : List ItemLevelSyncChange :=
  ((page ItemSyncChangeRow.cursor (userRows db.itemSyncChanges u) 0 200).map (·.entry)).filter
    (itemLevelSyncChangeSchema F)

/-- `n` pulls with no other writer at the store or the Worker. -/
def pulls (F : Formats) (u : UserId) (now : Nat → String) (db : Db) : Nat → CiphertextStore → Except Thrown CiphertextStore
  | 0, store => pure store
  | n + 1, store => do
    let store ← pulls F u now db n store
    let (store, _) ← pullAll F u (now n) db store
    pure store

/-- The store holds exactly the live items of the feed. -/
def HoldsFeed (F : Formats) (u : UserId) (db : Db) (store : CiphertextStore) : Prop :=
  ∀ id, store.held id = (liveItem (feedChanges F u db) id).map withRevision

def Converges (F : Formats) (u : UserId) (now : Nat → String) (db : Db) (store : CiphertextStore) : Prop :=
  ∃ n, ∀ m, n ≤ m → ∃ store', pulls F u now db m store = .ok store' ∧ HoldsFeed F u db store'

/-- Of an item that the first page mentions, it mentions what the feed comes to;
every other item is stored as the feed leaves it. -/
def FirstPageSuffices (F : Formats) (u : UserId) (db : Db) (store : CiphertextStore) : Prop :=
  ∀ id, match foldChanges (fun _ => none) (firstChanges F u db) id with
    | some c => c.live? = liveItem (feedChanges F u db) id
    | none => store.held id = (liveItem (feedChanges F u db) id).map withRevision

section
variable {F : Formats} {u : UserId} {now : Nat → String} {db : Db} {store : CiphertextStore}

theorem pullAll_first {now : String} (hu : db.users.contains u = true) (store : CiphertextStore) :
    ∃ store' result, pullAll F u now db store = .ok (store', result) ∧ ∀ id, store'.held id =
      match foldChanges (fun _ => none) (firstChanges F u db) id with
      | some c => c.live?.map withRevision
      | none => store.held id := by
  obtain ⟨user, huser⟩ := Table.contains_eq_true.mp hu
  obtain ⟨first, hfirst⟩ : ∃ first, first = pullResponse F user.serverRevision 0 200 (db.itemSyncChanges.page u 0 201) :=
    ⟨_, rfl⟩
  have hget : ∀ revision, (getItemSync F u (pullQuery revision)).run db = (db, ⟨200, none, some first⟩) := by
    intro revision
    rw [hfirst]
    exact getItemSync_first F u rfl rfl huser
  have hpull : pullAll F u now db store = .ok (processPullResponse now first store) := by
    simp only [pullAll, hget]
    rfl
  refine ⟨_, _, hpull, fun id => ?_⟩
  have hdeleted : first.deletedItemIds = first.deletedItems.map (·.id) := by
    rw [hfirst]
    rfl
  refine (held_processPullResponse hdeleted store id).trans ?_
  rw [hfirst, foldPage_changes, pull_changes]
  rfl

theorem pulls_first (hu : db.users.contains u = true) (store : CiphertextStore) (n : Nat) :
    ∃ store', pulls F u now db (n + 1) store = .ok store' ∧ ∀ id, store'.held id =
      match foldChanges (fun _ => none) (firstChanges F u db) id with
      | some c => c.live?.map withRevision
      | none => store.held id := by
  induction n with
  | zero =>
    obtain ⟨store', result, hpull, hheld⟩ := @pullAll_first F u db (now 0) hu store
    refine ⟨store', ?_, hheld⟩
    simp only [pulls, pure_bind, hpull]
    rfl
  | succ n ih =>
    obtain ⟨before, hbefore, hheld⟩ := ih
    obtain ⟨store', result, hpull, hheld'⟩ := @pullAll_first F u db (now (n + 1)) hu before
    refine ⟨store', ?_, fun id => ?_⟩
    · rw [pulls, hbefore]
      show (do let (store, _) ← pullAll F u (now (n + 1)) db before; pure store) = _
      rw [hpull]
      rfl
    · rw [hheld', hheld]
      cases foldChanges (fun _ => none) (firstChanges F u db) id <;> rfl

theorem firstChanges_short (hlen : (userRows db.itemSyncChanges u).length ≤ 200) :
    firstChanges F u db = feedChanges F u db := by
  have hall : page ItemSyncChangeRow.cursor (userRows db.itemSyncChanges u) 0 200 =
      (userRows db.itemSyncChanges u).filter fun r => 0 < r.cursor :=
    List.take_of_length_le (Nat.le_trans (List.length_filter_le _ _) hlen)
  unfold firstChanges feedChanges
  rw [hall]
  induction userRows db.itemSyncChanges u with
  | nil => rfl
  | cons r rows ih =>
    by_cases hr : 0 < r.cursor
    · rw [List.filter_cons_of_pos (by simpa using hr), List.map_cons, List.map_cons, List.filter_cons, List.filter_cons, ih]
    · have hinvalid : itemLevelSyncChangeSchema F r.entry = false := by
        simp [itemLevelSyncChangeSchema, ItemSyncChangeRow.entry, hr]
      rw [List.filter_cons_of_neg (by simpa using hr), ih, List.map_cons, List.filter_cons_of_neg (by simp [hinvalid])]

/-- A feed of one page suffices where only items of the feed are stored. -/
theorem firstPageSuffices_short (hlen : (userRows db.itemSyncChanges u).length ≤ 200)
    (hstored : ∀ id, foldChanges (fun _ => none) (feedChanges F u db) id = none → store.held id = none) :
    FirstPageSuffices F u db store := by
  intro id
  rw [firstChanges_short hlen]
  cases hc : foldChanges (fun _ => none) (feedChanges F u db) id with
  | some c => simp [liveItem, hc]
  | none => simp [liveItem, hc, hstored id hc]

/-- Repeated pulls converge to the live items of the feed if and only if the
first page and the items stored before make them up. -/
theorem desktop_pull_converges (hu : db.users.contains u = true) :
    Converges F u now db store ↔ FirstPageSuffices F u db store := by
  have hsome : ∀ {a b : Option VaultItemCiphertext}, a.map withRevision = b.map withRevision ↔ a = b := by
    intro a b
    cases a <;> cases b <;> simp [withRevision]
    intro h
    rw [h]
  constructor
  · rintro ⟨n, hn⟩ id
    obtain ⟨store', hpulls, hfeed⟩ := hn (n + 1) (Nat.le_succ n)
    obtain ⟨store'', hpulls', hheld⟩ := @pulls_first F u now db hu store n
    rw [hpulls] at hpulls'
    cases hpulls'
    have hid := hheld id
    rw [hfeed id] at hid
    cases hc : foldChanges (fun _ => none) (firstChanges F u db) id with
    | none => rw [hc] at hid; exact hid.symm
    | some c => rw [hc] at hid; exact (hsome.mp hid).symm
  · intro hfirst
    refine ⟨1, fun m hm => ?_⟩
    obtain ⟨k, rfl⟩ : ∃ k, m = k + 1 := ⟨m - 1, by omega⟩
    obtain ⟨store', hpulls, hheld⟩ := @pulls_first F u now db hu store k
    refine ⟨store', hpulls, fun id => ?_⟩
    have hid := hfirst id
    rw [hheld]
    cases hc : foldChanges (fun _ => none) (firstChanges F u db) id with
    | none => rw [hc] at hid; exact hid
    | some c => rw [hc] at hid; exact hsome.mpr hid

end

/-! ## A feed of one page, and one of two -/

def emptyCache : CiphertextStore := ⟨∅, 0, none⟩

def feedEntryOf (n : Nat) (change : ItemLevelChange) : ItemSyncChangeRow :=
  { cursor := n, userId := sampleUser, itemId := change.itemId, itemRevision := n, change }

def withFeed (rows : List ItemSyncChangeRow) : Db :=
  { sampleStore with itemSyncChanges := { rows, seq := rows.length } }

def onePage : Db := withFeed [feedEntryOf 1 (.upsert { sampleUpsert.toVaultItemCiphertext with revision := 1 })]

/-- `desktop_pull_converges` at a feed of one entry. -/
theorem desktop_pull_converges_onePage : Converges sampleFormats sampleUser (fun _ => "") onePage emptyCache :=
  (desktop_pull_converges (by decide)).mpr (firstPageSuffices_short (by decide) fun _ _ => rfl)

def twoPages : Db :=
  withFeed ((List.range 200).map (fun n =>
      feedEntryOf (n + 1) (.delete "0b8f8ed0-4c1a-4e0e-9d5e-0d1c5a0a0009" (n + 1) sampleUpsert.createdAt)) ++
    [feedEntryOf 201 (.upsert { sampleUpsert.toVaultItemCiphertext with revision := 201 })])

theorem desktop_pull_stalls :
    ¬ ∀ (F : Formats) (u : UserId) (now : Nat → String) (db : Db) (store : CiphertextStore),
      db.users.contains u = true → Converges F u now db store := by
  intro h
  obtain ⟨n, hn⟩ := h sampleFormats sampleUser (fun _ => "") twoPages emptyCache (by decide)
  obtain ⟨store, hpulls, hfeed⟩ := hn (n + 1) (Nat.le_succ n)
  obtain ⟨store', hpulls', hheld⟩ :=
    @pulls_first sampleFormats sampleUser (fun _ => "") twoPages (by decide) emptyCache n
  rw [hpulls] at hpulls'
  cases hpulls'
  have hnone : foldChanges (fun _ => none) (firstChanges sampleFormats sampleUser twoPages) sampleUpsert.id = none := by
    decide +kernel
  have hlive : (liveItem (feedChanges sampleFormats sampleUser twoPages) sampleUpsert.id).isSome = true := by
    decide +kernel
  have hid := hheld sampleUpsert.id
  rw [hnone, hfeed] at hid
  cases hl : liveItem (feedChanges sampleFormats sampleUser twoPages) sampleUpsert.id with
  | none =>
    rw [hl] at hlive
    cases hlive
  | some item =>
    rw [hl] at hid
    cases hid

end ZeroVault.Desktop

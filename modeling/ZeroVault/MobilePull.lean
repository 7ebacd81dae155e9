import ZeroVault.FeedPages
import ZeroVault.MobileRows

/-!
# What a pull of the mobile app moves

The device takes what a page brings for every record without a pending mutation,
whatever revision it holds. What it holds, and what was acknowledged to it, is in
the user's feed, so a page that reaches as far as that moves no record backwards,
and no other page does (`pull_moves_forward`).
-/

namespace ZeroVault.Mobile

open Lib Browser

/-! ## The feed and a page -/

/-- The feed of an honest server: its entries parse, and of an item no entry is older than one before it. -/
structure HonestFeed (F : Formats) (t : ItemSyncChanges) (a : UserId) : Prop where
  ordered : OrderedFeed t
  valid : ∀ row ∈ userRows t a, itemLevelSyncChangeSchema F row.entry = true
  rising : ∀ row ∈ userRows t a, ∀ row' ∈ userRows t a, row.cursor < row'.cursor →
    row.change.itemId = row'.change.itemId → row.change.revision ≤ row'.change.revision

/-- The revision was written, by an entry up to the cursor `d`, or is the one of a record that never was. -/
def Within (t : ItemSyncChanges) (a : UserId) (d : Nat) (r : ItemId) (n : Nat) : Prop :=
  n = 0 ∨ ∃ row ∈ userRows t a, row.change.itemId = r ∧ row.change.revision = n ∧ row.cursor ≤ d

def Attested (t : ItemSyncChanges) (a : UserId) (r : ItemId) (n : Nat) : Prop :=
  n = 0 ∨ ∃ row ∈ userRows t a, row.change.itemId = r ∧ row.change.revision = n

/-- The last changes of a page, as a pull takes them. -/
def broughtBy (page : ItemLevelSyncPullResponse) : List ItemLevelChange :=
  page.items.map ItemLevelChange.upsert ++ page.deletedItems.map fun d => ItemLevelChange.delete d.id d.revision d.deletedAt

section
variable {F : Formats} {t t' : ItemSyncChanges} {a : UserId} {sr c k d n : Nat} {r : ItemId} {e : ItemLevelChange}

theorem Attested.mono (h : Attested t a r n) (hp : t.rows <+: t'.rows) : Attested t' a r n :=
  h.imp_right fun ⟨row, hrow, his⟩ => ⟨row, ( userRows_prefix hp a).subset hrow, his⟩

/-- The server's answer to a pull from the cursor `c`, of at most `k` changes. -/
def pullPage (F : Formats) (t : ItemSyncChanges) (a : UserId) (sr c k : Nat) : ItemLevelSyncPullResponse :=
  pullResponse F sr c k (t.page a c (k + 1))

theorem HonestFeed.userRows_ordered (hf : HonestFeed F t a) : Ordered ItemSyncChangeRow.cursor (userRows t a) :=
  List.Pairwise.filter _ hf.ordered.1

/-- Of an item, a page brings its last entry up to the page's end. -/
theorem brought_last (hf : HonestFeed F t a) (he : e ∈ broughtBy (pullPage F t a sr c k)) :
    ∃ row ∈ userRows t a, row.change = e ∧ row.cursor ≤ (pullPage F t a sr c k).cursor ∧
      ∀ row' ∈ userRows t a, row'.cursor ≤ (pullPage F t a sr c k).cursor → row'.change.itemId = e.itemId →
        row'.cursor ≤ row.cursor := by
  have hchanges : (pullPage F t a sr c k).changes =
      (window ItemSyncChangeRow.cursor (userRows t a) c (pullPage F t a sr c k).cursor).map (·.entry) := by
    unfold pullPage
    rw [pulled_window hf.ordered.1, List.filter_eq_self]
    intro entry hentry
    obtain ⟨row, hrow, rfl⟩ := List.mem_map.mp hentry
    exact hf.valid row (List.mem_of_mem_filter hrow)
  obtain ⟨change, hlatest, rfl⟩ : ∃ change ∈ (latestByItemId (pullPage F t a sr c k).changes).rows.map Prod.snd,
      change.change = e := by
    rcases List.mem_append.mp he with he | he
    · obtain ⟨item, hitem, rfl⟩ := List.mem_map.mp he
      obtain ⟨change, hchange, hitem⟩ := List.mem_filterMap.mp hitem
      refine ⟨change, hchange, ?_⟩
      split at hitem
      · rename_i hc
        cases hitem
        exact hc
      · cases hitem
    · obtain ⟨deleted, hdeleted, rfl⟩ := List.mem_map.mp he
      obtain ⟨change, hchange, hdeleted⟩ := List.mem_filterMap.mp hdeleted
      refine ⟨change, hchange, ?_⟩
      split at hdeleted
      · cases hdeleted
      · rename_i hc
        cases hdeleted
        exact hc
  obtain ⟨⟨x, _⟩, hmem, rfl⟩ := List.mem_map.mp hlatest
  rw [show latestByItemId (pullPage F t a sr c k).changes =
    latest ((pullPage F t a sr c k).changes.map fun c => (c.change.itemId, c)) by
      unfold latestByItemId latest
      rw [List.foldl_map]] at hmem
  -- the compaction keeps the last entry of each item
  obtain ⟨pre, post, hsplit, hpost⟩ := latest_split hmem
  rw [hchanges, List.map_map] at hsplit
  obtain ⟨rows, rows', hwindow, rfl, htail⟩ := List.map_eq_append_iff.mp hsplit
  obtain ⟨row, rest, rfl, hrow, rfl⟩ := List.map_eq_cons_iff.mp htail
  cases hrow
  have hin (row' : ItemSyncChangeRow) : row' ∈ rows ++ row :: rest ↔
      row' ∈ userRows t a ∧ c < row'.cursor ∧ row'.cursor ≤ (pullPage F t a sr c k).cursor := by
    rw [← hwindow, window, List.mem_filter, Bool.and_eq_true, decide_eq_true_eq, decide_eq_true_eq]
  have hordered : Ordered ItemSyncChangeRow.cursor (rows ++ row :: rest) :=
    hwindow ▸ List.Pairwise.filter _ hf.userRows_ordered
  obtain ⟨hrow, hc, hend⟩ := (hin row).mp (List.mem_append_right rows List.mem_cons_self)
  refine ⟨row, hrow, rfl, hend, fun row' hrow' hle hid => ?_⟩
  -- an entry of the item lies before the page, or in it
  by_cases hc' : row'.cursor ≤ c
  · exact Nat.le_trans hc' (Nat.le_of_lt hc)
  · rcases List.mem_append.mp ((hin row').mpr ⟨hrow', Nat.lt_of_not_le hc', hle⟩) with hbefore | hafter
    · exact Nat.le_of_lt ((List.pairwise_append.mp hordered).2.2 row' hbefore row List.mem_cons_self)
    · rcases List.mem_cons.mp hafter with rfl | hafter
      · exact Nat.le_refl _
      · exact absurd hid (hpost _ (List.mem_map.mpr ⟨row', hafter, rfl⟩))

/-- A change that a page brings is no older than a revision, exactly when the page
reaches as far as the entry of the revision. -/
theorem brought_newer (hf : HonestFeed F t a) (he : e ∈ broughtBy (pullPage F t a sr c k))
    (hn : Attested t a e.itemId n) :
    n ≤ e.revision ↔ Within t a (pullPage F t a sr c k).cursor e.itemId n := by
  obtain ⟨row, hrow, rfl, hend, hlast⟩ := brought_last hf he
  constructor
  · intro hle
    rcases hn with rfl | ⟨row', hrow', hid, rfl⟩
    · exact .inl rfl
    · by_cases hcursor : row'.cursor ≤ (pullPage F t a sr c k).cursor
      · exact .inr ⟨row', hrow', hid, rfl, hcursor⟩
      · -- the revision is the one that the page brings
        have hrising := hf.rising row hrow row' hrow' (by omega) hid.symm
        exact .inr ⟨row, hrow, rfl, Nat.le_antisymm hrising hle, hend⟩
  · rintro (rfl | ⟨row', hrow', hid, rfl, hcursor⟩)
    · exact Nat.zero_le _
    · rcases Nat.lt_or_eq_of_le (hlast row' hrow' hcursor hid) with hlt | heq
      · exact hf.rising row' hrow' row hrow hlt hid
      · have hcursors : ((userRows t a).map (·.cursor)).Nodup :=
          List.pairwise_map.mpr (hf.userRows_ordered.imp Nat.ne_of_lt)
        rw [List.inj_on_of_nodup_map hcursors hrow' hrow heq]

end

/-! ## What a pull does to a record -/

/-- What the device holds of a record: its revision, and whether it is a tombstone. -/
def Database.held (db : Database) (a : UserId) (r : ItemId) : Option (Nat × Bool) :=
  (db.getRecord a r).map fun row => (row.itemRevision, row.isDeleted)

section
variable {db db₁ : Database} {a : UserId} {r : ItemId} {serverRevision : Nat} {timestamp : String}
variable {items : List VaultItemCiphertext} {deletedItems : List RemoteDeletedItem}

theorem upsertRecord_held {record : CiphertextRecord} : (db.upsertRecord record).held a r =
    if (a, r) = (record.accountId, record.recordId) then some (record.itemRevision, record.isDeleted)
    else db.held a r := by
  unfold Database.held
  rw [getRecord_upsertRecord]
  split
  · rfl
  · rfl

theorem deleteRecord_held {a' : UserId} {x : ItemId} : (db.deleteRecord a' x).held a r =
    if (a, r) = (a', x) then none else db.held a r := by
  unfold Database.held
  rw [getRecord_deleteRecord]
  split
  · rfl
  · rfl

theorem pullItem_pending {item : VaultItemCiphertext} :
    (pullItem a serverRevision timestamp db (parseCiphertextRecord a item timestamp)).pendingMutations =
      db.pendingMutations := by
  unfold pullItem
  split
  · rfl
  · rfl

theorem pullDelete_pending {deleted : RemoteDeletedItem} :
    (pullDelete a serverRevision timestamp db deleted).pendingMutations = db.pendingMutations := by
  unfold pullDelete
  split
  · rfl
  · rfl

theorem savePullConflict_held {remote : Option VaultItemCiphertext} {itemRevision : Option Nat} {x : ItemId} :
    (savePullConflict a x remote serverRevision itemRevision timestamp db).held a r = db.held a r := by
  have hflags : (savePullConflict a x remote serverRevision itemRevision timestamp db).ciphertexts =
      db.ciphertexts.updateWhere (fun k _ => decide (k = (a, x))) fun row => { row with hasConflict := true } := rfl
  unfold Database.held
  rw [getRecord_flags hflags]
  split
  · rw [Option.map_map]
    rfl
  · rfl

theorem pullItem_held {item : VaultItemCiphertext} :
    (pullItem a serverRevision timestamp db (parseCiphertextRecord a item timestamp)).held a r =
      if item.id = r ∧ db.getForRecord a r = none then some (item.revision, false) else db.held a r := by
  unfold pullItem
  split
  · rename_i hnone
    have hnone : db.getForRecord a item.id = none := hnone
    refine upsertRecord_held.trans ?_
    change (if (a, r) = (a, item.id) then some (item.revision, false) else db.held a r) = _
    by_cases hid : item.id = r
    · rw [if_pos (congrArg (Prod.mk a) hid.symm), if_pos ⟨hid, hid ▸ hnone⟩]
    · rw [if_neg fun hk => hid (Prod.mk.inj hk).2.symm, if_neg fun h => hid h.1]
  · rename_i m hsome
    have hsome : db.getForRecord a item.id = some m := hsome
    rw [savePullConflict_held, if_neg]
    rintro ⟨rfl, hnone⟩
    rw [hnone] at hsome
    cases hsome

theorem pullDelete_held {deleted : RemoteDeletedItem} :
    (pullDelete a serverRevision timestamp db deleted).held a r =
      if deleted.recordId = r ∧ db.getForRecord a r = none then none else db.held a r := by
  unfold pullDelete
  split
  · rename_i hnone
    rw [deleteRecord_held]
    by_cases hid : deleted.recordId = r
    · rw [if_pos (congrArg (Prod.mk a) hid.symm), if_pos ⟨hid, hid ▸ hnone⟩]
    · rw [if_neg fun hk => hid (Prod.mk.inj hk).2.symm, if_neg fun h => hid h.1]
  · rename_i m hsome
    rw [savePullConflict_held, if_neg]
    rintro ⟨rfl, hnone⟩
    rw [hnone] at hsome
    cases hsome

theorem foldl_held {α : Type} {f : Database → α → Database} {pending : List PendingMutationEntity} :
    ∀ {l : List α} {db : Database}, db.pendingMutations = pending →
      (∀ x ∈ l, ∀ db, db.pendingMutations = pending →
        (f db x).held a r = db.held a r ∧ (f db x).pendingMutations = pending) →
      (l.foldl f db).held a r = db.held a r ∧ (l.foldl f db).pendingMutations = pending
  | [], _, hp, _ => ⟨rfl, hp⟩
  | x :: _, db, hp, hf => by
    obtain ⟨hheld, hp⟩ := hf x List.mem_cons_self db hp
    obtain ⟨hrest, hp⟩ := foldl_held hp fun y hy => hf y (List.mem_cons_of_mem _ hy)
    exact ⟨hrest.trans hheld, hp⟩

theorem getForRecord_congr (hp : db₁.pendingMutations = db.pendingMutations) :
    db₁.getForRecord a r = db.getForRecord a r := by
  unfold Database.getForRecord
  rw [hp]

theorem pulledItems_keeps (h : db.getForRecord a r = none → r ∉ items.map (·.id)) :
    (pulledItems a serverRevision timestamp items db).held a r = db.held a r ∧
      (pulledItems a serverRevision timestamp items db).pendingMutations = db.pendingMutations := by
  refine foldl_held rfl fun item hitem db₁ hp => ⟨?_, pullItem_pending.trans hp⟩
  rw [pullItem_held, if_neg]
  rintro ⟨rfl, hnone⟩
  exact h (getForRecord_congr hp ▸ hnone) (List.mem_map.mpr ⟨item, hitem, rfl⟩)

theorem pulledDeletes_keeps (h : db.getForRecord a r = none → r ∉ deletedItems.map (·.recordId)) :
    (deletedItems.foldl (pullDelete a serverRevision timestamp) db).held a r = db.held a r ∧
      (deletedItems.foldl (pullDelete a serverRevision timestamp) db).pendingMutations = db.pendingMutations := by
  refine foldl_held rfl fun deleted hdeleted db₁ hp => ⟨?_, pullDelete_pending.trans hp⟩
  rw [pullDelete_held, if_neg]
  rintro ⟨rfl, hnone⟩
  exact h (getForRecord_congr hp ▸ hnone) (List.mem_map.mpr ⟨deleted, hdeleted, rfl⟩)

theorem pulledItems_pending :
    (pulledItems a serverRevision timestamp items db).pendingMutations = db.pendingMutations :=
  foldl_frame (g := (·.pendingMutations)) (fun _ _ => pullItem_pending) items db

/-- A record that a page does not name, or that has a pending mutation. -/
theorem pulled_keeps
    (h : db.getForRecord a r = none → r ∉ items.map (·.id) ++ deletedItems.map (·.recordId)) :
    (pulled a serverRevision timestamp items deletedItems db).held a r = db.held a r := by
  obtain ⟨hitems, hp⟩ : (pulledItems a serverRevision timestamp items db).held a r = db.held a r ∧
      (pulledItems a serverRevision timestamp items db).pendingMutations = db.pendingMutations :=
    pulledItems_keeps fun hnone hmem => h hnone (List.mem_append_left _ hmem)
  rw [← hitems]
  exact (pulledDeletes_keeps fun hnone hmem =>
    h (getForRecord_congr hp ▸ hnone) (List.mem_append_right _ hmem)).1

theorem pulled_item {item : VaultItemCiphertext} (hids : (items.map (·.id) ++ deletedItems.map (·.recordId)).Nodup)
    (hitem : item ∈ items) (hnone : db.getForRecord a item.id = none) :
    (pulled a serverRevision timestamp items deletedItems db).held a item.id = some (item.revision, false) := by
  obtain ⟨hnodup, -, hapart⟩ := List.nodup_append.mp hids
  have hdeletes : (pulled a serverRevision timestamp items deletedItems db).held a item.id =
      (pulledItems a serverRevision timestamp items db).held a item.id :=
    (pulledDeletes_keeps fun _ hmem => hapart _ (List.mem_map.mpr ⟨item, hitem, rfl⟩) _ hmem rfl).1
  rw [hdeletes]
  obtain ⟨before, after, rfl⟩ := List.append_of_mem hitem
  rw [List.map_append, List.map_cons, List.nodup_append, List.nodup_cons] at hnodup
  unfold pulledItems
  rw [List.foldl_append, List.foldl_cons]
  have hafter (db : Database) : (pulledItems a serverRevision timestamp after db).held a item.id = db.held a item.id :=
    (pulledItems_keeps fun _ => hnodup.2.1.1).1
  refine (hafter _).trans ?_
  rw [pullItem_held, if_pos ⟨rfl, (getForRecord_congr pulledItems_pending).trans hnone⟩]

theorem pulled_deleted {deleted : RemoteDeletedItem}
    (hids : (items.map (·.id) ++ deletedItems.map (·.recordId)).Nodup) (hdeleted : deleted ∈ deletedItems)
    (hnone : db.getForRecord a deleted.recordId = none) :
    (pulled a serverRevision timestamp items deletedItems db).held a deleted.recordId = none := by
  obtain ⟨-, hnodup, -⟩ := List.nodup_append.mp hids
  obtain ⟨before, after, rfl⟩ := List.append_of_mem hdeleted
  rw [List.map_append, List.map_cons, List.nodup_append, List.nodup_cons] at hnodup
  have hbefore : (before.foldl (pullDelete a serverRevision timestamp)
      (pulledItems a serverRevision timestamp items db)).pendingMutations = db.pendingMutations :=
    (foldl_frame (g := (·.pendingMutations)) (fun _ _ => pullDelete_pending) before _).trans pulledItems_pending
  unfold pulled
  rw [List.foldl_append, List.foldl_cons]
  refine (pulledDeletes_keeps fun _ => hnodup.2.1.1).1.trans ?_
  rw [pullDelete_held, if_pos ⟨rfl, (getForRecord_congr hbefore).trans hnone⟩]

end

/-! ## A device and the feed -/

/-- The user's feed, what the device stores, and the revisions that were acknowledged to it. -/
structure World where
  feed : ItemSyncChanges
  db : Database
  acked : ItemId → Nat → Prop

/-- The server acknowledges and tells what is in its feed, and a caller gives a record a
revision that the record has had, or that of a new one. -/
structure Op.Honest (t : ItemSyncChanges) (a : UserId) (db : Database) (op : Op) : Prop where
  acknowledged : ∀ r n, op.Acknowledges a db r n → Attested t a r n
  written : ∀ r n, op.Writes r n → Attested t a r n
  told : ∀ r x n, op.Tells r x n → Attested t a x n

/-- The states of a device over a feed that grows. A backup was made of some device
of the user's, when the feed was no longer than it is now. -/
inductive World.Reached (F : Formats) (P : Platform) (a : UserId) : World → Prop
  | empty {t : ItemSyncChanges} : HonestFeed F t a → Reached F P a ⟨t, emptyDatabase, fun _ _ => False⟩
  | grows {w : World} {t : ItemSyncChanges} : Reached F P a w → w.feed.rows <+: t.rows → HonestFeed F t a →
      Reached F P a { w with feed := t }
  | step {w : World} {db : Database} (readings : Readings) (a' : UserId) (op : Op) : Reached F P a w →
      (a' = a → op.Honest w.feed a w.db) → op.run P readings a' w.db = .ok db →
      Reached F P a ⟨w.feed, db, fun r n => w.acked r n ∨ a' = a ∧ op.Acknowledges a w.db r n⟩
  | restore {w w₀ : World} {backup : Backup} {db : Database} (readings : Readings) (a' : UserId) : Reached F P a w →
      Reached F P a w₀ → w₀.feed.rows <+: w.feed.rows → createEncryptedBackup P readings a' w₀.db = .ok backup →
      restoreEncryptedBackup P a' backup w.db = .ok db → Reached F P a { w with db := db }

structure World.Sound (a : UserId) (w : World) : Prop where
  rows : ∀ r row, w.db.getRecord a r = some row → Attested w.feed a r row.itemRevision
  conflicts : ∀ r conflict, w.db.syncConflicts.get? (a, r) = some conflict → ∀ x n, conflict.Remote r x n →
    Attested w.feed a x n
  acked : ∀ r n, w.acked r n → Attested w.feed a r n

section
variable {F : Formats} {P : Platform} {a : UserId} {w : World}

theorem World.Reached.honest (hw : w.Reached F P a) : HonestFeed F w.feed a := by
  induction hw with
  | empty hf => exact hf
  | grows _ _ hf => exact hf
  | step _ _ _ _ _ _ ih => exact ih
  | restore _ _ _ _ _ _ _ ih => exact ih

theorem World.Sound.step {a' : UserId} {db : Database} {given : UserId → ItemId → Nat → Prop}
    {givenC : UserId → ItemId → ItemId → Nat → Prop} {acked : ItemId → Nat → Prop} (hs : w.Sound a)
    (hrows : RowsFrom w.db db fun b r n => b = a' ∧ given b r n)
    (hconflicts : ConflictsFrom w.db db fun b r x n => b = a' ∧ givenC b r x n)
    (hgiven : a' = a → ∀ r n, given a r n → Attested w.feed a r n)
    (htold : a' = a → ∀ r x n, givenC a r x n → Attested w.feed a x n)
    (hacked : ∀ r n, acked r n → Attested w.feed a r n) : World.Sound a ⟨w.feed, db, acked⟩ where
  rows r row' hrow := by
    rcases hrows a r row' hrow with ⟨row, hold, hrev⟩ | ⟨rfl, hg⟩
    · rw [hrev]
      exact hs.rows r row hold
    · exact hgiven rfl r _ hg
  conflicts r conflict' hc x n hr := by
    rcases hconflicts a r conflict' hc x n hr with ⟨conflict, hold, hr⟩ | ⟨rfl, hg⟩
    · exact hs.conflicts r conflict hold x n hr
    · exact htold rfl r x n hg
  acked := hacked

theorem World.Reached.sound (hw : w.Reached F P a) : w.Sound a := by
  induction hw with
  | empty => exact ⟨fun _ _ h => (nomatch h), fun _ _ h => (nomatch h), fun _ _ h => h.elim⟩
  | grows _ hp _ ih =>
    exact ⟨fun r row hrow => (ih.rows r row hrow).mono hp, fun r c hc x n hr => (ih.conflicts r c hc x n hr).mono hp,
      fun r n hn => (ih.acked r n hn).mono hp⟩
  | step readings a' op _ honest h ih =>
    obtain ⟨hrows, hconflicts⟩ := op.run_from h
    refine ih.step hrows hconflicts ?_ ?_ ?_
    · rintro rfl r n (hack | hwrite | ⟨r', htell⟩ | ⟨r', conflict, hc, hr⟩)
      · exact (honest rfl).acknowledged r n hack
      · exact (honest rfl).written r n hwrite
      · exact (honest rfl).told r' r n htell
      · exact ih.conflicts r' conflict hc r n hr
    · rintro rfl r x n htell
      exact (honest rfl).told r x n htell
    · rintro r n (hn | ⟨rfl, hack⟩)
      · exact ih.acked r n hn
      · exact (honest rfl).acknowledged r n hack
  | restore readings a' _ _ hp hb h ih ih₀ =>
    obtain ⟨hrows, hconflicts⟩ : RowsFrom _ _ _ ∧ ConflictsFrom _ _ fun b _ _ _ => b = a' ∧ False :=
      restoreEncryptedBackup_from hb h
    refine ih.step hrows hconflicts ?_ (fun _ _ _ _ hg => hg.elim) ih.acked
    rintro rfl r n ⟨row, hrow, rfl⟩
    exact (ih₀.rows r row hrow).mono hp

end

/-! ## The pull -/

def remoteDeleted (deleted : DeletedItem) : RemoteDeletedItem := ⟨deleted.id, deleted.revision, deleted.deletedAt⟩

def applyPage (P : Platform) (a : UserId) (page : ItemLevelSyncPullResponse) (now : String) (db : Database) :
    Except Failure Database :=
  applyPull P a page.items (page.deletedItems.map remoteDeleted) page.serverRevision page.cursor now db

/-- No record is replaced by an older revision, and none is removed or revived for an
entry older than what the device holds or has had acknowledged. -/
structure MovesForward (acked : ItemId → Nat → Prop) (a : UserId) (page : ItemLevelSyncPullResponse)
    (db db' : Database) : Prop where
  replaced : ∀ r row row', db.getRecord a r = some row → db'.getRecord a r = some row' →
    row.itemRevision ≤ row'.itemRevision
  removed : ∀ r row, db.getRecord a r = some row → db'.getRecord a r = none → ∃ d ∈ page.deletedItems, d.id = r ∧
    row.itemRevision ≤ d.revision ∧ ∀ n, acked r n → n ≤ d.revision
  revived : ∀ r row', (∀ row, db.getRecord a r = some row → row.isDeleted = true) → db'.getRecord a r = some row' →
    row'.isDeleted = false → ∀ n, acked r n → n ≤ row'.itemRevision

/-- Of a record without a pending mutation that it is to change, the page reaches the
entry of the revision that the device holds. Where it removes or revives the record, it
reaches the entries of the revisions that were acknowledged too. -/
structure Covers (acked : ItemId → Nat → Prop) (t : ItemSyncChanges) (a : UserId) (page : ItemLevelSyncPullResponse)
    (db : Database) : Prop where
  items : ∀ item ∈ page.items, db.getForRecord a item.id = none →
    (∀ row, db.getRecord a item.id = some row → Within t a page.cursor item.id row.itemRevision) ∧
    ((∀ row, db.getRecord a item.id = some row → row.isDeleted = true) →
      ∀ n, acked item.id n → Within t a page.cursor item.id n)
  deletedItems : ∀ d ∈ page.deletedItems, db.getForRecord a d.id = none → ∀ row, db.getRecord a d.id = some row →
    Within t a page.cursor d.id row.itemRevision ∧ ∀ n, acked d.id n → Within t a page.cursor d.id n

section
variable {F : Formats} {P : Platform} {a : UserId} {w : World} {db db' : Database} {r : ItemId}
variable {page : ItemLevelSyncPullResponse} {now : String}

theorem held_some {row : CiphertextRecordEntity} (h : db.getRecord a r = some row) :
    db.held a r = some (row.itemRevision, row.isDeleted) := by
  unfold Database.held
  rw [h]
  rfl

theorem of_held {n : Nat} {isDeleted : Bool} (h : db.held a r = some (n, isDeleted)) :
    ∃ row, db.getRecord a r = some row ∧ row.itemRevision = n ∧ row.isDeleted = isDeleted := by
  obtain ⟨row, hrow, he⟩ := Option.map_eq_some_iff.mp h
  exact ⟨row, hrow, (Prod.mk.inj he).1, (Prod.mk.inj he).2⟩

theorem held_none : db.held a r = none ↔ db.getRecord a r = none := Option.map_eq_none_iff

inductive PageTurn (a : UserId) (page : ItemLevelSyncPullResponse) (db db' : Database) (r : ItemId) : Prop
  | kept (held : db'.held a r = db.held a r)
  | stored (item : VaultItemCiphertext) (named : item ∈ page.items) (is : item.id = r)
      (free : db.getForRecord a item.id = none) (held : db'.held a r = some (item.revision, false))
  | removed (d : DeletedItem) (named : d ∈ page.deletedItems) (is : d.id = r) (free : db.getForRecord a d.id = none)
      (held : db'.held a r = none)

theorem applyPage_turns (h : applyPage P a page now db = .ok db') (r : ItemId) : PageTurn a page db db' r := by
  obtain ⟨hids, rfl⟩ := applyPull_eq h
  by_cases hnamed : db.getForRecord a r = none ∧
      r ∈ page.items.map (·.id) ++ (page.deletedItems.map remoteDeleted).map (·.recordId)
  · obtain ⟨hfree, hmem⟩ := hnamed
    rcases List.mem_append.mp hmem with hmem | hmem
    · obtain ⟨item, hitem, rfl⟩ := List.mem_map.mp hmem
      exact .stored item hitem rfl hfree (pulled_item hids hitem hfree)
    · obtain ⟨x, hx, rfl⟩ := List.mem_map.mp hmem
      obtain ⟨d, hd, rfl⟩ := List.mem_map.mp hx
      exact .removed d hd rfl hfree (pulled_deleted hids hx hfree)
  · exact .kept (pulled_keeps fun hfree hmem => hnamed ⟨hfree, hmem⟩)

theorem mem_brought_item {item : VaultItemCiphertext} (h : item ∈ page.items) :
    ItemLevelChange.upsert item ∈ broughtBy page := List.mem_append_left _ (List.mem_map.mpr ⟨item, h, rfl⟩)

theorem mem_brought_deleted {d : DeletedItem} (h : d ∈ page.deletedItems) :
    ItemLevelChange.delete d.id d.revision d.deletedAt ∈ broughtBy page :=
  List.mem_append_right _ (List.mem_map.mpr ⟨d, h, rfl⟩)

variable {sr c k : Nat}

theorem Covers.movesForward (hs : w.Sound a) (hf : HonestFeed F w.feed a)
    (h : applyPage P a (pullPage F w.feed a sr c k) now w.db = .ok db')
    (hcovers : Covers w.acked w.feed a (pullPage F w.feed a sr c k) w.db) :
    MovesForward w.acked a (pullPage F w.feed a sr c k) w.db db' where
  replaced r row row' hrow hrow' := by
    have hheld := held_some hrow
    have hheld' := held_some hrow'
    cases applyPage_turns h r with
    | kept held =>
      rw [held, hheld] at hheld'
      exact Nat.le_of_eq (Prod.mk.inj (Option.some.inj hheld')).1
    | stored item named is free held =>
      cases is
      rw [held] at hheld'
      rw [← (Prod.mk.inj (Option.some.inj hheld')).1]
      exact (brought_newer hf (mem_brought_item named) (hs.rows _ _ hrow)).mpr ((hcovers.items item named free).1 row hrow)
    | removed d named is free held =>
      rw [held] at hheld'
      cases hheld'
  removed r row hrow hnone := by
    have hheld := held_some hrow
    have hheld' := held_none.mpr hnone
    cases applyPage_turns h r with
    | kept held =>
      rw [held, hheld] at hheld'
      cases hheld'
    | stored item named is free held =>
      rw [held] at hheld'
      cases hheld'
    | removed d named is free held =>
      cases is
      obtain ⟨hrevision, hacked⟩ := hcovers.deletedItems d named free row hrow
      refine ⟨d, named, rfl, ?_, fun n hn => ?_⟩
      · exact (brought_newer hf (mem_brought_deleted named) (hs.rows _ _ hrow)).mpr hrevision
      · exact (brought_newer hf (mem_brought_deleted named) (hs.acked _ _ hn)).mpr (hacked n hn)
  revived r row' hdead hrow' hlive n hn := by
    have hheld' := held_some hrow'
    cases applyPage_turns h r with
    | kept held =>
      rw [held] at hheld'
      obtain ⟨row, hrow, -, hdeleted⟩ := of_held hheld'
      rw [hdead row hrow, hlive] at hdeleted
      cases hdeleted
    | stored item named is free held =>
      cases is
      rw [held] at hheld'
      rw [← (Prod.mk.inj (Option.some.inj hheld')).1]
      exact (brought_newer hf (mem_brought_item named) (hs.acked _ _ hn)).mpr ((hcovers.items item named free).2 hdead n hn)
    | removed d named is free held =>
      rw [held] at hheld'
      cases hheld'

theorem MovesForward.covers (hs : w.Sound a) (hf : HonestFeed F w.feed a)
    (h : applyPage P a (pullPage F w.feed a sr c k) now w.db = .ok db')
    (hforward : MovesForward w.acked a (pullPage F w.feed a sr c k) w.db db') :
    Covers w.acked w.feed a (pullPage F w.feed a sr c k) w.db := by
  obtain ⟨hids, he⟩ := applyPull_eq h
  constructor
  · intro item named free
    obtain ⟨row', hrow', hrevision, hlive⟩ := of_held (pulled_item hids named free)
    have hrow' : db'.getRecord a item.id = some row' := he ▸ hrow'
    refine ⟨fun row hrow => ?_, fun hdead n hn => ?_⟩
    · have hle := hforward.replaced item.id row row' hrow hrow'
      rw [hrevision] at hle
      exact (brought_newer hf (mem_brought_item named) (hs.rows _ _ hrow)).mp hle
    · have hle := hforward.revived item.id row' hdead hrow' hlive n hn
      rw [hrevision] at hle
      exact (brought_newer hf (mem_brought_item named) (hs.acked _ _ hn)).mp hle
  · intro d named free row hrow
    have hnone : db'.getRecord a d.id = none :=
      he ▸ held_none.mp (pulled_deleted hids (List.mem_map_of_mem named) free)
    obtain ⟨d', named', hid, hrevision, hacked⟩ := hforward.removed d.id row hrow hnone
    have hnodup := (List.nodup_append.mp hids).2.1
    rw [List.map_map] at hnodup
    obtain rfl := List.inj_on_of_nodup_map hnodup named' named hid
    refine ⟨?_, fun n hn => ?_⟩
    · exact (brought_newer hf (mem_brought_deleted named) (hs.rows _ _ hrow)).mp hrevision
    · exact (brought_newer hf (mem_brought_deleted named) (hs.acked _ _ hn)).mp (hacked n hn)

theorem pulled_reached (hw : w.Reached F P a) (h : applyPage P a (pullPage F w.feed a sr c k) now w.db = .ok db') :
    World.Reached F P a { w with db := db' } := by
  have hstep := World.Reached.step ⟨now, fun _ => now⟩ a
    (.applyPull (pullPage F w.feed a sr c k).items ((pullPage F w.feed a sr c k).deletedItems.map remoteDeleted)
      (pullPage F w.feed a sr c k).serverRevision (pullPage F w.feed a sr c k).cursor now) hw
    (fun _ => ⟨fun _ _ h => h.elim, fun _ _ h => h.elim, ?_⟩) h
  · have hacked : (fun r n => w.acked r n ∨ a = a ∧ False) = w.acked := by simp
    exact hacked ▸ hstep
  · have htold {e : ItemLevelChange} (he : e ∈ broughtBy (pullPage F w.feed a sr c k)) :
        Attested w.feed a e.itemId e.revision := by
      obtain ⟨row, hrow, rfl, -⟩ := brought_last hw.honest he
      exact .inr ⟨row, hrow, rfl, rfl⟩
    rintro r x n ⟨rfl, ⟨item, hitem, rfl, rfl⟩ | ⟨d, hd, rfl, rfl⟩⟩
    · exact htold (mem_brought_item hitem)
    · obtain ⟨deleted, hdeleted, rfl⟩ := List.mem_map.mp hd
      exact htold (mem_brought_deleted hdeleted)

/-- Pages that are applied in order, each from where the one before ended, over a feed
that may grow meanwhile; with each page the state it met and what it left. -/
inductive PullsInOrder (F : Formats) (P : Platform) (a : UserId) :
    World → Nat → List (World × ItemLevelSyncPullResponse × Database) → Prop
  | done {w : World} {c : Nat} : PullsInOrder F P a w c []
  | page {w : World} {sr c k : Nat} {now : String} {db' : Database} {t : ItemSyncChanges}
      {rest : List (World × ItemLevelSyncPullResponse × Database)} : applyPage P a (pullPage F w.feed a sr c k) now w.db = .ok db' →
      w.feed.rows <+: t.rows → HonestFeed F t a →
      PullsInOrder F P a { w with feed := t, db := db' } (pullPage F w.feed a sr c k).cursor rest →
      PullsInOrder F P a w c ((w, pullPage F w.feed a sr c k, db') :: rest)

theorem PullsInOrder.forward_iff {pages : List (World × ItemLevelSyncPullResponse × Database)}
    (h : PullsInOrder F P a w c pages) (hw : w.Reached F P a) :
    ∀ p ∈ pages, MovesForward p.1.acked a p.2.1 p.1.db p.2.2 ↔ Covers p.1.acked p.1.feed a p.2.1 p.1.db := by
  induction h with
  | done => exact fun p hp => absurd hp List.not_mem_nil
  | page happly hgrows ht _ ih =>
    intro p hp
    rcases List.mem_cons.mp hp with rfl | hp
    · exact ⟨MovesForward.covers hw.sound hw.honest happly, Covers.movesForward hw.sound hw.honest happly⟩
    · exact ih (.grows (pulled_reached hw happly) hgrows ht) p hp

/-- From any state that is reached, a page moves forward exactly when it covers what is
held and acknowledged; so does each of the pages that are applied in order. -/
theorem pull_moves_forward (F : Formats) (P : Platform) (a : UserId) (w : World) (hw : w.Reached F P a) :
    (∀ sr c k now db', applyPage P a (pullPage F w.feed a sr c k) now w.db = .ok db' →
      (MovesForward w.acked a (pullPage F w.feed a sr c k) w.db db' ↔
        Covers w.acked w.feed a (pullPage F w.feed a sr c k) w.db)) ∧
    ∀ c pages, PullsInOrder F P a w c pages → ∀ p ∈ pages,
      (MovesForward p.1.acked a p.2.1 p.1.db p.2.2 ↔ Covers p.1.acked p.1.feed a p.2.1 p.1.db) :=
  ⟨fun _ _ _ _ _ h => ⟨MovesForward.covers hw.sound hw.honest h, Covers.movesForward hw.sound hw.honest h⟩,
    fun _ _ hpages => hpages.forward_iff hw⟩

end

/-! ## A device's own two writes -/

def ownEnvelope (revision : Nat) : VaultItemCiphertext := { sampleUpsert.toVaultItemCiphertext with revision }

def ownRow (n : Nat) : ItemSyncChangeRow := ⟨n, sampleUser, sampleUpsert.id, n, .upsert (ownEnvelope n)⟩

/-- The feed after the first `n` writes. -/
def ownFeed (n : Nat) : ItemSyncChanges := ⟨(List.range n).map fun i => ownRow (i + 1), n⟩

def edits (revision : Nat) : Op :=
  .upsertLocalCiphertextAndEnqueue sampleUpsert.id (ownEnvelope revision) revision "2024-01-01T00:00:00.000Z"
    (some revision) (toString revision)

def isAcked (revision : Nat) : Op :=
  .ackMutations [⟨toString revision, revision + 1⟩] (revision + 1) "2024-01-01T00:00:00.000Z"

def Op.after (op : Op) (db : Database) : Database :=
  (op.run samplePlatform sampleReadings sampleUser db).toOption.getD db

theorem Op.run_after {op : Op} {db : Database} (h : (op.run samplePlatform sampleReadings sampleUser db).isOk = true) :
    op.run samplePlatform sampleReadings sampleUser db = .ok (op.after db) := by
  unfold Op.after
  cases hrun : op.run samplePlatform sampleReadings sampleUser db with
  | error => rw [hrun] at h; cases h
  | ok => rfl

def edited (revision : Nat) (db : Database) : Database := (edits revision).after db

def acknowledged (revision : Nat) (db : Database) : Database := (isAcked revision).after (edited revision db)

/-- The edit and its acknowledgement go through, with this item alone in the queue. -/
def writes (n : Nat) (db : Database) : Bool :=
  ((edits n).run samplePlatform sampleReadings sampleUser db).isOk &&
    ((isAcked n).run samplePlatform sampleReadings sampleUser (edited n db)).isOk &&
    (edited n db).pendingMutations.all (·.recordId = sampleUpsert.id)

theorem mem_ownFeed {n : Nat} {row : ItemSyncChangeRow} :
    row ∈ userRows (ownFeed n) sampleUser ↔ ∃ i < n, ownRow (i + 1) = row := by
  unfold userRows ownFeed
  rw [List.mem_filter, List.mem_map]
  constructor
  · rintro ⟨⟨i, hi, his⟩, -⟩
    exact ⟨i, List.mem_range.mp hi, his⟩
  · rintro ⟨i, hi, rfl⟩
    exact ⟨⟨i, List.mem_range.mpr hi, rfl⟩, decide_eq_true rfl⟩

theorem ownEnvelope_valid (n : Nat) : vaultItemCiphertextSchema sampleFormats (ownEnvelope n) = true := by
  change vaultItemCiphertextSchema sampleFormats sampleUpsert.toVaultItemCiphertext = true
  decide +kernel

theorem ownFeed_honest (n : Nat) : HonestFeed sampleFormats (ownFeed n) sampleUser where
  ordered := by
    refine ⟨List.pairwise_map.mpr (List.pairwise_lt_range.imp Nat.succ_lt_succ), fun row hrow => ?_⟩
    obtain ⟨i, hi, rfl⟩ := List.mem_map.mp hrow
    exact List.mem_range.mp hi
  valid row hrow := by
    obtain ⟨i, -, rfl⟩ := mem_ownFeed.mp hrow
    exact Bool.and_eq_true_iff.mpr ⟨decide_eq_true (Nat.succ_pos i), ownEnvelope_valid (i + 1)⟩
  rising row hrow row' hrow' hlt _ := by
    obtain ⟨i, -, rfl⟩ := mem_ownFeed.mp hrow
    obtain ⟨j, -, rfl⟩ := mem_ownFeed.mp hrow'
    exact Nat.le_of_lt hlt

theorem ownFeed_attested (n : Nat) : Attested (ownFeed n) sampleUser sampleUpsert.id n := by
  cases n with
  | zero => exact .inl rfl
  | succ n => exact .inr ⟨ownRow (n + 1), mem_ownFeed.mpr ⟨n, Nat.lt_succ_self n, rfl⟩, rfl, rfl⟩

/-- A write from the revision `n`, once it is acknowledged. -/
theorem written_reached {n : Nat} {db : Database} {acked : ItemId → Nat → Prop}
    (hw : World.Reached sampleFormats samplePlatform sampleUser ⟨ownFeed n, db, acked⟩) (h : writes n db = true) :
    ∃ acked, World.Reached sampleFormats samplePlatform sampleUser ⟨ownFeed (n + 1), acknowledged n db, acked⟩ := by
  simp only [writes, Bool.and_eq_true] at h
  obtain ⟨⟨hedits, hacks⟩, hrecord⟩ := h
  have hedited := World.Reached.step sampleReadings sampleUser (edits n) hw
    (fun _ => ⟨fun _ _ h => h.elim, fun r m h => h.1 ▸ h.2 ▸ ownFeed_attested n, fun _ _ _ h => h.elim⟩)
    (Op.run_after hedits)
  have hgrown := World.Reached.grows (t := ownFeed (n + 1)) hedited
    (by rw [ownFeed, ownFeed, List.range_succ, List.map_append]; exact List.prefix_append _ _) (ownFeed_honest _)
  refine ⟨_, World.Reached.step sampleReadings sampleUser (isAcked n) hgrown (fun _ => ⟨?_, fun _ _ h => h.elim,
    fun _ _ _ h => h.elim⟩) (Op.run_after hacks)⟩
  rintro r m ⟨mutation, hmutation, -, rfl, ack, hack, -, rfl⟩
  cases List.mem_singleton.mp hack
  rw [of_decide_eq_true (List.all_eq_true.mp hrecord mutation hmutation)]
  exact ownFeed_attested _

def twoWrites : Database := acknowledged 1 (acknowledged 0 emptyDatabase)

theorem twoWrites_reached :
    ∃ acked, World.Reached sampleFormats samplePlatform sampleUser ⟨ownFeed 2, twoWrites, acked⟩ := by
  have hran : writes 0 emptyDatabase = true ∧ writes 1 (acknowledged 0 emptyDatabase) = true := by decide +kernel
  obtain ⟨acked, hone⟩ := written_reached (.empty (ownFeed_honest 0)) hran.1
  exact written_reached hone hran.2

/-- A page of at most `k` entries from the feed's start. -/
def firstPage (k : Nat) : ItemLevelSyncPullResponse := pullPage sampleFormats (ownFeed 2) sampleUser 2 0 k

/-- A device that holds the second write and applies such a page. -/
structure PulledFirst (k revision : Nat) (db db' : Database) (acked : ItemId → Nat → Prop)
    (row row' : CiphertextRecordEntity) : Prop where
  reached : World.Reached sampleFormats samplePlatform sampleUser ⟨ownFeed 2, db, acked⟩
  held : db.getRecord sampleUser sampleUpsert.id = some row ∧ row.itemRevision = 2 ∧ row.isDeleted = false
  applied : applyPage samplePlatform sampleUser (firstPage k) "2024-01-01T00:00:00.000Z" db = .ok db'
  stored : db'.getRecord sampleUser sampleUpsert.id = some row' ∧ row'.itemRevision = revision

theorem pulledFirst (k revision : Nat) (h : (twoWrites.held sampleUser sampleUpsert.id = some (2, false) &&
    (applyPage samplePlatform sampleUser (firstPage k) "2024-01-01T00:00:00.000Z" twoWrites).toOption.any
      fun db => db.held sampleUser sampleUpsert.id = some (revision, false)) = true) :
    ∃ db db' acked row row', PulledFirst k revision db db' acked row row' := by
  rw [Bool.and_eq_true] at h
  obtain ⟨acked, hw⟩ := twoWrites_reached
  obtain ⟨db', hdb', hheld⟩ := exists_of_any h.2
  obtain ⟨row, hrow⟩ := of_held (of_decide_eq_true h.1)
  obtain ⟨row', hrow', hrevision, -⟩ := of_held (of_decide_eq_true hheld)
  exact ⟨_, db', acked, row, row', hw, hrow, hdb', hrow', hrevision⟩

def unacknowledged (db : Database) : World := ⟨ownFeed 2, db, fun _ _ => False⟩

def secondPage : ItemLevelSyncPullResponse := pullPage sampleFormats (ownFeed 2) sampleUser 2 (firstPage 1).cursor 1

theorem pageByPage : ∃ db₁ db₂,
    PullsInOrder sampleFormats samplePlatform sampleUser (unacknowledged emptyDatabase) 0
      [(unacknowledged emptyDatabase, firstPage 1, db₁), (unacknowledged db₁, secondPage, db₂)] ∧
    db₁.held sampleUser sampleUpsert.id = some (1, false) := by
  have hran : (applyPage samplePlatform sampleUser (firstPage 1) "2024-01-01T00:00:00.000Z" emptyDatabase).toOption.any
      (fun db => db.held sampleUser sampleUpsert.id == some (1, false) &&
        (applyPage samplePlatform sampleUser secondPage "2024-01-01T00:00:00.000Z" db).toOption.any fun _ => true) = true := by
    decide +kernel
  obtain ⟨db₁, hfirst, hdb₁⟩ := exists_of_any hran
  rw [Bool.and_eq_true, beq_iff_eq] at hdb₁
  obtain ⟨hheld, hsecond⟩ := hdb₁
  obtain ⟨db₂, hsecond, -⟩ := exists_of_any hsecond
  exact ⟨db₁, db₂, .page hfirst (List.prefix_refl _) (ownFeed_honest 2)
    (.page hsecond (List.prefix_refl _) (ownFeed_honest 2) .done), hheld⟩

theorem firstPage_both : (firstPage 2).items = [ownEnvelope 2] ∧ (firstPage 2).deletedItems = [] ∧
    1 + 1 ≤ (firstPage 2).cursor := by
  decide +kernel

theorem secondPage_rest : secondPage.items = [ownEnvelope 2] ∧ secondPage.deletedItems = [] ∧
    0 + 1 ≤ secondPage.cursor := by
  decide +kernel

/-- A page whose one item follows what the device holds. -/
theorem covers_held {page : ItemLevelSyncPullResponse} {acked : ItemId → Nat → Prop} {db : Database} {m n : Nat}
    (hpage : page.items = [ownEnvelope m] ∧ page.deletedItems = [] ∧ n + 1 ≤ page.cursor) (hn : n < 2)
    (hheld : db.held sampleUser sampleUpsert.id = some (n + 1, false)) :
    Covers acked (ownFeed 2) sampleUser page db where
  items item hitem _ := by
    obtain ⟨hitems, -, hend⟩ := hpage
    obtain rfl : item = ownEnvelope m := List.mem_singleton.mp (hitems ▸ hitem)
    obtain ⟨row, hrow, hrevision, hlive⟩ := of_held hheld
    refine ⟨fun row' hrow' => ?_, fun hdead => ?_⟩
    · cases hrow.symm.trans hrow'
      rw [hrevision]
      exact .inr ⟨ownRow (n + 1), mem_ownFeed.mpr ⟨n, hn, rfl⟩, rfl, rfl, hend⟩
    · rw [hdead row hrow] at hlive
      cases hlive
  deletedItems d hd := by
    rw [hpage.2.1] at hd
    exact absurd hd List.not_mem_nil

/-- A page that has both writes moves the record forward, and so does the second of two pages. -/
theorem pull_moves_forward_wholeFeed :
    (∃ w db, World.Reached sampleFormats samplePlatform sampleUser w ∧
      applyPage samplePlatform sampleUser (firstPage 2) "2024-01-01T00:00:00.000Z" w.db = .ok db ∧
      MovesForward w.acked sampleUser (firstPage 2) w.db db) ∧
    ∃ db₁ db₂, db₁.held sampleUser sampleUpsert.id = some (1, false) ∧
      PullsInOrder sampleFormats samplePlatform sampleUser (unacknowledged emptyDatabase) 0
        [(unacknowledged emptyDatabase, firstPage 1, db₁), (unacknowledged db₁, secondPage, db₂)] ∧
      MovesForward (unacknowledged db₁).acked sampleUser secondPage db₁ db₂ := by
  obtain ⟨db₁, db₂, hpages, hheld⟩ := pageByPage
  refine ⟨?_, db₁, db₂, hheld, hpages, ((pull_moves_forward _ _ _ _ (.empty (ownFeed_honest 2))).2 0 _ hpages _
    (List.mem_cons_of_mem _ List.mem_cons_self)).mpr (covers_held secondPage_rest Nat.two_pos hheld)⟩
  obtain ⟨db, db', acked, row, _, hw, ⟨hrow, hrevision, hlive⟩, hdb, -⟩ := pulledFirst 2 2 (by decide +kernel)
  have hheld : db.held sampleUser sampleUpsert.id = some (1 + 1, false) := by
    rw [held_some hrow, hrevision, hlive]
  exact ⟨_, db', hw, hdb, ((pull_moves_forward _ _ _ _ hw).1 2 0 2 _ db' hdb).mpr
    (covers_held firstPage_both (Nat.lt_succ_self 1) hheld)⟩

/-- A page that ends between the writes puts the first in the place of the second. -/
theorem pull_moves_back : ¬ ∀ (F : Formats) (P : Platform) (a : UserId) (w : World), w.Reached F P a →
    ∀ (sr c k : Nat) (now : String) (db' : Database), applyPage P a (pullPage F w.feed a sr c k) now w.db = .ok db' →
      MovesForward w.acked a (pullPage F w.feed a sr c k) w.db db' := by
  intro hall
  obtain ⟨db, db', acked, row, row', hw, ⟨hrow, hrevision, -⟩, hdb, hrow', hrevision'⟩ :=
    pulledFirst 1 1 (by decide +kernel)
  have hle := (hall _ _ _ _ hw 2 0 1 _ db' hdb).replaced _ row row' hrow hrow'
  rw [hrevision, hrevision'] at hle
  omega

end ZeroVault.Mobile

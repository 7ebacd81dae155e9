import ZeroVault.ExactlyOnce
import ZeroVault.ItemFeed
import ZeroVault.Paging

/-!
# The change feed and the item table

From the backfill on, the last feed entry of an item describes the item's row
(`FeedIsTable`), as long as every whole-vault push sends the creation time that
the row it overwrites has: the row keeps that column, and the feed entry does
not look at it. Item-level pushes copy the column from the row they read.
-/

namespace ZeroVault

open Lib

def feedEntry (u : UserId) (id : ItemId) (row : Option VaultItemRow) : Option (Nat × ItemLevelChange) :=
  (row.filter (·.userId = u)).map fun row => (row.revision, migratedChange id row)

def ItemView.Described (u : UserId) (id : ItemId) (v : ItemView) : Prop := v.last = feedEntry u id v.row

/-- Every item of the user has a feed entry exactly when it has a row, and the
last entry describes the row. -/
def FeedIsTable (u : UserId) (s : Db) : Prop := ∀ id, (s.itemView u id).Described u id

def SyncPushRequest.firstUpsert? (request : SyncPushRequest) (id : ItemId) : Option VaultItemCiphertext :=
  (request.upserts.filter (·.id = id)).head?

def SyncPushRequest.lastUpsert? (request : SyncPushRequest) (id : ItemId) : Option VaultItemCiphertext :=
  (request.upserts.filter (·.id = id)).getLast?

/-- The last upsert of each item sends the creation time that the row has, or
for a new row the one of the item's first upsert; deleted items do not matter. -/
def KeepsCreation (request : SyncPushRequest) (s : Db) : Prop :=
  ∀ item ∈ request.upserts, item.id ∉ request.deletes →
    (request.lastUpsert? item.id).map (·.createdAt) =
      (request.firstUpsert? item.id).map (creationOf (s.vaultItems.get? item.id))

instance (request : SyncPushRequest) (s : Db) : Decidable (KeepsCreation request s) :=
  inferInstanceAs (Decidable (∀ item ∈ request.upserts, item.id ∉ request.deletes →
    (request.lastUpsert? item.id).map (·.createdAt) =
      (request.firstUpsert? item.id).map (creationOf (s.vaultItems.get? item.id))))

/-! ## One push -/

section
variable {u : UserId} {id : ItemId} {n : Nat} {v : ItemView}

theorem described_write {x : VaultItemCiphertext} {createdAt : String} (ho : x.ownerUserId = u) :
    (ItemView.mk (some (writeItem u x createdAt)) (some (x.revision, .upsert x))).Described u x.id ↔
      x.createdAt = createdAt := by
  subst ho
  simp only [ItemView.Described, feedEntry, writeItem, VaultItemRow.ofItem, migratedChange, rowToVaultItem,
    Option.filter, decide_true, if_true, Option.map_some]
  constructor
  · intro h
    have h := congrArg Prod.snd (Option.some.inj h)
    exact congrArg VaultItemCiphertext.createdAt (ItemLevelChange.upsert.inj h)
  · intro h
    subst h
    rfl

theorem described_upserts {upserts : List VaultItemCiphertext} (hv : v.Described u id)
    (hown : ∀ item ∈ upserts, item.ownerUserId = u)
    (hfree : ∀ item ∈ upserts, item.id = id → Free u v.row)
    (hkeep : ∀ first item, (upserts.filter (·.id = id)).head? = some first →
      (upserts.filter (·.id = id)).getLast? = some item → item.createdAt = creationOf v.row first) :
    (upsertsView u n upserts id v).Described u id := by
  unfold upsertsView
  cases hh : (upserts.filter (·.id = id)).head? with
  | none => exact hv
  | some first =>
    cases hl : (upserts.filter (·.id = id)).getLast? with
    | none => exact hv
    | some item =>
      have hmem := List.mem_filter.mp (List.mem_of_getLast? hl)
      have hid : item.id = id := by simpa using hmem.2
      have hf : Free u v.row := hfree item hmem.1 hid
      dsimp only
      rw [if_pos (all_eq_true_iff.mpr hf)]
      subst hid
      exact (described_write (x := atRevision n item) (hown item hmem.1)).mpr (hkeep first item hh hl)

theorem described_delete {ts : String} (hv : v.row = none → v.Described u id) (hf : Free u v.row) :
    (deleteView u n ts id v).Described u id := by
  unfold deleteView
  cases hrow : v.row with
  | none => exact hv hrow
  | some row =>
    have hu : row.userId = u := hf row hrow
    simp [ItemView.Described, feedEntry, migratedChange, VaultItemRow.markDeleted, hu, Option.filter]

theorem free_upserts {upserts : List VaultItemCiphertext} (hf : Free u v.row) :
    Free u (upsertsView u n upserts id v).row := by
  unfold upsertsView
  split
  · rw [if_pos (all_eq_true_iff.mpr hf)]
    exact free_write _ _
  · exact hf

theorem upsertsView_row_none {upserts : List VaultItemCiphertext} (h : (upsertsView u n upserts id v).row = none) :
    upsertsView u n upserts id v = v := by
  unfold upsertsView at h ⊢
  split at h
  · split at h
    · cases h
    · rename_i hf
      rw [h] at hf
      exact absurd rfl hf
  · rfl

end

section
variable {u : UserId} {F : Formats} {c : SyncCall} {tr : List SyncStep} {e : SyncStep}

/-- A committed whole-vault push was checked against the rows it overwrites. -/
theorem pushVault_serial {env : Env} {request : SyncPushRequest} {stmts : List SyncStmt} {b a : Db}
    (hg : PushVaultGuar env u request tr ⟨.commit stmts, b, a⟩) (hb : Before (Rely u) tr b) :
    stmts = pushVaultStmts env u (b.serverRevision u + 1) request ∧
      ∀ item ∈ request.upserts, item.ownerUserId = u ∧ Free u (b.vaultItems.get? item.id) := by
  obtain ⟨hx, s₁, rest, rfl, -, -, hchecked, rfl⟩ := hg
  have h1 : Rely u s₁ b := hb.now (queryStep s₁) List.mem_cons_self
  have hw := pushVaultStmts_stateWrite (u := u) (n := s₁.serverRevision u + 1) env request
  have hrev := h1.fences.current hx hw.claim
  refine ⟨by rw [hrev], fun item hitem => ?_⟩
  obtain ⟨ho, s₂, hs₂, hfree⟩ := hchecked item hitem
  refine ⟨ho, ?_⟩
  have h2 : Rely u s₂ b := hb.now (queryStep s₂) hs₂
  have h12 : s₁.serverRevision u ≤ s₂.serverRevision u := by
    rcases List.mem_cons.mp hs₂ with he | hm
    · have hs : s₂ = s₁ := congrArg Step.before he
      exact Nat.le_of_eq (by rw [hs])
    · exact ((List.pairwise_cons.mp hb.pairwise).1 _ hm).revision
  have hle := h2.revision
  rw [h2.rows (by omega) item.id]
  exact hfree

theorem feed_pushVault {env : Env} {request : SyncPushRequest} {stmts : List SyncStmt} {b a : Db}
    (hg : PushVaultGuar env u request tr ⟨.commit stmts, b, a⟩) (hb : Before (Rely u) tr b)
    (hkeep : KeepsCreation request b) (hfeed : FeedIsTable u b) : FeedIsTable u a := by
  obtain ⟨rfl, hchecked⟩ := pushVault_serial hg hb
  obtain ⟨hx, -⟩ := hg
  intro id
  rw [pushVault_view hx id]
  have hown : ∀ item ∈ request.upserts, item.ownerUserId = u := fun item hitem => (hchecked item hitem).1
  have hfree : ∀ item ∈ request.upserts, item.id = id → Free u (b.itemView u id).row := by
    rintro item hitem rfl
    exact (hchecked item hitem).2
  by_cases hd : id ∈ request.deletes
  · rw [if_pos hd]
    by_cases hf : Free u (b.itemView u id).row
    · apply described_delete _ (free_upserts hf)
      intro hnone
      rw [upsertsView_row_none hnone]
      exact hfeed id
    · -- another user's row: the request does not upsert it, and its deletion does nothing
      have hnone : (request.upserts.filter (·.id = id)).head? = none := by
        rw [List.head?_eq_none_iff, List.filter_eq_nil_iff]
        intro item hitem hid
        exact hf (hfree item hitem (by simpa using hid))
      have hup : upsertsView u (b.serverRevision u + 1) request.upserts id (b.itemView u id) = b.itemView u id := by
        simp only [upsertsView, hnone]
      rw [hup]
      have hsame : deleteView u (b.serverRevision u + 1) (env.now "ts") id (b.itemView u id) = b.itemView u id := by
        obtain ⟨row, hrow, hne⟩ := not_free hf
        simp [deleteView, hrow, hne]
      rw [hsame]
      exact hfeed id
  · rw [if_neg hd]
    refine described_upserts (hfeed id) hown hfree fun first item hh hl => ?_
    obtain ⟨hitem, hid⟩ := List.mem_filter.mp (List.mem_of_getLast? hl)
    obtain rfl : item.id = id := by simpa using hid
    have h := hkeep item hitem hd
    unfold SyncPushRequest.lastUpsert? SyncPushRequest.firstUpsert? at h
    rw [hh, hl] at h
    exact Option.some.inj h

theorem feed_pushItem {env : Nat → Env} {plan : ItemLevelSyncPlan} {stmts : List SyncStmt} {b a : Db}
    (hv : itemLevelSyncPlanSchema F plan = true)
    (hg : PushItemGuar env u plan tr ⟨.commit stmts, b, a⟩) (hb : Before (Rely u) tr b)
    (hfeed : FeedIsTable u b) : FeedIsTable u a := by
  obtain ⟨hx, old, s₁, s₂, s₃, st, rfl, ha, rfl⟩ := hg
  obtain ⟨n, hst⟩ := ha.loop
  have hids : (plan.operations.map (·.id)).Nodup := (schema_nodup hv).1
  intro id
  by_cases hop : ∃ op ∈ plan.operations, Applies (pushViewAt u plan s₁ s₂ s₃) op ∧ op.id = id
  · obtain ⟨op, hop, hap, rfl⟩ := hop
    have hw : st.hasStateWrite = true := by
      rw [hst.write, List.any_eq_true]
      exact ⟨op, hop, contribution_write hap⟩
    obtain ⟨-, hrows⟩ := push_serial hw hx hb
    have hrow : (pushViewAt u plan s₁ s₂ s₃).itemRowsById op.id = b.vaultItems.get? op.id := by
      have hmem : op.id ∈ plan.operations.map (·.id) := List.mem_map_of_mem hop
      simp only [pushViewAt, selectItemRows, if_pos hmem, hrows]
    obtain ⟨hbase, hfree, hdel⟩ := applies_found hap
    rw [push_view hst hids hop hap hx]
    cases op with
    | upsert item =>
      have hfree : Free u (b.itemView u item.id).row := fun r hr => hfree r (hrow.trans hr)
      have hfold : (applyStmts (env n) (pushViewAt u plan s₁ s₂ s₃) (.upsert item)).foldl (SyncStmt.onItem u item.id)
          (b.itemView u item.id) = _ := upsert_onItem_free hrow hfree
      refine (congrArg (ItemView.Described u item.id) hfold).mpr ?_
      exact (described_write (x := nextItem (pushViewAt u plan s₁ s₂ s₃) item) rfl).mpr rfl
    | delete item =>
      obtain ⟨row, hr⟩ := hdel rfl
      have hb : (b.itemView u item.id).row = some row := hrow.symm.trans hr
      have hu : row.userId = u := hfree row hr
      have hbase : row.revision = item.baseItemRevision := by
        rw [hr] at hbase
        exact hbase.symm
      have hfold : (applyStmts (env n) (pushViewAt u plan s₁ s₂ s₃) (.delete item)).foldl (SyncStmt.onItem u item.id)
          (b.itemView u item.id) = _ := delete_onItem hr hb hu hbase
      refine (congrArg (ItemView.Described u item.id) hfold).mpr ?_
      simp [ItemView.Described, feedEntry, migratedChange, VaultItemRow.markDeleted, hu, Option.filter]
  · rw [push_view_other hst (fun op hm hap hid => hop ⟨op, hm, hap, hid⟩) hx]
    exact hfeed id

end

/-! ## The backfill -/

theorem migratedChange_itemId (id : ItemId) (row : VaultItemRow) : (migratedChange id row).itemId = id := by
  unfold migratedChange
  split <;> rfl

theorem migrated_last (rows : List (ItemId × VaultItemRow)) (hn : (rows.map Prod.fst).Nodup) (u : UserId) (id : ItemId)
    (k seq : Nat) :
    (ItemSyncChanges.mk ((rows.zipIdx k).map fun p =>
      ⟨p.2, p.1.2.userId, p.1.1, p.1.2.revision, migratedChange p.1.1 p.1.2⟩) seq).lastChange u id =
      feedEntry u id (rows.lookup id) := by
  induction rows generalizing k with
  | nil => rfl
  | cons r rows ih =>
    obtain ⟨i, row⟩ := r
    rw [List.map_cons, List.nodup_cons] at hn
    have ih := ih hn.2 (k + 1)
    simp only [ItemSyncChanges.lastChange] at ih ⊢
    by_cases hi : i = id
    · subst hi
      have hnone : rows.lookup i = none := Table.lookup_eq_none.mpr hn.1
      have hrest : ((rows.zipIdx (k + 1)).map fun p => (⟨p.2, p.1.2.userId, p.1.1, p.1.2.revision,
          migratedChange p.1.1 p.1.2⟩ : ItemSyncChangeRow)).filter (fun r => r.userId = u && r.itemId = i) = [] := by
        apply List.filter_eq_nil_iff.mpr
        intro r hr hmatch
        obtain ⟨p, hp, rfl⟩ := List.mem_map.mp hr
        simp only [Bool.and_eq_true, decide_eq_true_eq] at hmatch
        apply hn.1
        rw [← hmatch.2]
        exact List.mem_map.mpr ⟨p.1, List.fst_mem_of_mem_zipIdx hp, rfl⟩
      simp only [List.zipIdx_cons, List.map_cons, List.filter_cons, hrest, List.lookup_cons, beq_self_eq_true, feedEntry]
      by_cases hu : row.userId = u <;> simp [hu, Option.filter]
    · have hb : (id == i) = false := beq_eq_false_iff_ne.mpr fun h => hi h.symm
      simp only [List.zipIdx_cons, List.map_cons, List.filter_cons, hi, decide_false, Bool.and_false,
        Bool.false_eq_true, if_false, List.lookup_cons, hb]
      exact ih

theorem migrate_feed (db : Db) (u : UserId) : FeedIsTable u db.migrate0006 :=
  fun id => migrated_last db.vaultItems.rows db.vaultItems.nodup u id 1 _

/-! ## Folding the feed -/

def Keyed (t : ItemSyncChanges) : Prop := ∀ r ∈ t.rows, r.change.itemId = r.itemId

def feedState (t : ItemSyncChanges) (u : UserId) : ItemId → Option ItemLevelChange :=
  applyAll (fun _ => none) ((t.rows.filter fun r => r.userId = u).map fun r => (r.change.itemId, r.change))

theorem feedState_last {t : ItemSyncChanges} (hk : Keyed t) (u : UserId) (id : ItemId) :
    feedState t u id = (t.lastChange u id).map Prod.snd := by
  unfold feedState ItemSyncChanges.lastChange
  rw [applyAll_getLast, List.filter_map, List.filter_filter, List.getLast?_map, Option.map_map, Option.map_map]
  have hfilter : t.rows.filter (fun r => ((fun x : ItemId × ItemLevelChange => decide (x.1 = id)) ∘
      fun r : ItemSyncChangeRow => (r.change.itemId, r.change)) r && decide (r.userId = u)) =
      t.rows.filter fun r => r.userId = u && r.itemId = id := by
    apply List.filter_congr
    intro r hr
    simp only [Function.comp, hk r hr, Bool.and_comm]
  rw [hfilter]
  rfl

theorem exec_keyed {q : SyncStmt} {db db' : Db} (h : q.exec db = some db') (hk : Keyed db.itemSyncChanges) :
    Keyed db'.itemSyncChanges := by
  rw [exec_feed h]
  cases hc : q.change? db.vaultItems.get? with
  | none => exact hk
  | some p =>
    obtain ⟨w, i, n, c⟩ := p
    have hid : c.itemId = i := by
      cases q with
      | insertUpsertChange w item => cases hc; rfl
      | insertDeleteChange w i n ts => cases hc; rfl
      | insertDeleteChangeIfDeleted w i n ts =>
        obtain ⟨r, -, hr⟩ := Option.map_eq_some_iff.mp hc
        cases hr
        rfl
      | _ => cases hc
    intro r hr
    rcases List.mem_append.mp hr with hr | hr
    · exact hk r hr
    · rw [List.mem_singleton.mp hr]
      exact hid

theorem migrate_keyed (db : Db) : Keyed db.migrate0006.itemSyncChanges := by
  intro r hr
  obtain ⟨p, -, rfl⟩ := List.mem_map.mp hr
  exact migratedChange_itemId _ _

/-! ## Runs -/

def ItemLevelChange.live? : ItemLevelChange → Option VaultItemCiphertext
  | .upsert item => some item
  | .delete .. => none

section
variable {F : Formats} {u : UserId} {db s : Db} {h : SyncHistory}
variable {ps : List (Proc SyncCall Db (Access SyncStmt) SyncResult)}

theorem feedState_table (hf : FeedIsTable u s) (hk : Keyed s.itemSyncChanges) (id : ItemId) :
    feedState s.itemSyncChanges u id =
      ((s.vaultItems.get? id).filter (·.userId = u)).map (migratedChange id) := by
  have hlast : s.itemSyncChanges.lastChange u id = feedEntry u id (s.vaultItems.get? id) := hf id
  rw [feedState_last hk, hlast, feedEntry, Option.map_map]
  rfl

theorem getEncryptedItem_fold (hf : FeedIsTable u s) (hk : Keyed s.itemSyncChanges) (id : ItemId) :
    ((getEncryptedItem u id).run s).2 = (feedState s.itemSyncChanges u id).bind ItemLevelChange.live? := by
  rw [feedState_table hf hk]
  simp only [getEncryptedItem, Prog.query, Prog.run_act, Prog.run_ret]
  cases s.vaultItems.get? id with
  | none => rfl
  | some row =>
    by_cases hu : row.userId = u
    · cases hd : row.deletedAt <;> simp [Option.filter, hu, hd, migratedChange, ItemLevelChange.live?]
    · simp [Option.filter, hu]

theorem pullVault_fold (hf : FeedIsTable u s) (hk : Keyed s.itemSyncChanges) :
    (∀ item, item ∈ ((pullVault u).run s).2.items ↔ feedState s.itemSyncChanges u item.id = some (.upsert item)) ∧
      ∀ id, id ∈ ((pullVault u).run s).2.deletedItemIds ↔
        ∃ n deletedAt, feedState s.itemSyncChanges u id = some (.delete id n deletedAt) := by
  simp only [pullVault, Prog.query_bind, Prog.run_act, Prog.pure_eq, Prog.run_ret]
  constructor
  · intro item
    rw [feedState_table hf hk, List.mem_map]
    constructor
    · rintro ⟨⟨id, row⟩, hr, rfl⟩
      obtain ⟨hget, hmatch⟩ := Table.mem_select.mp hr
      simp only [Bool.and_eq_true, decide_eq_true_eq, Option.isNone_iff_eq_none] at hmatch
      simp [rowToVaultItem, hget, Option.filter, hmatch.1, hmatch.2, migratedChange]
    · intro hst
      obtain ⟨row, hrow, hc⟩ := Option.map_eq_some_iff.mp hst
      obtain ⟨hget, hu⟩ := Option.filter_eq_some_iff.mp hrow
      unfold migratedChange at hc
      cases hd : row.deletedAt with
      | some d => rw [hd] at hc; cases hc
      | none =>
        rw [hd] at hc
        refine ⟨(item.id, row), Table.mem_select.mpr ⟨hget, by simpa [hd] using hu⟩, ?_⟩
        exact ItemLevelChange.upsert.inj hc
  · intro id
    rw [feedState_table hf hk, List.mem_map]
    constructor
    · rintro ⟨⟨i, row⟩, hr, rfl⟩
      obtain ⟨hget, hmatch⟩ := Table.mem_select.mp hr
      simp only [Bool.and_eq_true, decide_eq_true_eq] at hmatch
      obtain ⟨d, hd⟩ := Option.isSome_iff_exists.mp hmatch.2
      exact ⟨row.revision, d, by simp [hget, Option.filter, hmatch.1, hd, migratedChange]⟩
    · rintro ⟨n, deletedAt, hst⟩
      obtain ⟨row, hrow, hc⟩ := Option.map_eq_some_iff.mp hst
      obtain ⟨hget, hu⟩ := Option.filter_eq_some_iff.mp hrow
      unfold migratedChange at hc
      cases hd : row.deletedAt with
      | none => rw [hd] at hc; cases hc
      | some d => exact ⟨(id, row), Table.mem_select.mpr ⟨hget, by simpa [hd] using hu⟩, rfl⟩

/-- In every run of one user's pushes over a migrated store whose whole-vault
pushes send the creation times that the rows have, the feed is the table, and
folding it gives what the two reads of the table give. -/
theorem feed_is_table (hr : Reach SyncCall.code (fun c => c.userId = u ∧ c.Valid F) db.migrate0006 h s ps)
    (hkeep : ∀ i env request stmts b a, .step i (.pushVault env u request) ⟨.commit stmts, b, a⟩ ∈ h →
      KeepsCreation request b) :
    FeedIsTable u s ∧
      (∀ id, ((getEncryptedItem u id).run s).2 = (feedState s.itemSyncChanges u id).bind ItemLevelChange.live?) ∧
      (∀ item, item ∈ ((pullVault u).run s).2.items ↔
        feedState s.itemSyncChanges u item.id = some (.upsert item)) ∧
      ∀ id, id ∈ ((pullVault u).run s).2.deletedItemIds ↔
        ∃ n deletedAt, feedState s.itemSyncChanges u id = some (.delete id n deletedAt) := by
  have halong : Along (fun s s' => Rely u s s' ∧ (Keyed s.itemSyncChanges → Keyed s'.itemSyncChanges) ∧
      (FeedIsTable u s → FeedIsTable u s')) db.migrate0006 h := by
    refine reach_rel_of (P := fun c e => ∀ env request stmts, c = .pushVault env u request →
      e.label = .commit stmts → KeepsCreation request e.before) (fun c _ => c.sat) (fun s => ⟨.refl u s, id, id⟩)
      (fun _ _ _ h12 h23 => ⟨h12.1.trans h23.1, h23.2.1 ∘ h12.2.1, h23.2.2 ∘ h12.2.2⟩) ?_ hr ?_
    · rintro c tr e ⟨hc, hv⟩ - hb hg hgood
      have hrely : Before (Rely u) tr e.before := hb.mono fun _ _ h => h.1
      refine ⟨guar_rely hc hg hrely, ?_⟩
      rcases guar_step hg with ⟨stmts, hl, hx⟩ | ⟨-, he⟩
      · refine ⟨execAll_keeps SyncStmt.exec (P := fun s => Keyed s.itemSyncChanges)
          (fun q _ s s' hq hk => exec_keyed hq hk) hx, fun hf => ?_⟩
        obtain ⟨label, b, a⟩ := e
        cases hl
        cases c with
        | pushVault env w request =>
          have hc : w = u := hc
          subst hc
          exact feed_pushVault hg hrely (hgood env request stmts rfl rfl) hf
        | pushItemLevelSync env w plan =>
          have hc : w = u := hc
          subst hc
          exact feed_pushItem hv hg hrely hf
      · rw [he]
        exact ⟨id, id⟩
    · rintro i c ⟨label, b, a⟩ he env request stmts rfl rfl
      exact hkeep i env request stmts b a he
  have hlast := (show Along _ db.migrate0006 ([] ++ h) from halong).last
  rw [List.nil_append, reach_store hr] at hlast
  have hk := hlast.2.1 (migrate_keyed db)
  have hf := hlast.2.2 (migrate_feed db u)
  exact ⟨hf, getEncryptedItem_fold hf hk, pullVault_fold hf hk⟩

end

/-! ## Two pushes of one item -/

def sampleItem (createdAt : String) : VaultItemCiphertext :=
  { sampleUpsert.toVaultItemCiphertext with createdAt := createdAt }

def vaultPush (base : Nat) (createdAt : String) : SyncCall :=
  .pushVault ⟨id, fun i => i ++ toString base⟩ sampleUser ⟨base, [sampleItem createdAt], []⟩

/-- An item is pushed, and pushed again with the creation time of the argument. -/
def twoVaultPushes (createdAt : String) : Play SyncCall Db (Access SyncStmt) SyncResult :=
  play SyncCall.code sampleStore.migrate0006
    [.issue (vaultPush 0 sampleUpsert.createdAt), .step 0, .step 0, .step 0,
      .issue (vaultPush 1 createdAt), .step 1, .step 1, .step 1]

theorem vaultPush_valid {base : Nat} {createdAt : String}
    (h : legacyVaultItemCiphertextSchema sampleFormats (sampleItem createdAt) = true) :
    (vaultPush base createdAt).userId = sampleUser ∧ (vaultPush base createdAt).Valid sampleFormats := by
  refine ⟨rfl, ?_⟩
  unfold SyncCall.Valid vaultPush syncPushRequestSchema
  simp [h, MAX_SYNC_MUTATIONS]

theorem twoVaultPushes_reach {createdAt : String}
    (h : legacyVaultItemCiphertextSchema sampleFormats (sampleItem createdAt) = true) :
    Reach SyncCall.code (fun c => c.userId = sampleUser ∧ c.Valid sampleFormats) sampleStore.migrate0006
      (twoVaultPushes createdAt).1 (twoVaultPushes createdAt).2.1 (twoVaultPushes createdAt).2.2 := by
  unfold twoVaultPushes
  apply play_reach
  intro c hc
  simp only [List.mem_cons, Move.issue.injEq, reduceCtorEq, List.not_mem_nil, or_false, false_or, or_self] at hc
  rcases hc with rfl | rfl
  · exact vaultPush_valid (by decide)
  · exact vaultPush_valid h

/-- If the step commits a whole-vault push, its items keep their creation times. -/
def keepsCreationAt : Event SyncCall Db (Access SyncStmt) → Bool
  | .step _ (.pushVault _ _ request) ⟨.commit _, b, _⟩ => decide (KeepsCreation request b)
  | _ => true

/-- `feed_is_table` where both pushes send one creation time. -/
theorem feed_is_table_sameCreation :
    FeedIsTable sampleUser (twoVaultPushes sampleUpsert.createdAt).2.1 ∧
      ((pullVault sampleUser).run (twoVaultPushes sampleUpsert.createdAt).2.1).2.items.length = 1 := by
  have hkeep : (twoVaultPushes sampleUpsert.createdAt).1.all keepsCreationAt = true := by
    decide +kernel
  have hr := @twoVaultPushes_reach sampleUpsert.createdAt (by decide)
  refine ⟨(feed_is_table hr fun i env request stmts b a he => ?_).1, by decide +kernel⟩
  exact of_decide_eq_true (List.all_eq_true.mp hkeep _ he)

/-- A second creation time: the feed has it, the row does not. -/
theorem feed_not_table : ¬ ∀ h s ps,
    Reach SyncCall.code (fun c => c.userId = sampleUser ∧ c.Valid sampleFormats) sampleStore.migrate0006 h s ps →
      FeedIsTable sampleUser s := by
  intro hall
  have h := hall _ _ _ (@twoVaultPushes_reach "2024-02-02T00:00:00.000Z" (by decide)) sampleUpsert.id
  have hne : ((twoVaultPushes "2024-02-02T00:00:00.000Z").2.1.itemView sampleUser sampleUpsert.id).last ≠
      feedEntry sampleUser sampleUpsert.id
        ((twoVaultPushes "2024-02-02T00:00:00.000Z").2.1.itemView sampleUser sampleUpsert.id).row := by
    decide +kernel
  exact hne h

end ZeroVault

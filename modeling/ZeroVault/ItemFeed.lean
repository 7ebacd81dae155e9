import Mathlib.Data.List.Induction
import ZeroVault.SyncStoreSound

/-!
# An item's row and its last feed entry

What a batch does to one item of one user is a fold over its statements
(`onItem`): it moves the row of the item and the last entry that the user's
change feed has for it. The folds of both kinds of push are computed here.
-/

namespace ZeroVault

open Lib

/-- The last feed entry of an item: its `item_revision` and its change. -/
def ItemSyncChanges.lastChange (t : ItemSyncChanges) (u : UserId) (id : ItemId) : Option (Nat × ItemLevelChange) :=
  ((t.rows.filter fun r => r.userId = u && r.itemId = id).getLast?).map fun r => (r.itemRevision, r.change)

structure ItemView where
  row : Option VaultItemRow
  last : Option (Nat × ItemLevelChange)

def Db.itemView (db : Db) (u : UserId) (id : ItemId) : ItemView :=
  ⟨db.vaultItems.get? id, db.itemSyncChanges.lastChange u id⟩

namespace SyncStmt

def change? (q : SyncStmt) (row : ItemId → Option VaultItemRow) : Option (UserId × ItemId × Nat × ItemLevelChange) :=
  match q with
  | insertUpsertChange u item => some (u, item.id, item.revision, .upsert item)
  | insertDeleteChange u id n deletedAt => some (u, id, n, .delete id n deletedAt)
  | insertDeleteChangeIfDeleted u id n deletedAt =>
    ((row id).filter fun r => r.userId = u && r.deletedAt.isSome).map fun r =>
      (u, id, r.revision, .delete id n deletedAt)
  | _ => none

def onItem (u : UserId) (id : ItemId) (v : ItemView) (q : SyncStmt) : ItemView where
  row := q.itemRow id v.row
  last :=
    match q.change? fun _ => v.row with
    | some (w, i, n, c) => if w = u ∧ i = id then some (n, c) else v.last
    | none => v.last

def item? : SyncStmt → Option ItemId
  | upsertVaultItem _ item => some item.id
  | insertUpsertChange _ item => some item.id
  | markDeleted _ id .. => some id
  | markDeletedAtBase _ id .. => some id
  | insertDeleteChangeIfDeleted _ id .. => some id
  | insertDeleteChange _ id .. => some id
  | _ => none

end SyncStmt

section
variable {u : UserId} {id : ItemId} {q : SyncStmt} {db db' : Db} {stmts : List SyncStmt} {v : ItemView}

theorem lastChange_append (t : ItemSyncChanges) (w : UserId) (i : ItemId) (n : Nat) (c : ItemLevelChange) :
    (t.append w i n c).lastChange u id = if w = u ∧ i = id then some (n, c) else t.lastChange u id := by
  unfold ItemSyncChanges.lastChange ItemSyncChanges.append
  rw [List.filter_append]
  by_cases h : w = u ∧ i = id
  · simp [h.1, h.2]
  · have hf : (decide (w = u) && decide (i = id)) = false := by simpa using h
    simp [h, hf]

theorem exec_feed (h : q.exec db = some db') :
    db'.itemSyncChanges = match q.change? db.vaultItems.get? with
      | some (w, i, n, c) => db.itemSyncChanges.append w i n c
      | none => db.itemSyncChanges := by
  cases q with
  | claimRevision w r =>
    obtain ⟨-, t, -, rfl⟩ := exec_claimRevision h
    rfl
  | setServerRevision w r => cases h; rfl
  | upsertVaultItem w item =>
    obtain ⟨⟨t, rfl⟩, -⟩ := exec_upsertVaultItem h
    rfl
  | insertHistory i w item =>
    obtain ⟨t, rfl⟩ := exec_insertHistory h
    rfl
  | insertUpsertChange w item =>
    obtain ⟨-, rfl⟩ := appendChange_eq h
    rfl
  | markDeleted w i n ts => cases h; rfl
  | markDeletedAtBase w i n ts base => cases h; rfl
  | insertDeleteChangeIfDeleted w i n ts =>
    simp only [SyncStmt.exec] at h
    cases hrow : db.vaultItems.get? i with
    | none =>
      rw [hrow] at h
      cases h
      simp [SyncStmt.change?, hrow]
    | some row =>
      rw [hrow] at h
      dsimp only at h
      by_cases hc : row.userId = w ∧ row.deletedAt.isSome = true
      · rw [if_pos hc] at h
        obtain ⟨-, rfl⟩ := appendChange_eq h
        simp [SyncStmt.change?, hrow, Option.filter, hc.1, hc.2]
      · rw [if_neg hc] at h
        cases h
        have hf : (decide (row.userId = w) && row.deletedAt.isSome) = false := by simpa using hc
        simp [SyncStmt.change?, hrow, Option.filter, hf]
  | insertDeleteChange w i n ts =>
    obtain ⟨-, rfl⟩ := appendChange_eq h
    rfl
  | insertMutation w m row =>
    obtain ⟨t, -, rfl⟩ := exec_insertMutation h
    rfl

theorem exec_onItem (h : q.exec db = some db') : db'.itemView u id = q.onItem u id (db.itemView u id) := by
  unfold Db.itemView SyncStmt.onItem
  rw [(exec_effect h).items, exec_feed h]
  congr 1
  cases q with
  | insertDeleteChangeIfDeleted w i n ts =>
    by_cases hi : i = id
    · subst hi
      simp only [SyncStmt.change?]
      cases (db.vaultItems.get? i).filter fun r => r.userId = w && r.deletedAt.isSome with
      | none => rfl
      | some r => exact lastChange_append ..
    · simp only [SyncStmt.change?]
      -- an entry of another item, whether it is appended or not
      have hother : ∀ n c, (db.itemSyncChanges.append w i n c).lastChange u id =
          db.itemSyncChanges.lastChange u id := by
        intro n c
        rw [lastChange_append, if_neg fun h => hi h.2]
      cases (db.vaultItems.get? i).filter fun r => r.userId = w && r.deletedAt.isSome with
      | none => cases (db.vaultItems.get? id).filter fun r => r.userId = w && r.deletedAt.isSome <;> simp [hi]
      | some r =>
        cases (db.vaultItems.get? id).filter fun r => r.userId = w && r.deletedAt.isSome <;> simp [hi, hother]
  | insertUpsertChange w item => exact lastChange_append ..
  | insertDeleteChange w i n ts => exact lastChange_append ..
  | _ => rfl

theorem batch_onItem (h : execBatch stmts db = some db') :
    db'.itemView u id = stmts.foldl (SyncStmt.onItem u id) (db.itemView u id) := by
  induction stmts generalizing db with
  | nil => cases h; rfl
  | cons q qs ih =>
    obtain ⟨t, hq, hqs⟩ := (execAll_cons SyncStmt.exec).mp h
    rw [ih hqs, exec_onItem hq, List.foldl_cons]

theorem onItem_other (h : q.item? ≠ some id) : q.onItem u id v = v := by
  unfold SyncStmt.onItem
  cases q with
  | upsertVaultItem w item =>
    have hne : id ≠ item.id := fun he => h (by rw [he]; rfl)
    simp [SyncStmt.itemRow, SyncStmt.change?, hne]
  | insertUpsertChange w item =>
    have hne : item.id ≠ id := fun he => h (by rw [← he]; rfl)
    simp [SyncStmt.itemRow, SyncStmt.change?, hne]
  | markDeleted w i n ts =>
    have hne : id ≠ i := fun he => h (by rw [he]; rfl)
    simp [SyncStmt.itemRow, SyncStmt.change?, hne]
  | markDeletedAtBase w i n ts base =>
    have hne : id ≠ i := fun he => h (by rw [he]; rfl)
    simp [SyncStmt.itemRow, SyncStmt.change?, hne]
  | insertDeleteChangeIfDeleted w i n ts =>
    have hne : i ≠ id := fun he => h (by rw [← he]; rfl)
    simp only [SyncStmt.itemRow, SyncStmt.change?]
    cases v.row.filter fun r => r.userId = w && r.deletedAt.isSome <;> simp [hne]
  | insertDeleteChange w i n ts =>
    have hne : i ≠ id := fun he => h (by rw [← he]; rfl)
    simp [SyncStmt.itemRow, SyncStmt.change?, hne]
  | _ => rfl

theorem foldl_onItem_other (h : ∀ q ∈ stmts, q.item? ≠ some id) : stmts.foldl (SyncStmt.onItem u id) v = v := by
  induction stmts with
  | nil => rfl
  | cons q qs ih =>
    rw [List.foldl_cons, onItem_other (h q List.mem_cons_self)]
    exact ih fun q' hq' => h q' (List.mem_cons_of_mem _ hq')

end

/-! ## The fold of a whole-vault push -/

/-- The row an item gets by being written onto `row`. -/
def writeItem (u : UserId) (item : VaultItemCiphertext) (createdAt : String) : VaultItemRow :=
  { VaultItemRow.ofItem u item with createdAt := createdAt }

def creationOf (row : Option VaultItemRow) (item : VaultItemCiphertext) : String :=
  (row.map (·.createdAt)).getD item.createdAt

section
variable {u : UserId} {id : ItemId} {n : Nat} {env : Env} {v : ItemView}

theorem itemRow_upsert (item : VaultItemCiphertext) {row : Option VaultItemRow} (h : Free u row) :
    (SyncStmt.upsertVaultItem u item).itemRow item.id row = some (writeItem u item (creationOf row item)) := by
  cases row with
  | none => simp [SyncStmt.itemRow, writeItem, creationOf, VaultItemRow.ofItem]
  | some r =>
    have hu := h r rfl
    subst hu
    simp [SyncStmt.itemRow, writeItem, creationOf, VaultItemRow.overwrite]

theorem itemRow_foreign (item : VaultItemCiphertext) {row : Option VaultItemRow} (h : ¬ Free u row) :
    (SyncStmt.upsertVaultItem u item).itemRow item.id row = row := by
  obtain ⟨r, rfl, hne⟩ := not_free h
  simp [SyncStmt.itemRow, hne]

theorem free_write (item : VaultItemCiphertext) (createdAt : String) : Free u (some (writeItem u item createdAt)) := by
  intro r hr
  cases hr
  rfl

def atRevision (n : Nat) (item : VaultItemCiphertext) : VaultItemCiphertext := { item with revision := n }

theorem legacyUpsert_onItem (item : VaultItemCiphertext) (i : Nat) :
    (legacyUpsertStmts env u n item i).foldl (SyncStmt.onItem u id) v =
      if item.id = id then
        ⟨(SyncStmt.upsertVaultItem u (atRevision n item)).itemRow item.id v.row, some (n, .upsert (atRevision n item))⟩
      else v := by
  by_cases h : item.id = id
  · subst h
    simp [legacyUpsertStmts, SyncStmt.onItem, SyncStmt.change?, SyncStmt.itemRow, atRevision]
  · rw [if_neg h]
    apply foldl_onItem_other
    intro q hq
    simp only [legacyUpsertStmts, List.mem_cons, List.not_mem_nil, or_false] at hq
    rcases hq with rfl | rfl | rfl <;> simp [SyncStmt.item?, h]

/-- What the upserts of one request make of an item: all of its columns are the
last upsert's, but for the creation time. -/
def upsertsView (u : UserId) (n : Nat) (upserts : List VaultItemCiphertext) (id : ItemId) (v : ItemView) : ItemView :=
  match (upserts.filter (·.id = id)).head?, (upserts.filter (·.id = id)).getLast? with
  | some first, some item =>
    { row := if v.row.all (·.userId = u) then some (writeItem u (atRevision n item) (creationOf v.row first)) else v.row
      last := some (n, .upsert (atRevision n item)) }
  | _, _ => v

theorem all_eq_true_iff {row : Option VaultItemRow} : row.all (·.userId = u) = true ↔ Free u row := by
  cases row with
  | none => simp [Free]
  | some r => simp [Free]

theorem upserts_onItem (upserts : List VaultItemCiphertext) :
    (upserts.zipIdx.flatMap fun p => legacyUpsertStmts env u n p.1 p.2).foldl (SyncStmt.onItem u id) v =
      upsertsView u n upserts id v := by
  induction upserts using List.reverseRecOn with
  | nil => rfl
  | append_singleton items item ih =>
    rw [List.zipIdx_append, List.flatMap_append, List.foldl_append, ih]
    simp only [List.zipIdx_cons, List.zipIdx_nil, List.flatMap_cons, List.flatMap_nil, List.append_nil]
    rw [legacyUpsert_onItem]
    unfold upsertsView
    by_cases hid : item.id = id
    · subst hid
      rw [if_pos rfl]
      simp only [List.filter_append, List.filter_cons, decide_true, if_true, List.filter_nil,
        List.getLast?_append, List.getLast?_singleton]
      cases hf : items.filter (fun x => x.id = item.id) with
      | nil =>
        simp only [List.head?_nil, List.nil_append, List.head?_cons]
        congr 1
        by_cases ho : Free u v.row
        · rw [if_pos (all_eq_true_iff.mpr ho)]
          exact itemRow_upsert (atRevision n item) ho
        · rw [if_neg (mt all_eq_true_iff.mp ho)]
          exact itemRow_foreign (atRevision n item) ho
      | cons first rest =>
        simp only [List.head?_cons, List.cons_append, List.getLast?_cons]
        congr 1
        by_cases ho : Free u v.row
        · rw [if_pos (all_eq_true_iff.mpr ho), if_pos (all_eq_true_iff.mpr ho)]
          exact itemRow_upsert (atRevision n item) (free_write _ _)
        · rw [if_neg (mt all_eq_true_iff.mp ho), if_neg (mt all_eq_true_iff.mp ho)]
          exact itemRow_foreign (atRevision n item) ho
    · rw [if_neg hid]
      simp [List.filter_append, hid]

/-- What the deletions of one request make of an item that is among them. -/
def deleteView (u : UserId) (n : Nat) (deletedAt : String) (id : ItemId) (v : ItemView) : ItemView :=
  match v.row with
  | some row =>
    if row.userId = u then ⟨some (row.markDeleted n deletedAt), some (n, .delete id n deletedAt)⟩ else v
  | none => v

theorem legacyDelete_onItem (ts : String) (i : ItemId) :
    (legacyDeleteStmts u n ts i).foldl (SyncStmt.onItem u id) v = if i = id then deleteView u n ts id v else v := by
  by_cases h : i = id
  · subst h
    rw [if_pos rfl]
    obtain ⟨row, last⟩ := v
    cases row with
    | none => rfl
    | some row =>
      by_cases hu : row.userId = u
      · simp [legacyDeleteStmts, SyncStmt.onItem, SyncStmt.change?, SyncStmt.itemRow, deleteView, hu,
          VaultItemRow.markDeleted, Option.filter]
      · simp [legacyDeleteStmts, SyncStmt.onItem, SyncStmt.change?, SyncStmt.itemRow, deleteView, hu, Option.filter]
  · rw [if_neg h]
    apply foldl_onItem_other
    intro q hq
    simp only [legacyDeleteStmts, List.mem_cons, List.not_mem_nil, or_false] at hq
    rcases hq with rfl | rfl <;> simp [SyncStmt.item?, h]

theorem deleteView_twice (ts : String) : deleteView u n ts id (deleteView u n ts id v) = deleteView u n ts id v := by
  obtain ⟨row, last⟩ := v
  cases row with
  | none => rfl
  | some row =>
    by_cases hu : row.userId = u
    · simp [deleteView, hu, VaultItemRow.markDeleted]
    · simp [deleteView, hu]

theorem deletes_onItem (deletes : List ItemId) (ts : String) :
    (deletes.flatMap (legacyDeleteStmts u n ts)).foldl (SyncStmt.onItem u id) v =
      if id ∈ deletes then deleteView u n ts id v else v := by
  induction deletes generalizing v with
  | nil => rfl
  | cons i deletes ih =>
    rw [List.flatMap_cons, List.foldl_append, legacyDelete_onItem, ih]
    by_cases hi : i = id
    · subst hi
      by_cases hm : i ∈ deletes
      · simp [hm, deleteView_twice]
      · simp [hm]
    · have hne : id ≠ i := fun he => hi he.symm
      simp [hi, hne]

theorem pushVault_view {request : SyncPushRequest} {b a : Db} (hx : execBatch (pushVaultStmts env u n request) b = some a)
    (id : ItemId) :
    a.itemView u id = if id ∈ request.deletes then
        deleteView u n (env.now "ts") id (upsertsView u n request.upserts id (b.itemView u id))
      else upsertsView u n request.upserts id (b.itemView u id) := by
  rw [batch_onItem hx]
  unfold pushVaultStmts
  have hclaim : (SyncStmt.claimRevision u n).onItem u id (b.itemView u id) = b.itemView u id := rfl
  have hset : (SyncStmt.setServerRevision u n).onItem u id (b.itemView u id) = b.itemView u id := rfl
  rw [List.foldl_cons, List.foldl_cons, List.foldl_append, hclaim, hset, upserts_onItem, deletes_onItem]

end

/-! ## The fold of an item-level push -/

section
variable {env : Env} {view : PushView} {ops : List Operation} {st : PushState} {op : Operation}
variable {b a : Db} {v : ItemView} {id : ItemId}

theorem applyStmts_item {q : SyncStmt} (h : q ∈ applyStmts env view op) : q.item? = some op.id ∨ q.item? = none := by
  cases op with
  | upsert item =>
    simp only [applyStmts, List.mem_cons, List.not_mem_nil, or_false] at h
    rcases h with rfl | rfl | rfl
    · exact .inl rfl
    · exact .inr rfl
    · exact .inl rfl
  | delete item =>
    simp only [applyStmts] at h
    split at h
    · simp only [List.mem_cons, List.not_mem_nil, or_false] at h
      rcases h with rfl | rfl <;> exact .inl rfl
    · cases h

theorem contributions_other {w : UserId} (h : ∀ op ∈ ops, Applies view op → op.id ≠ id) :
    (ops.flatMap fun op => (contribution env view op).stmts).foldl (SyncStmt.onItem w id) v = v := by
  apply foldl_onItem_other
  intro q hq
  obtain ⟨op, hop, hq⟩ := List.mem_flatMap.mp hq
  obtain ⟨ha, hq⟩ := contribution_stmts hq
  rcases applyStmts_item hq with he | he
  · rw [he]
    intro hid
    exact h op hop ha (Option.some.inj hid)
  · rw [he]
    exact nofun

/-- Beside the applied mutations nothing of a batch concerns an item. -/
theorem batchStmts_onItem (hst : LoopResult env view ops st) (w : UserId) (id : ItemId) (v : ItemView) :
    (st.batchStmts view).foldl (SyncStmt.onItem w id) v =
      (ops.flatMap fun op => (contribution env view op).stmts).foldl (SyncStmt.onItem w id) v := by
  have hreceipts : ∀ v, (st.receiptStmts view).foldl (SyncStmt.onItem w id) v = v := by
    intro v
    apply foldl_onItem_other
    intro q hq
    unfold PushState.receiptStmts at hq
    obtain ⟨r, -, rfl⟩ := List.mem_map.mp hq
    exact nofun
  have hclaim : ∀ r v, (SyncStmt.claimRevision view.userId r).onItem w id v = v := fun _ _ => rfl
  have hset : ∀ r v, (SyncStmt.setServerRevision view.userId r).onItem w id v = v := fun _ _ => rfl
  unfold PushState.batchStmts
  split
  · simp only [List.foldl_append, List.foldl_cons, List.foldl_nil, hreceipts, hclaim, hset, hst.stmts]
  · rw [List.foldl_append, hreceipts, hst.stmts]

theorem push_view (hst : LoopResult env view ops st) (hids : (ops.map (·.id)).Nodup) (hop : op ∈ ops)
    (ha : Applies view op) (hx : execBatch (st.batchStmts view) b = some a) (w : UserId) :
    a.itemView w op.id = (applyStmts env view op).foldl (SyncStmt.onItem w op.id) (b.itemView w op.id) := by
  rw [batch_onItem hx, batchStmts_onItem hst]
  obtain ⟨pre, post, rfl⟩ := List.append_of_mem hop
  rw [List.map_append, List.map_cons, List.nodup_append, List.nodup_cons] at hids
  obtain ⟨-, ⟨hpost, -⟩, hpre⟩ := hids
  rw [List.flatMap_append, List.flatMap_cons, List.foldl_append, List.foldl_append]
  have h1 : ∀ o ∈ pre, Applies view o → o.id ≠ op.id := by
    intro o ho _
    exact hpre o.id (List.mem_map_of_mem ho) op.id List.mem_cons_self
  have h2 : ∀ o ∈ post, Applies view o → o.id ≠ op.id := by
    intro o ho _ he
    exact hpost (he ▸ List.mem_map_of_mem ho)
  rw [contributions_other h1, contributions_other h2, contribution_applies ha]

theorem push_view_other (hst : LoopResult env view ops st) (h : ∀ op ∈ ops, Applies view op → op.id ≠ id)
    (hx : execBatch (st.batchStmts view) b = some a) (w : UserId) : a.itemView w id = b.itemView w id := by
  rw [batch_onItem hx, batchStmts_onItem hst, contributions_other h]

theorem upsert_onItem (item : ItemLevelEncryptedUpsert) :
    (applyStmts env view (.upsert item)).foldl (SyncStmt.onItem view.userId item.id) v =
      ⟨(SyncStmt.upsertVaultItem view.userId (nextItem view item)).itemRow item.id v.row,
        some (view.nextRevision, .upsert (nextItem view item))⟩ := by
  simp [applyStmts, SyncStmt.onItem, SyncStmt.change?, SyncStmt.itemRow, nextItem]

theorem upsert_onItem_free {item : ItemLevelEncryptedUpsert} (hrow : view.itemRowsById item.id = v.row)
    (hf : Free view.userId v.row) :
    (applyStmts env view (.upsert item)).foldl (SyncStmt.onItem view.userId item.id) v =
      ⟨some (writeItem view.userId (nextItem view item) (nextItem view item).createdAt),
        some (view.nextRevision, .upsert (nextItem view item))⟩ := by
  have hcreated : creationOf v.row (nextItem view item) = (nextItem view item).createdAt := by
    simp only [creationOf, nextItem, hrow]
    cases v.row <;> rfl
  have hwritten : (SyncStmt.upsertVaultItem view.userId (nextItem view item)).itemRow item.id v.row = _ :=
    itemRow_upsert (nextItem view item) hf
  rw [upsert_onItem, hwritten, hcreated]

theorem delete_onItem {item : ItemLevelEncryptedDelete} {row : VaultItemRow} (hv : view.itemRowsById item.id = some row)
    (hrow : v.row = some row) (hu : row.userId = view.userId) (hb : row.revision = item.baseItemRevision) :
    (applyStmts env view (.delete item)).foldl (SyncStmt.onItem view.userId item.id) v =
      ⟨some (row.markDeleted view.nextRevision (env.now item.clientMutationId)),
        some (view.nextRevision, .delete item.id view.nextRevision (env.now item.clientMutationId))⟩ := by
  simp [applyStmts, SyncStmt.onItem, SyncStmt.change?, SyncStmt.itemRow, hv, hrow, hu, hb]

end

end ZeroVault

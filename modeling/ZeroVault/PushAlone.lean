import ZeroVault.ExactlyOnce
import ZeroVault.ItemFeed

/-!
# A push that meets nobody else

What one `pushItemLevelSync`, run to its end, makes of the database, of each of
its operations and of each item; and the same of a `pushVault`. Clients that
take turns at the Worker see their requests answered this way.
-/

namespace ZeroVault

open Lib

/-- A push that came to an answer, with all its reads from `db`. -/
structure PushRun (env : Env) (u : UserId) (plan : ItemLevelSyncPlan) (st : PushState) (db db' : Db)
    (result : ItemLevelSyncPushResult) : Prop where
  user : db.users.contains u = true
  loop : LoopResult env (pushViewAt u plan db db db) plan.operations st
  batch : execBatch (st.batchStmts (pushViewAt u plan db db db)) db = some db'
  answered : result = st.pushResult (pushViewAt u plan db db db)

/-! ## The run -/

section
variable {env : Env} {u : UserId} {plan : ItemLevelSyncPlan} {db db' : Db}

theorem pushAborted_run (view : PushView) (st : PushState) :
    ∃ e, (pushAborted view st).run db = (db, .error e) := by
  unfold pushAborted
  simp only [Prog.query_bind]
  split
  · rw [Prog.run_act]
    dsimp only
    split
    · exact ⟨_, rfl⟩
    split
    · exact ⟨_, rfl⟩
    · exact ⟨_, rfl⟩
  · split
    · exact ⟨_, rfl⟩
    · exact ⟨_, rfl⟩

variable (db) in
theorem pushPrepared_run (view : PushView) (st : PushState) :
    (∃ e, (pushPrepared view st).run db = (db, .error e)) ∨
      ∃ db', execBatch (st.batchStmts view) db = some db' ∧
        (pushPrepared view st).run db = (db', .ok (st.pushResult view)) := by
  unfold pushPrepared
  by_cases he : (st.batchStmts view).isEmpty = true
  · rw [if_pos he]
    refine .inr ⟨db, ?_, rfl⟩
    rw [List.isEmpty_iff.mp he]
    rfl
  · rw [if_neg he]
    unfold syncBatch batch
    rw [Prog.access_bind, Prog.run_act]
    cases hx : execAll SyncStmt.exec (st.batchStmts view) db with
    | some db' => exact .inr ⟨db', hx, rfl⟩
    | none => exact .inl (pushAborted_run view st)

variable (env u plan db) in
theorem pushItemLevelSyncOnce_run :
    (∃ e, (pushItemLevelSyncOnce env u plan).run db = (db, .error e)) ∨
      ∃ st db' result, PushRun env u plan st db db' result ∧
        (pushItemLevelSyncOnce env u plan).run db = (db', .ok result) := by
  unfold pushItemLevelSyncOnce
  simp only [Prog.query_bind]
  rw [Prog.run_act]
  dsimp only
  cases hu : findUserById u db with
  | none => exact .inl ⟨_, rfl⟩
  | some user =>
    have hc : db.users.contains u = true := Table.contains_eq_true.mpr ⟨user, hu⟩
    have hr : user.serverRevision = db.serverRevision u := by
      unfold findUserById at hu
      unfold Db.serverRevision
      rw [hu]; rfl
    dsimp only
    rw [hr]
    by_cases he : plan.operations.isEmpty = true
    · -- nothing is read, and the view without rows answers the same
      rw [if_pos he, List.isEmpty_iff.mp he]
      refine .inr ⟨{}, db, _, ⟨hc, ?_, rfl, rfl⟩, rfl⟩
      rw [List.isEmpty_iff.mp he]
      exact pushLoop_ok rfl
    · rw [if_neg he, Prog.run_act]
      dsimp only
      rw [Prog.run_act]
      dsimp only
      split
      · rename_i e hl
        exact .inl ⟨e, rfl⟩
      · rename_i st hl
        rcases pushPrepared_run db (pushViewAt u plan db db db) st with ⟨e, he⟩ | ⟨db', hx, hrun⟩
        · exact .inl ⟨e, he⟩
        · exact .inr ⟨st, db', _, ⟨hc, pushLoop_ok hl, hx, rfl⟩, hrun⟩

end

theorem pushItemLevelSync_run (env : Nat → Env) (u : UserId) (plan : ItemLevelSyncPlan) (db : Db) :
    (∃ e, (pushItemLevelSync env u plan).run db = (db, .error e)) ∨
      ∃ n st db' result, PushRun (env n) u plan st db db' result ∧
        (pushItemLevelSync env u plan).run db = (db', .ok result) := by
  unfold pushItemLevelSync
  generalize MAX_SYNC_REVISION_RETRIES = left
  induction left with
  | zero =>
    rcases pushItemLevelSyncOnce_run (env 0) u plan db with ⟨e, he⟩ | ⟨st, db', result, h, hrun⟩
    · exact .inl ⟨e, he⟩
    · exact .inr ⟨0, st, db', result, h, hrun⟩
  | succ left ih =>
    unfold pushAttempts
    rw [Prog.run_bind]
    rcases pushItemLevelSyncOnce_run (env (left + 1)) u plan db with
      ⟨e, he⟩ | ⟨st, db', result, h, hrun⟩
    · rw [he]
      cases e with
      | syncRevisionClaimConflict => exact ih
      | _ => exact .inl ⟨_, rfl⟩
    · rw [hrun]
      exact .inr ⟨left + 1, st, db', result, h, rfl⟩

/-! ## The operations of a push -/

theorem selectItemRows_mem {ids : List ItemId} {id : ItemId} (h : id ∈ ids) (db : Db) :
    selectItemRows ids db id = db.vaultItems.get? id := if_pos h

theorem selectReceipts_mem {u : UserId} {ids : List MutationId} {m : MutationId} (h : m ∈ ids) (db : Db) :
    selectReceipts u ids db m = db.itemSyncMutations.get? (u, m) := if_pos h

section
variable {env : Env} {u : UserId} {plan : ItemLevelSyncPlan} {st : PushState} {db db' : Db}
variable {result : ItemLevelSyncPushResult} {op : Operation}

theorem pushView_row (hop : op ∈ plan.operations) :
    (pushViewAt u plan db db db).itemRowsById op.id = db.vaultItems.get? op.id :=
  selectItemRows_mem (List.mem_map_of_mem hop) db

theorem pushView_receipt (hop : op ∈ plan.operations) :
    (pushViewAt u plan db db db).receiptsById op.clientMutationId =
      db.itemSyncMutations.get? (u, op.clientMutationId) :=
  selectReceipts_mem (List.mem_map_of_mem (f := fun op : Operation => op.clientMutationId) hop) db

variable (h : PushRun env u plan st db db' result)
include h

theorem PushRun.receipt_iff {receipt : AppliedMutationReceipt} :
    receipt ∈ result.applied.mutationReceipts ↔
      ∃ op ∈ plan.operations, answer (pushViewAt u plan db db db) result.serverRevision op = .receipt receipt := by
  have hrev : result.serverRevision = st.serverRevision (pushViewAt u plan db db db) := by rw [h.answered]; rfl
  rw [hrev, h.answered, (pushResult_answers h.loop).2.mem_iff]
  simp only [List.filterMap_map, List.mem_filterMap, Function.comp]
  constructor
  · rintro ⟨op, hop, ha⟩
    refine ⟨op, hop, ?_⟩
    cases hans : answer (pushViewAt u plan db db db) (st.serverRevision (pushViewAt u plan db db db)) op with
    | receipt r =>
      rw [hans] at ha
      cases ha
      rfl
    | conflict c =>
      rw [hans] at ha
      cases ha
  · rintro ⟨op, hop, ha⟩
    exact ⟨op, hop, by rw [ha]; rfl⟩

theorem PushRun.revision : db'.serverRevision u = result.serverRevision ∧
    db.serverRevision u ≤ result.serverRevision := by
  have hrev : result.serverRevision = st.serverRevision (pushViewAt u plan db db db) := by rw [h.answered]; rfl
  rw [hrev]
  unfold PushState.serverRevision
  cases hw : st.hasStateWrite with
  | true =>
    have hr := (batchStmts_stateWrite h.loop hw).rely h.user h.batch
    exact ⟨hr.1, Nat.le_succ _⟩
  | false =>
    have hr := quiet_rely (fun q hq => batchStmts_quiet h.loop hw hq) h.batch
    exact ⟨hr.1, Nat.le_refl _⟩

theorem PushRun.applied (hmids : (plan.operations.map (·.clientMutationId)).Nodup) (hop : op ∈ plan.operations) (ha : Applies (pushViewAt u plan db db db) op) :
    result.serverRevision = db.serverRevision u + 1 ∧
      db'.itemSyncMutations.get? (u, op.clientMutationId) =
        some ⟨op.requestFingerprint, .applied op.kind op.id result.serverRevision⟩ := by
  have hw : st.hasStateWrite = true := by
    rw [h.loop.write, List.any_eq_true]
    exact ⟨op, hop, contribution_write ha⟩
  have hrev : result.serverRevision = db.serverRevision u + 1 := by
    rw [h.answered]
    unfold PushState.pushResult PushState.serverRevision
    rw [if_pos hw]
    rfl
  refine ⟨hrev, ?_⟩
  have hm := (appliedIn_iff h.loop hmids hop).mpr ha
  rw [hrev]
  exact (batch_insertMutation h.batch (of_decide_eq_true hm)).2

theorem PushRun.receipts_other {m : MutationId} (hm : m ∉ plan.mutationIds) (v : UserId) :
    db'.itemSyncMutations.get? (v, m) = db.itemSyncMutations.get? (v, m) := by
  cases hrow : db.itemSyncMutations.get? (v, m) with
  | some row => exact batch_receipts h.batch _ row hrow
  | none =>
    cases hrow' : db'.itemSyncMutations.get? (v, m) with
    | none => rfl
    | some row =>
      rcases batch_receipt_from h.batch hrow' with h0 | hins
      · rw [hrow] at h0
        cases h0
      · obtain ⟨-, op, hop, rfl, -⟩ := batchStmts_insertMutation h.loop hins
        rw [← operations_mutationIds] at hm
        exact absurd (List.mem_map_of_mem hop) hm

end

theorem answer_mutation {view : PushView} {op : Operation} {n : Nat} {receipt : AppliedMutationReceipt}
    (h : answer view n op = .receipt receipt) : receipt.clientMutationId = op.clientMutationId := by
  unfold answer at h
  split at h
  · rename_i previous _
    split at h
    · cases h
    · cases hr : previous.result with
      | conflict c =>
        rw [hr] at h
        cases h
      | applied k id r =>
        rw [hr] at h
        cases h
        rfl
  · split at h
    · cases h
    · cases h
      rfl

theorem answer_applies {view : PushView} {op : Operation} {n : Nat} (h : Applies view op) :
    answer view n op = .receipt ⟨op.clientMutationId, op.id, op.kind, n⟩ := by
  unfold answer
  rw [h.1, h.2]

theorem answer_seen {view : PushView} {op : Operation} {n r : Nat}
    (h : view.receiptsById op.clientMutationId = some ⟨op.requestFingerprint, .applied op.kind op.id r⟩) :
    answer view n op = .receipt ⟨op.clientMutationId, op.id, op.kind, r⟩ := by
  unfold answer
  rw [h]
  simp [ReceiptResult.answer]

theorem applies_of {view : PushView} {op : Operation} (hnew : view.receiptsById op.clientMutationId = none)
    (hrev : view.baseRevision ≤ view.serverRevision)
    (hown : ∀ row, view.itemRowsById op.id = some row → row.userId = view.userId)
    (hrow : op.kind = .delete → view.itemRowsById op.id ≠ none)
    (hbase : op.baseItemRevision = ((view.itemRowsById op.id).map (·.revision)).getD 0) : Applies view op := by
  refine ⟨hnew, ?_⟩
  unfold freshConflict
  dsimp only
  rw [if_neg (Nat.not_lt.mpr hrev), if_neg, if_neg, if_neg]
  · exact fun hne => hne hbase
  · rintro ⟨hk, hnone⟩
    exact hrow hk (Option.isNone_iff_eq_none.mp hnone)
  · intro hany
    cases hr : view.itemRowsById op.id with
    | none =>
      rw [hr] at hany
      cases hany
    | some row =>
      rw [hr] at hany
      simp [hown row hr] at hany

/-! ## The feed -/

def ItemSyncChanges.itemRows (t : ItemSyncChanges) (u : UserId) (id : ItemId) : List ItemSyncChangeRow :=
  t.rows.filter fun r => r.userId = u && r.change.itemId = id

def appliedChange (env : Env) (view : PushView) : Operation → ItemLevelChange
  | .upsert item => .upsert (nextItem view item)
  | .delete item => .delete item.id view.nextRevision (env.now item.clientMutationId)

section
variable {env : Env} {view : PushView} {ops : List Operation} {st : PushState} {op : Operation}
variable {stmts : List SyncStmt} {db db' : Db} {u : UserId} {id : ItemId}

theorem change_item {q : SyncStmt} {row : ItemId → Option VaultItemRow} {w : UserId} {i : ItemId} {n : Nat}
    {c : ItemLevelChange} (h : q.change? row = some (w, i, n, c)) : q.item? = some i ∧ c.itemId = i := by
  cases q with
  | insertUpsertChange v item => cases h; exact ⟨rfl, rfl⟩
  | insertDeleteChange v j m ts => cases h; exact ⟨rfl, rfl⟩
  | insertDeleteChangeIfDeleted v j m ts =>
    simp only [SyncStmt.change?, Option.map_eq_some_iff] at h
    obtain ⟨r, -, he⟩ := h
    cases he
    exact ⟨rfl, rfl⟩
  | _ => cases h

theorem appliedChange_itemId : (appliedChange env view op).itemId = op.id := by
  cases op <;> rfl

theorem exec_seq {q : SyncStmt} (h : q.exec db = some db') : db.itemSyncChanges.seq ≤ db'.itemSyncChanges.seq := by
  rw [exec_feed h]
  split
  · exact Nat.le_succ _
  · exact Nat.le_refl _

theorem batch_seq (h : execBatch stmts db = some db') : db.itemSyncChanges.seq ≤ db'.itemSyncChanges.seq :=
  execAll_rel SyncStmt.exec (R := fun s s' => s.itemSyncChanges.seq ≤ s'.itemSyncChanges.seq)
    (fun _ => Nat.le_refl _) (fun _ _ _ h12 h23 => Nat.le_trans h12 h23) (fun _ _ _ _ hq => exec_seq hq) h

theorem exec_itemRows_other {q : SyncStmt} (h : q.exec db = some db') (hid : q.item? ≠ some id) :
    db'.itemSyncChanges.itemRows u id = db.itemSyncChanges.itemRows u id := by
  rw [exec_feed h]
  cases hc : q.change? db.vaultItems.get? with
  | none => rfl
  | some p =>
    obtain ⟨w, i, n, c⟩ := p
    obtain ⟨hq, hc'⟩ := change_item hc
    have hi : c.itemId ≠ id := fun he => hid (by rw [hq, ← hc', he])
    unfold ItemSyncChanges.itemRows ItemSyncChanges.append
    rw [List.filter_append]
    simp [hi]

theorem batch_itemRows_other (h : execBatch stmts db = some db') (hid : ∀ q ∈ stmts, q.item? ≠ some id) :
    db'.itemSyncChanges.itemRows u id = db.itemSyncChanges.itemRows u id :=
  execAll_rel SyncStmt.exec (R := fun s s' => s'.itemSyncChanges.itemRows u id = s.itemSyncChanges.itemRows u id)
    (fun _ => rfl) (fun _ _ _ h12 h23 => h23.trans h12) (fun q hq _ _ hx => exec_itemRows_other hx (hid q hq)) h

/-- A batch is the writes of an applied mutation, among statements that do not
concern its item. -/
theorem batchStmts_split (hst : LoopResult env view ops st) (hids : (ops.map (·.id)).Nodup) (hop : op ∈ ops)
    (ha : Applies view op) : ∃ pre post, st.batchStmts view = pre ++ (applyStmts env view op ++ post) ∧
      (∀ q ∈ pre, q.item? ≠ some op.id) ∧ ∀ q ∈ post, q.item? ≠ some op.id := by
  have hw : st.hasStateWrite = true := by
    rw [hst.write, List.any_eq_true]
    exact ⟨op, hop, contribution_write ha⟩
  have hreceipts : ∀ q ∈ st.receiptStmts view, q.item? ≠ some op.id := by
    intro q hq
    obtain ⟨r, -, rfl⟩ := List.mem_map.mp hq
    exact nofun
  obtain ⟨l₁, l₂, rfl⟩ := List.append_of_mem hop
  rw [List.map_append, List.map_cons, List.nodup_append, List.nodup_cons] at hids
  obtain ⟨-, ⟨hpost, -⟩, hpre⟩ := hids
  have hother : ∀ ops' : List Operation, (∀ o ∈ ops', o.id ≠ op.id) →
      ∀ q ∈ ops'.flatMap fun o => (contribution env view o).stmts, q.item? ≠ some op.id := by
    intro ops' hne q hq
    obtain ⟨o, ho, hq⟩ := List.mem_flatMap.mp hq
    rcases applyStmts_item (contribution_stmts hq).2 with he | he
    · rw [he]
      exact fun hid => hne o ho (Option.some.inj hid)
    · rw [he]
      exact nofun
  have h1 := hother l₁ fun o ho => hpre o.id (List.mem_map_of_mem ho) op.id List.mem_cons_self
  have h2 := hother l₂ fun o ho he => hpost (he ▸ List.mem_map_of_mem ho)
  -- the statements of the other operations concern other items
  refine ⟨.claimRevision view.userId view.nextRevision :: l₁.flatMap fun o => (contribution env view o).stmts,
    (l₂.flatMap fun o => (contribution env view o).stmts) ++ st.receiptStmts view ++
      [.setServerRevision view.userId view.nextRevision], ?_, ?_, ?_⟩
  · unfold PushState.batchStmts
    rw [if_pos hw, hst.stmts, List.flatMap_append, List.flatMap_cons, contribution_applies ha]
    simp
  · intro q hq
    rcases List.mem_cons.mp hq with rfl | hq
    · exact nofun
    · exact h1 q hq
  · intro q hq
    rcases List.mem_append.mp hq with hq | hq
    · rcases List.mem_append.mp hq with hq | hq
      · exact h2 q hq
      · exact hreceipts q hq
    · rw [List.mem_singleton.mp hq]
      exact nofun

theorem applyStmts_feed (ha : Applies view op) (h : execBatch (applyStmts env view op) db = some db') :
    db'.itemSyncChanges =
      db.itemSyncChanges.append view.userId op.id view.nextRevision (appliedChange env view op) := by
  cases op with
  | upsert item =>
    obtain ⟨s, h1, h⟩ := (execAll_cons SyncStmt.exec).mp h
    obtain ⟨t, h2, h⟩ := (execAll_cons SyncStmt.exec).mp h
    obtain ⟨r, h3, h⟩ := (execAll_cons SyncStmt.exec).mp h
    cases h
    rw [exec_feed h3, ← (show s.itemSyncChanges = db.itemSyncChanges from exec_feed h1),
      ← (show t.itemSyncChanges = s.itemSyncChanges from exec_feed h2)]
    rfl
  | delete item =>
    obtain ⟨row, hrow⟩ := (applies_found ha).2.2 rfl
    have hrow : view.itemRowsById item.id = some row := hrow
    have hstmts : applyStmts env view (.delete item) =
        [.markDeletedAtBase view.userId item.id view.nextRevision (env.now item.clientMutationId) item.baseItemRevision,
          .insertDeleteChange view.userId item.id view.nextRevision (env.now item.clientMutationId)] := by
      simp [applyStmts, hrow]
    rw [hstmts] at h
    obtain ⟨s, h1, h⟩ := (execAll_cons SyncStmt.exec).mp h
    obtain ⟨t, h2, h⟩ := (execAll_cons SyncStmt.exec).mp h
    cases h
    rw [exec_feed h2, ← (show s.itemSyncChanges = db.itemSyncChanges from exec_feed h1)]
    rfl

end

section
variable {env : Env} {u : UserId} {plan : ItemLevelSyncPlan} {st : PushState} {db db' : Db}
variable {result : ItemLevelSyncPushResult} {op : Operation} {id : ItemId}
variable (h : PushRun env u plan st db db' result)
include h

theorem PushRun.feed (hids : (plan.operations.map (·.id)).Nodup) (hop : op ∈ plan.operations)
    (ha : Applies (pushViewAt u plan db db db) op) :
    ∃ c, db.itemSyncChanges.seq < c ∧ c ≤ db'.itemSyncChanges.seq ∧
      db'.itemSyncChanges.itemRows u op.id = db.itemSyncChanges.itemRows u op.id ++
        [⟨c, u, op.id, db.serverRevision u + 1, appliedChange env (pushViewAt u plan db db db) op⟩] := by
  obtain ⟨pre, post, hsplit, hpre, hpost⟩ := batchStmts_split h.loop hids hop ha
  have hx := h.batch
  rw [hsplit] at hx
  obtain ⟨s, h1, hx⟩ := (execAll_append SyncStmt.exec).mp hx
  obtain ⟨t, h2, h3⟩ := (execAll_append SyncStmt.exec).mp hx
  have hfeed := applyStmts_feed ha h2
  refine ⟨s.itemSyncChanges.seq + 1, Nat.lt_succ_of_le (batch_seq h1), ?_, ?_⟩
  · have h3 := batch_seq h3
    rw [hfeed] at h3
    exact h3
  · rw [batch_itemRows_other h3 hpost, hfeed, ← batch_itemRows_other h1 hpre]
    unfold ItemSyncChanges.itemRows ItemSyncChanges.append
    rw [List.filter_append]
    simp [appliedChange_itemId, pushViewAt, PushView.nextRevision]

theorem PushRun.feed_other (hid : ∀ op ∈ plan.operations, Applies (pushViewAt u plan db db db) op → op.id ≠ id)
    (w : UserId) : db'.itemSyncChanges.itemRows w id = db.itemSyncChanges.itemRows w id := by
  refine batch_itemRows_other h.batch fun q hq => ?_
  rcases batchStmts_cases h.loop hq with ⟨-, rfl | rfl⟩ | ⟨op, hop, ha, hq⟩ | ⟨op, -, r, -, rfl⟩
  · exact nofun
  · exact nofun
  · rcases applyStmts_item hq with he | he
    · rw [he]
      exact fun he => hid op hop ha (Option.some.inj he)
    · rw [he]
      exact nofun
  · exact nofun

end

/-! ## The row of an item -/

section
variable {env : Env} {u : UserId} {plan : ItemLevelSyncPlan} {st : PushState} {db db' : Db}
variable {result : ItemLevelSyncPushResult} {id : ItemId}
variable (h : PushRun env u plan st db db' result)
include h

theorem PushRun.row_upsert (hids : (plan.operations.map (·.id)).Nodup) {item : ItemLevelEncryptedUpsert}
    (hop : .upsert item ∈ plan.operations) (ha : Applies (pushViewAt u plan db db db) (.upsert item)) :
    db'.vaultItems.get? item.id = some (writeItem u (nextItem (pushViewAt u plan db db db) item)
      (nextItem (pushViewAt u plan db db db) item).createdAt) := by
  have hv := push_view h.loop hids hop ha h.batch u
  have hrow : (pushViewAt u plan db db db).itemRowsById item.id = db.vaultItems.get? item.id := pushView_row hop
  have hfree : Free u (db.vaultItems.get? item.id) := by
    intro row hr
    rw [← hrow] at hr
    exact (applies_found ha).2.1 row hr
  have hfold := @upsert_onItem_free env _ (db.itemView u item.id) item hrow hfree
  exact (congrArg ItemView.row hv).trans (congrArg ItemView.row hfold)

theorem PushRun.row_delete (hids : (plan.operations.map (·.id)).Nodup) {item : ItemLevelEncryptedDelete}
    (hop : .delete item ∈ plan.operations) (ha : Applies (pushViewAt u plan db db db) (.delete item)) :
    ∃ row, db.vaultItems.get? item.id = some row ∧ db'.vaultItems.get? item.id =
      some (row.markDeleted (db.serverRevision u + 1) (env.now item.clientMutationId)) := by
  have hv := push_view h.loop hids hop ha h.batch u
  have hrow : (pushViewAt u plan db db db).itemRowsById item.id = db.vaultItems.get? item.id := pushView_row hop
  obtain ⟨hbase, hown, hex⟩ := applies_found ha
  obtain ⟨row, hr⟩ := hex rfl
  have hr : (pushViewAt u plan db db db).itemRowsById item.id = some row := hr
  have hrev : row.revision = item.baseItemRevision := by
    have hbase : item.baseItemRevision =
      (((pushViewAt u plan db db db).itemRowsById item.id).map (·.revision)).getD 0 := hbase
    rw [hbase, hr]
    rfl
  have hdb : db.vaultItems.get? item.id = some row := hrow.symm.trans hr
  refine ⟨row, hdb, ?_⟩
  have hfold := @delete_onItem env _ (db.itemView u item.id) item row hr hdb (hown row hr) hrev
  exact (congrArg ItemView.row hv).trans (congrArg ItemView.row hfold)

theorem PushRun.row_other (hid : ∀ op ∈ plan.operations, Applies (pushViewAt u plan db db db) op → op.id ≠ id) :
    db'.vaultItems.get? id = db.vaultItems.get? id :=
  congrArg ItemView.row (push_view_other h.loop hid h.batch u)

end

/-! ## Requests of others -/

def SyncCall.mutationIds : SyncCall → List MutationId
  | pushVault .. => []
  | pushItemLevelSync _ _ plan => plan.mutationIds

structure Untouched (u : UserId) (id : ItemId) (named : List MutationId) (db db' : Db) : Prop where
  row : db'.vaultItems.get? id = db.vaultItems.get? id
  feed : db'.itemSyncChanges.itemRows u id = db.itemSyncChanges.itemRows u id
  revision : db.serverRevision u ≤ db'.serverRevision u
  receipts : ∀ m, m ∉ named → db'.itemSyncMutations.get? (u, m) = db.itemSyncMutations.get? (u, m)

theorem Untouched.refl (u : UserId) (id : ItemId) (named : List MutationId) (db : Db) : Untouched u id named db db :=
  ⟨rfl, rfl, Nat.le_refl _, fun _ _ => rfl⟩

section
variable {env : Env} {u w : UserId} {db : Db} {id : ItemId}

theorem checkOwners_run (items : List VaultItemCiphertext) : ((checkOwners w items).run db).1 = db := by
  induction items with
  | nil => rfl
  | cons item items ih =>
    unfold checkOwners
    split
    · rfl
    · rw [Prog.query_bind, Prog.run_act]
      dsimp only
      split
      · rfl
      · exact ih

variable (env w db) in
theorem pushVault_run (request : SyncPushRequest) :
    ((pushVault env w request).run db).1 = db ∨
      ∃ db', execBatch (pushVaultStmts env w (db.serverRevision w + 1) request) db = some db' ∧
        db.users.contains w = true ∧ ((pushVault env w request).run db).1 = db' := by
  unfold pushVault
  rw [Prog.query_bind, Prog.run_act]
  dsimp only
  cases hu : findUserById w db with
  | none => exact .inl rfl
  | some user =>
    have hc : db.users.contains w = true := Table.contains_eq_true.mpr ⟨user, hu⟩
    have hr : user.serverRevision = db.serverRevision w := by
      unfold findUserById at hu
      unfold Db.serverRevision
      rw [hu]; rfl
    dsimp only
    rw [hr, Prog.run_bind, checkOwners_run]
    split
    · exact .inl rfl
    split
    · exact .inl rfl
    unfold syncBatch batch
    rw [Prog.access_bind, Prog.run_act]
    cases hx : execAll SyncStmt.exec (pushVaultStmts env w (db.serverRevision w + 1) request) db with
    | some db' => exact .inr ⟨db', hx, hc, rfl⟩
    | none =>
      refine .inl ?_
      simp only [Bool.false_eq_true, if_false]
      rw [Prog.query_bind, Prog.run_act]
      dsimp only
      split
      · split
        · rfl
        · rfl
      · rfl

theorem pushVaultStmts_item {n : Nat} {request : SyncPushRequest} {q : SyncStmt}
    (h : q ∈ pushVaultStmts env w n request) (hid : id ∉ request.upserts.map (·.id) ++ request.deletes) :
    q.item? ≠ some id := by
  rw [List.mem_append, not_or] at hid
  unfold pushVaultStmts at h
  rcases List.mem_cons.mp h with rfl | h
  · exact nofun
  rcases List.mem_cons.mp h with rfl | h
  · exact nofun
  rcases List.mem_append.mp h with h | h
  · obtain ⟨⟨item, i⟩, hp, hq⟩ := List.mem_flatMap.mp h
    have hne : item.id ≠ id := fun he => hid.1 (he ▸ List.mem_map_of_mem (List.mem_zipIdx_iff_getElem?.mp hp |> List.mem_of_getElem?))
    simp only [legacyUpsertStmts, List.mem_cons, List.not_mem_nil, or_false] at hq
    rcases hq with rfl | rfl | rfl <;> simp [SyncStmt.item?, hne]
  · obtain ⟨i, hi, hq⟩ := List.mem_flatMap.mp h
    have hne : i ≠ id := fun he => hid.2 (he ▸ hi)
    simp only [legacyDeleteStmts, List.mem_cons, List.not_mem_nil, or_false] at hq
    rcases hq with rfl | rfl <;> simp [SyncStmt.item?, hne]

theorem batch_untouched {stmts : List SyncStmt} {named : List MutationId} {db' : Db}
    (hx : execBatch stmts db = some db') (hid : ∀ q ∈ stmts, q.item? ≠ some id)
    (hrev : db.serverRevision u ≤ db'.serverRevision u)
    (hm : ∀ m row, .insertMutation u m row ∈ stmts → m ∈ named) : Untouched u id named db db' where
  row := by
    have hv : db'.itemView u id = db.itemView u id := (batch_onItem hx).trans (foldl_onItem_other hid)
    exact congrArg ItemView.row hv
  feed := batch_itemRows_other hx hid
  revision := hrev
  receipts := by
    intro m hmem
    cases hrow : db.itemSyncMutations.get? (u, m) with
    | some row => exact batch_receipts hx _ row hrow
    | none =>
      cases hrow' : db'.itemSyncMutations.get? (u, m) with
      | none => rfl
      | some row =>
        rcases batch_receipt_from hx hrow' with h0 | hins
        · rw [hrow] at h0
          cases h0
        · exact absurd (hm m row hins) hmem

theorem pushVault_untouched (request : SyncPushRequest)
    (hid : id ∉ request.upserts.map (·.id) ++ request.deletes) :
    Untouched u id [] db ((pushVault env w request).run db).1 := by
  rcases pushVault_run env w db request with he | ⟨db', hx, hu, he⟩
  · rw [he]
    exact .refl u id [] db
  · rw [he]
    have hw := pushVaultStmts_stateWrite (u := w) (n := db.serverRevision w + 1) env request
    refine batch_untouched hx (fun q hq => pushVaultStmts_item hq hid) ?_ fun m row hm => ?_
    · by_cases hwu : w = u
      · subst hwu
        exact (hw.rely hu hx).2.revision
      · exact Nat.le_of_eq (batch_serverRevision_eq hx fun r hr => hwu (hw.userId _ hr).symm).symm
    · rcases pushVaultStmts_cases hm with hq | hq | hq
      · cases hq
      · cases hq
      · exact absurd rfl (hq.2.2.2 u m row)

theorem pushItem_untouched (env : Nat → Env) (plan : ItemLevelSyncPlan) (hid : id ∉ plan.operations.map (·.id)) :
    Untouched u id plan.mutationIds db ((pushItemLevelSync env w plan).run db).1 := by
  rcases pushItemLevelSync_run env w plan db with ⟨e, he⟩ | ⟨n, st, db', result, h, he⟩
  · rw [he]
    exact .refl u id _ db
  · rw [he]
    have hne : ∀ op ∈ plan.operations, op.id ≠ id := fun op hop he => hid (he ▸ List.mem_map_of_mem hop)
    refine batch_untouched h.batch (fun q hq => ?_) ?_ fun m row hm => ?_
    · rcases batchStmts_cases h.loop hq with ⟨-, rfl | rfl⟩ | ⟨op, hop, -, hq⟩ | ⟨op, -, r, -, rfl⟩
      · exact nofun
      · exact nofun
      · rcases applyStmts_item hq with he | he
        · rw [he]
          exact fun he => hne op hop (Option.some.inj he)
        · rw [he]
          exact nofun
      · exact nofun
    · by_cases hwu : w = u
      · subst hwu
        rw [h.revision.1]
        exact h.revision.2
      · refine Nat.le_of_eq (batch_serverRevision_eq h.batch fun r hr => hwu ?_).symm
        exact (batchStmts_setServerRevision h.loop hr).2.1.symm
    · obtain ⟨-, op, hop, rfl, -⟩ := batchStmts_insertMutation h.loop hm
      rw [← operations_mutationIds]
      exact List.mem_map_of_mem hop

end

theorem SyncCall.untouched (c : SyncCall) {id : ItemId} (hid : id ∉ c.itemIds) (u : UserId) (db : Db) :
    Untouched u id c.mutationIds db (c.code.run db).1 := by
  cases c with
  | pushVault env w request =>
    have hrun : ((SyncCall.pushVault env w request).code.run db).1 = ((ZeroVault.pushVault env w request).run db).1 := by
      simp only [SyncCall.code, Prog.run_bind]
      rfl
    rw [hrun]
    exact pushVault_untouched request hid
  | pushItemLevelSync env w plan =>
    have hrun : ((SyncCall.pushItemLevelSync env w plan).code.run db).1 =
        ((ZeroVault.pushItemLevelSync env w plan).run db).1 := by
      simp only [SyncCall.code, Prog.run_bind]
      rfl
    rw [hrun]
    exact pushItem_untouched env plan hid

end ZeroVault

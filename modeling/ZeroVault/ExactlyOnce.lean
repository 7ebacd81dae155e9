import ZeroVault.NoLostUpdate

/-!
# Exactly-once mutations

The pushes of any users, interleaved access by access. A receipt is inserted
in the batch that applies its mutation, at most once, and never changes; so
every answer a push gives agrees with the receipts of the store.
-/

namespace ZeroVault

open Lib

/-! ## Statements committed along a history -/

abbrev SyncHistory := History SyncCall Db (Access SyncStmt)

def committedBy : Event SyncCall Db (Access SyncStmt) → List SyncStmt
  | .step _ _ ⟨.commit stmts, _, _⟩ => stmts
  | _ => []

def committed (h : SyncHistory) : List SyncStmt := h.flatMap committedBy

section
variable {F : Formats} {s₀ s : Db} {h : SyncHistory} {ps : List (Proc SyncCall Db (Access SyncStmt) SyncResult)}

theorem valid_sat (c : SyncCall) (_ : c.Valid F) : Sat c.guar c.post c.code [] := c.sat

theorem committed_exec (hr : Reach SyncCall.code (·.Valid F) s₀ h s ps) : execBatch (committed h) s₀ = some s := by
  induction hr with
  | start => rfl
  | issue c _ _ ih =>
    unfold committed at ih ⊢
    rw [List.flatMap_append]
    simpa [committedBy] using ih
  | @step h s ps i c f k hr hi ih =>
    unfold committed at ih ⊢
    rw [List.flatMap_append]
    refine (execAll_append SyncStmt.exec).mpr ⟨s, ih, ?_⟩
    rcases guar_step (reach_sat valid_sat hr i _ hi s).1 with ⟨stmts, hl, hx⟩ | ⟨hl, he⟩
    · have hl : (f s).1 = .commit stmts := hl
      simpa [committedBy, hl] using hx
    · have he : (f s).2 = s := he
      rw [he]
      cases hl' : (f s).1 with
      | commit stmts => exact absurd hl' (hl stmts)
      | query => rfl
      | abort stmts => rfl

/-- Receipts stay as they were inserted. -/
def KeepsReceipts (s s' : Db) : Prop :=
  ∀ k row, s.itemSyncMutations.get? k = some row → s'.itemSyncMutations.get? k = some row

theorem along_keepsReceipts (hr : Reach SyncCall.code (·.Valid F) s₀ h s ps) : Along KeepsReceipts s₀ h := by
  refine reach_rel valid_sat (fun _ _ _ hk => hk) (fun _ _ _ h12 h23 k row hk => h23 k row (h12 k row hk)) ?_ hr
  intro c tr e _ _ _ hg
  rcases guar_step hg with ⟨stmts, -, hx⟩ | ⟨-, he⟩
  · exact batch_receipts hx
  · rw [he]; exact fun _ _ hk => hk

end

/-! ## Answers -/

inductive Answer
  | receipt (receipt : AppliedMutationReceipt)
  | conflict (conflict : ItemLevelSyncConflict)
deriving DecidableEq, Repr

namespace Answer

def receipt? : Answer → Option AppliedMutationReceipt
  | receipt r => some r
  | conflict _ => none

def conflict? : Answer → Option ItemLevelSyncConflict
  | receipt _ => none
  | conflict c => some c

end Answer

def ReceiptResult.answer (m : MutationId) : ReceiptResult → Answer
  | .applied k id revision => .receipt ⟨m, id, k, revision⟩
  | .conflict c => .conflict c

/-- An answer to `op` that agrees with the receipt of its mutation id. -/
def Answered (row : ItemSyncMutationRow) (op : Operation) (answer : Answer) : Prop :=
  if row.requestFingerprint = op.requestFingerprint then answer = row.result.answer op.clientMutationId
  else ∃ c, answer = .conflict c ∧ c.reason = .mutationIdReused ∧ c.itemId = op.id ∧ c.operation = op.kind

def answer (view : PushView) (serverRevision : Nat) (op : Operation) : Answer :=
  match view.receiptsById op.clientMutationId with
  | some previous =>
    if previous.requestFingerprint ≠ op.requestFingerprint then .conflict (conflictFor view op .mutationIdReused)
    else previous.result.answer op.clientMutationId
  | none =>
    match freshConflict view op with
    | some c => .conflict { c with serverRevision := serverRevision }
    | none => .receipt ⟨op.clientMutationId, op.id, op.kind, serverRevision⟩

section
variable {env : Env} {view : PushView} {op : Operation} {n : Nat}

theorem answer_conflicts :
    (contribution env view op).conflicts.map (·.conflict n) = (answer view n op).conflict?.toList := by
  rcases operation_cases view op with ⟨previous, hp⟩ | ⟨hp, c, hc⟩ | ha
  · rw [contribution_replay hp]
    unfold answer replay
    rw [hp]
    dsimp only
    split
    · simp [ConflictEntry.conflict, Answer.conflict?]
    · cases hres : previous.result with
      | conflict c => simp [ConflictEntry.conflict, ReceiptResult.answer, Answer.conflict?]
      | applied k id r => cases k <;> simp [PushState.noteItem, ReceiptResult.answer, Answer.conflict?]
  · rw [contribution_conflict hp hc]
    simp [answer, hp, hc, ConflictEntry.conflict, Answer.conflict?]
  · rw [contribution_applies ha]
    cases hk : op.kind <;> simp [answer, ha.1, ha.2, PushState.noteItem, Answer.conflict?]

theorem answer_receipts :
    (contribution env view op).mutationReceipts ++
        (contribution env view op).pendingReceipts.filterMap (·.receipt? n) =
      (answer view n op).receipt?.toList := by
  rcases operation_cases view op with ⟨previous, hp⟩ | ⟨hp, c, hc⟩ | ha
  · rw [contribution_replay hp]
    unfold answer replay
    rw [hp]
    dsimp only
    split
    · simp [Answer.receipt?]
    · cases hres : previous.result with
      | conflict c => simp [ReceiptResult.answer, Answer.receipt?]
      | applied k id r => cases k <;> simp [PushState.noteItem, ReceiptResult.answer, Answer.receipt?]
  · rw [contribution_conflict hp hc]
    simp [answer, hp, hc, PendingReceipt.receipt?, Answer.receipt?]
  · rw [contribution_applies ha]
    cases hk : op.kind <;>
      simp [answer, ha.1, ha.2, hk, PushState.noteItem, PendingReceipt.receipt?, Answer.receipt?]

theorem flatMap_append_perm {α β : Type} (f g : α → List β) (l : List α) :
    (l.flatMap f ++ l.flatMap g).Perm (l.flatMap fun a => f a ++ g a) := by
  induction l with
  | nil => exact .refl _
  | cons a l ih =>
    simp only [List.flatMap_cons]
    calc (f a ++ l.flatMap f) ++ (g a ++ l.flatMap g)
        _ = f a ++ (l.flatMap f ++ g a) ++ l.flatMap g := by simp
        _ |>.Perm (f a ++ (g a ++ l.flatMap f) ++ l.flatMap g) :=
          (List.perm_append_comm.append_left _).append_right _
        _ = (f a ++ g a) ++ (l.flatMap f ++ l.flatMap g) := by simp
        _ |>.Perm _ := ih.append_left _

theorem flatMap_toList {α β : Type} (f : α → Option β) (l : List α) :
    (l.flatMap fun a => (f a).toList) = l.filterMap f := by
  induction l with
  | nil => rfl
  | cons a l ih => rw [List.flatMap_cons, List.filterMap_cons, ih]; cases f a <;> rfl

theorem pushResult_answers {ops : List Operation} {st : PushState} (hst : LoopResult env view ops st) :
    (st.pushResult view).conflicts = (ops.map (answer view (st.serverRevision view))).filterMap Answer.conflict? ∧
      (st.pushResult view).applied.mutationReceipts.Perm
        ((ops.map (answer view (st.serverRevision view))).filterMap Answer.receipt?) := by
  constructor
  · rw [List.filterMap_map, ← flatMap_toList]
    simp only [PushState.pushResult, hst.conflicts, List.map_flatMap, answer_conflicts, Function.comp]
  · rw [List.filterMap_map, ← flatMap_toList]
    simp only [PushState.pushResult, hst.receipts, hst.pending, List.filterMap_flatMap]
    refine (flatMap_append_perm _ _ ops).trans ?_
    simp only [answer_receipts, Function.comp]
    exact .refl _

theorem answered_replay {previous : ItemSyncMutationRow}
    (hp : view.receiptsById op.clientMutationId = some previous) : Answered previous op (answer view n op) := by
  unfold Answered answer
  rw [hp]
  by_cases hfp : previous.requestFingerprint = op.requestFingerprint
  · simp [hfp]
  · simp [hfp, conflictFor]

theorem answered_new {ops : List Operation} {st : PushState} (hst : LoopResult env view ops st) (hop : op ∈ ops)
    (hp : view.receiptsById op.clientMutationId = none) :
    ∃ row, .insertMutation view.userId op.clientMutationId row ∈ st.batchStmts view ∧
      Answered row op (answer view (st.serverRevision view) op) := by
  have hmem : ∀ r ∈ (contribution env view op).pendingReceipts,
      SyncStmt.insertMutation view.userId r.mutationId
        ⟨r.requestFingerprint, r.result.result (st.serverRevision view)⟩ ∈ st.batchStmts view := by
    intro r hr
    refine batchStmts_receipts (List.mem_map_of_mem (f := fun r : PendingReceipt =>
      SyncStmt.insertMutation view.userId r.mutationId
        ⟨r.requestFingerprint, r.result.result (st.serverRevision view)⟩) ?_)
    rw [hst.pending, List.mem_flatMap]
    exact ⟨op, hop, hr⟩
  rcases operation_cases view op with ⟨previous, hp'⟩ | ⟨-, c, hc⟩ | ha
  · rw [hp] at hp'; cases hp'
  · rw [contribution_conflict hp hc] at hmem
    refine ⟨_, hmem _ (List.mem_singleton_self _), ?_⟩
    simp [Answered, answer, hp, hc, PendingResult.result, ReceiptResult.answer]
  · rw [contribution_applies ha] at hmem
    refine ⟨_, hmem _ (List.mem_singleton_self _), ?_⟩
    simp [Answered, answer, ha.1, ha.2, PendingResult.result, ReceiptResult.answer]

end

/-! ## What a batch writes -/

/-- Does the batch insert the receipt of `op`, applied at revision `n`? -/
def appliedIn (stmts : List SyncStmt) (u : UserId) (n : Nat) (op : Operation) : Bool :=
  decide (.insertMutation u op.clientMutationId ⟨op.requestFingerprint, .applied op.kind op.id n⟩ ∈ stmts)

section
variable {env : Env} {view : PushView} {op : Operation}

instance : Decidable (Applies view op) := inferInstanceAs (Decidable (_ ∧ _))

theorem contribution_writes :
    (contribution env view op).stmts.filterMap SyncStmt.write? =
      if Applies view op then [(op.id, view.nextRevision)] else [] := by
  rcases operation_cases view op with ⟨previous, hp⟩ | ⟨hp, c, hc⟩ | ha
  · have hna : ¬ Applies view op := fun h => by have := h.1; rw [hp] at this; cases this
    rw [contribution_replay hp, (replay_lists previous).1, if_neg hna]; rfl
  · have hna : ¬ Applies view op := fun h => by have := h.2; rw [hc] at this; cases this
    rw [contribution_conflict hp hc, if_neg hna]; rfl
  · rw [contribution_applies ha, if_pos ha]
    cases op with
    | upsert item => rfl
    | delete item =>
      obtain ⟨row, hrow⟩ := (applies_found ha).2.2 rfl
      have hrow : view.itemRowsById item.id = some row := hrow
      simp [applyStmts, hrow, SyncStmt.write?, Operation.id]

variable {ops : List Operation} {st : PushState} (hst : LoopResult env view ops st)

theorem batchStmts_filterMap :
    (st.batchStmts view).filterMap SyncStmt.write? = st.stmts.filterMap SyncStmt.write? := by
  have hr : (st.receiptStmts view).filterMap SyncStmt.write? = [] := by
    rw [List.filterMap_eq_nil_iff]
    intro q hq
    obtain ⟨r, -, rfl⟩ := List.mem_map.mp hq
    rfl
  unfold PushState.batchStmts
  split <;> simp [List.filterMap_cons, SyncStmt.write?, hr]

include hst

theorem appliedIn_iff (hn : (ops.map (·.clientMutationId)).Nodup) (hop : op ∈ ops) :
    appliedIn (st.batchStmts view) view.userId view.nextRevision op = true ↔ Applies view op := by
  unfold appliedIn
  rw [decide_eq_true_iff]
  constructor
  · intro hm
    obtain ⟨-, op', hop', hid, -, -, ⟨c, -, hc⟩ | ⟨ha, -⟩⟩ := batchStmts_insertMutation hst hm
    · cases hc
    · rwa [List.inj_on_of_nodup_map hn hop hop' hid]
  · intro ha
    have hw : st.hasStateWrite = true := by
      rw [hst.write, List.any_eq_true]
      exact ⟨op, hop, contribution_write ha⟩
    refine batchStmts_receipts (List.mem_map.mpr
      ⟨⟨op.clientMutationId, op.requestFingerprint, .applied op.kind op.id⟩, ?_, ?_⟩)
    · rw [hst.pending, List.mem_flatMap]
      exact ⟨op, hop, by rw [contribution_applies ha]; exact List.mem_singleton_self _⟩
    · simp [PendingResult.result, PushState.serverRevision, hw]

/-- The item writes of a batch are, in order and once each, those of the
mutations whose receipts it inserts as applied. -/
theorem batchStmts_write_list (hn : (ops.map (·.clientMutationId)).Nodup) :
    (st.batchStmts view).filterMap SyncStmt.write? =
      (ops.filter (appliedIn (st.batchStmts view) view.userId view.nextRevision)).map
        fun op => (op.id, view.nextRevision) := by
  rw [batchStmts_filterMap, hst.stmts, List.filterMap_flatMap]
  simp only [contribution_writes]
  rw [List.filter_congr (q := fun op => decide (Applies view op))]
  · clear hst hn
    induction ops with
    | nil => rfl
    | cons op ops ih =>
      rw [List.flatMap_cons, ih, List.filter_cons]
      by_cases ha : Applies view op <;> simp [ha]
  · intro op hop
    rw [Bool.eq_iff_iff, appliedIn_iff hst hn hop, decide_eq_true_iff]

end

section
variable {F : Formats} {plan : ItemLevelSyncPlan}

theorem operations_mutationIds : plan.operations.map (·.clientMutationId) = plan.mutationIds := by
  unfold ItemLevelSyncPlan.operations ItemLevelSyncPlan.mutationIds
  rw [List.map_append, List.map_map, List.map_map]; rfl

theorem operations_itemIds : plan.operations.map (·.id) = plan.itemIds := by
  unfold ItemLevelSyncPlan.operations ItemLevelSyncPlan.itemIds
  rw [List.map_append, List.map_map, List.map_map]; rfl

theorem schema_nodup (h : itemLevelSyncPlanSchema F plan = true) :
    (plan.operations.map (·.id)).Nodup ∧ (plan.operations.map (·.clientMutationId)).Nodup := by
  unfold itemLevelSyncPlanSchema at h
  simp only [Bool.and_eq_true, decide_eq_true_eq] at h
  rw [operations_itemIds, operations_mutationIds]
  exact ⟨h.1.2, h.2⟩

end

/-! ## Runs -/

section
variable {F : Formats} {s₀ s : Db} {h : SyncHistory} {ps : List (Proc SyncCall Db (Access SyncStmt) SyncResult)}
variable {env : Nat → Env} {u : UserId} {plan : ItemLevelSyncPlan} {i : Nat}

/-- The items a committed push writes are those of the mutations it records,
and none of a mutation that was recorded before. -/
theorem commit_writes {tr : List SyncStep} {stmts : List SyncStmt} {b a : Db}
    (hv : itemLevelSyncPlanSchema F plan = true) (hg : PushItemGuar env u plan tr ⟨.commit stmts, b, a⟩) :
    ∃ n, stmts.filterMap SyncStmt.write? =
        (plan.operations.filter (appliedIn stmts u n)).map (fun op => (op.id, n)) ∧
      ∀ op ∈ plan.operations, b.itemSyncMutations.contains (u, op.clientMutationId) = true →
        ∀ r, (op.id, r) ∉ stmts.filterMap SyncStmt.write? := by
  obtain ⟨hx, old, s₁, s₂, s₃, st, -, ⟨-, k, hst⟩, rfl⟩ := hg
  obtain ⟨hids, hms⟩ := schema_nodup hv
  have hl := batchStmts_write_list hst hms
  refine ⟨_, hl, fun op hop hrec r hmem => ?_⟩
  rw [hl] at hmem
  obtain ⟨op', hop', he⟩ := List.mem_map.mp hmem
  obtain ⟨hop', happ⟩ := List.mem_filter.mp hop'
  have : op' = op := List.inj_on_of_nodup_map hids hop' hop (Prod.mk.inj he).1
  subst this
  obtain ⟨row, hrow⟩ := Table.contains_eq_true.mp hrec
  have hnone := (batch_insertMutation hx (decide_eq_true_iff.mp happ)).1
  have hrow : b.itemSyncMutations.get? ((pushViewAt u plan s₁ s₂ s₃).userId, op'.clientMutationId) = some row := hrow
  rw [hnone] at hrow; cases hrow

/-- A push whose ids all have receipts prepares an empty batch. -/
theorem replayed_batch {view : PushView} {st : PushState} {ops : List Operation} {env : Env}
    (hst : LoopResult env view ops st)
    (hall : ∀ op ∈ ops, ∃ previous, view.receiptsById op.clientMutationId = some previous) :
    st.batchStmts view = [] := by
  have hlists : ∀ op ∈ ops, (contribution env view op).stmts = [] ∧
      (contribution env view op).pendingReceipts = [] ∧ (contribution env view op).hasStateWrite = false := by
    intro op hop
    obtain ⟨previous, hp⟩ := hall op hop
    rw [contribution_replay hp]
    exact replay_lists previous
  have hs : st.stmts = [] := by
    rw [hst.stmts, List.flatMap_eq_nil_iff]
    exact fun op hop => (hlists op hop).1
  have hp : st.pendingReceipts = [] := by
    rw [hst.pending, List.flatMap_eq_nil_iff]
    exact fun op hop => (hlists op hop).2.1
  have hw : st.hasStateWrite = false := by
    rw [hst.write, List.any_eq_false]
    exact fun op hop => by rw [(hlists op hop).2.2]; exact Bool.false_ne_true
  simp [PushState.batchStmts, PushState.receiptStmts, hs, hp, hw]

theorem replayed_step {tr : List SyncStep} {e : SyncStep} {s₁ : Db} (hg : PushItemGuar env u plan tr e)
    (hrec : ∀ op ∈ plan.operations, s₁.itemSyncMutations.contains (u, op.clientMutationId) = true)
    (hkeep : ∀ d ∈ tr, KeepsReceipts s₁ d.before) : e.after = e.before := by
  obtain ⟨label, b, a⟩ := e
  cases label with
  | query => exact hg
  | abort stmts => exact hg
  | commit stmts =>
    obtain ⟨hx, old, t₁, t₂, t₃, st, rfl, ⟨-, k, hst⟩, rfl⟩ := hg
    have hempty : st.batchStmts (pushViewAt u plan t₁ t₂ t₃) = [] := by
      refine replayed_batch hst fun op hop => ?_
      obtain ⟨row, hrow⟩ := Table.contains_eq_true.mp (hrec op hop)
      have hmem : op.clientMutationId ∈ plan.operations.map (·.clientMutationId) := List.mem_map_of_mem hop
      refine ⟨row, ?_⟩
      simp only [pushViewAt, selectReceipts, if_pos hmem]
      exact hkeep (queryStep t₃) (by simp) _ _ hrow
    rw [hempty] at hx
    exact (Option.some.inj hx).symm

theorem answers_recorded {result : ItemLevelSyncPushResult}
    (hr : Reach SyncCall.code (·.Valid F) s₀ h s ps)
    (hp : ps[i]? = some ⟨.pushItemLevelSync env u plan, .ret (.pushItemLevelSync (.ok result))⟩) :
    ∃ answers, List.Forall₂ (fun op ans =>
        ∃ row, s.itemSyncMutations.get? (u, op.clientMutationId) = some row ∧ Answered row op ans)
        plan.operations answers ∧
      result.conflicts = answers.filterMap Answer.conflict? ∧
      result.applied.mutationReceipts.Perm (answers.filterMap Answer.receipt?) := by
  obtain ⟨old, s₁, s₂, s₃, st, ⟨-, k, hst⟩, rfl, htr⟩ := reach_result valid_sat hr hp
  have hbefore : Before KeepsReceipts (own i h) s := (along_keepsReceipts hr).before hr i
  obtain ⟨hconf, hrec⟩ := pushResult_answers hst
  refine ⟨_, ?_, hconf, hrec⟩
  rw [List.forall₂_map_right_iff, List.forall₂_same]
  intro op hop
  have hmem : op.clientMutationId ∈ plan.operations.map (·.clientMutationId) := List.mem_map_of_mem hop
  have hview : (pushViewAt u plan s₁ s₂ s₃).receiptsById op.clientMutationId =
      s₃.itemSyncMutations.get? (u, op.clientMutationId) := by
    simp only [pushViewAt, selectReceipts, if_pos hmem]
  rcases htr with hops | ⟨hnil, htr⟩ | ⟨b, a, htr⟩
  · rw [hops] at hop; cases hop
  all_goals
    have h3 : KeepsReceipts s₃ s := hbefore.now (queryStep s₃) (by rw [htr]; simp)
    cases hv : (pushViewAt u plan s₁ s₂ s₃).receiptsById op.clientMutationId with
    | some previous => exact ⟨previous, h3 _ _ (hview ▸ hv), answered_replay hv⟩
    | none => ?_
  · obtain ⟨row, hm, -⟩ := answered_new hst hop hv
    rw [hnil] at hm; cases hm
  · obtain ⟨row, hm, hans⟩ := answered_new hst hop hv
    have he : (⟨.commit (st.batchStmts (pushViewAt u plan s₁ s₂ s₃)), b, a⟩ : SyncStep) ∈ own i h := by
      rw [htr]; simp
    obtain ⟨c, hc⟩ := mem_own.mp he
    obtain ⟨h₁, h₂, rfl⟩ := List.append_of_mem hc
    obtain ⟨-, -, hg⟩ := reach_step valid_sat hr
    rcases guar_step hg with ⟨stmts, hl, hx⟩ | ⟨hl, -⟩
    · cases hl
      exact ⟨row, hbefore.now _ he _ _ (batch_insertMutation hx hm).2, hans⟩
    · exact absurd rfl (hl _)

/-- Along every run: a receipt is inserted at most once and never changes; a
batch writes exactly the items of the mutations it records as applied, and none
of a mutation recorded before; an answered push answered each of its operations
by the receipt of its mutation id; and a push whose ids all had receipts when
it was issued changes nothing. -/
theorem exactly_once (hr : Reach SyncCall.code (·.Valid F) s₀ h s ps) :
    (∀ u m, (committed h).countP (·.records u m) ≤ 1) ∧
    (∀ h₁ h₂, h = h₁ ++ h₂ → ∀ k row, (storeAfter s₀ h₁).itemSyncMutations.get? k = some row →
      s.itemSyncMutations.get? k = some row) ∧
    (∀ i env u plan stmts b a, .step i (.pushItemLevelSync env u plan) ⟨.commit stmts, b, a⟩ ∈ h →
      ∃ n, stmts.filterMap SyncStmt.write? =
          (plan.operations.filter (appliedIn stmts u n)).map (fun op => (op.id, n)) ∧
        ∀ op ∈ plan.operations, b.itemSyncMutations.contains (u, op.clientMutationId) = true →
          ∀ r, (op.id, r) ∉ stmts.filterMap SyncStmt.write?) ∧
    (∀ (i : Nat) env u plan result,
      ps[i]? = some ⟨.pushItemLevelSync env u plan, .ret (.pushItemLevelSync (.ok result))⟩ →
      ∃ answers, List.Forall₂ (fun op ans =>
          ∃ row, s.itemSyncMutations.get? (u, op.clientMutationId) = some row ∧ Answered row op ans)
          plan.operations answers ∧
        result.conflicts = answers.filterMap Answer.conflict? ∧
        result.applied.mutationReceipts.Perm (answers.filterMap Answer.receipt?)) ∧
    (∀ h₁ h₂ i env u plan, h = h₁ ++ .issue i (.pushItemLevelSync env u plan) :: h₂ →
      (∀ op ∈ plan.operations,
        (storeAfter s₀ h₁).itemSyncMutations.contains (u, op.clientMutationId) = true) →
      ∀ c e, .step i c e ∈ h → e.after = e.before) := by
  refine ⟨fun u m => ?_, ?_, ?_, ?_, ?_⟩
  · have := batch_receipt_once (committed_exec hr) u m
    omega
  · rintro h₁ h₂ rfl k row hk
    have hlast := (along_keepsReceipts hr).last
    rw [reach_store hr] at hlast
    exact hlast k row hk
  · intro i env u plan stmts b a he
    obtain ⟨h₁, h₂, rfl⟩ := List.append_of_mem he
    obtain ⟨hv, -, hg⟩ := reach_step valid_sat hr
    exact commit_writes hv hg
  · exact fun i env u plan result hp => answers_recorded hr hp
  · rintro h₁ h₂ i env u plan rfl hrec c e he
    have hissued := (along_keepsReceipts hr).issued hr
    obtain rfl : c = .pushItemLevelSync env u plan := (reach_issued hr).2.2 c e he
    obtain ⟨h₃, h₄, hsplit⟩ := List.append_of_mem he
    have hr' := hr
    rw [hsplit] at hr'
    obtain ⟨-, -, hg⟩ := reach_step valid_sat hr'
    refine replayed_step hg hrec fun d hd => hissued d ?_
    rw [hsplit, own_append]
    exact List.mem_append_left _ hd

end

/-! ## A duplicate -/

/-- Two copies of one push read the same store; the second loses the claim,
tries again and is answered from the receipt. -/
def duplicatePush : Play SyncCall Db (Access SyncStmt) SyncResult :=
  play SyncCall.code sampleStore
    [.issue samplePush, .issue samplePush, .step 0, .step 1, .step 0, .step 1, .step 0, .step 1,
      .step 0, .step 1, .step 1, .step 1, .step 1, .step 1]

/-- `exactly_once` at a concurrent duplicate. -/
theorem exactly_once_duplicatePush :
    (committed duplicatePush.1).countP (·.records sampleUser sampleUpsert.clientMutationId) ≤ 1 ∧
      duplicatePush.2.1.itemSyncMutations.contains (sampleUser, sampleUpsert.clientMutationId) = true := by
  have hr : Reach SyncCall.code (·.Valid sampleFormats) sampleStore duplicatePush.1 duplicatePush.2.1
      duplicatePush.2.2 := play_reach fun c hc => by
    simp only [List.mem_cons, Move.issue.injEq, reduceCtorEq, List.not_mem_nil, or_false, or_self] at hc
    subst hc
    exact samplePush_valid
  exact ⟨(exactly_once hr).1 sampleUser sampleUpsert.clientMutationId, by decide⟩

end ZeroVault

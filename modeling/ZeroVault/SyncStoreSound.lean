import ZeroVault.SyncStmtSound

/-!
# What the push paths guarantee

Every batch a push commits is the function of its own earlier reads that the
code computes: `SyncCall.guar`. Nothing here depends on what others do between
those reads and the batch.
-/

namespace ZeroVault

open Lib

/-! ## The loop, one operation at a time -/

def PushState.append (a b : PushState) : PushState where
  conflicts := a.conflicts ++ b.conflicts
  upsertedItemIds := a.upsertedItemIds ++ b.upsertedItemIds
  deletedItemIds := a.deletedItemIds ++ b.deletedItemIds
  mutationReceipts := a.mutationReceipts ++ b.mutationReceipts
  stmts := a.stmts ++ b.stmts
  pendingReceipts := a.pendingReceipts ++ b.pendingReceipts
  hasStateWrite := a.hasStateWrite || b.hasStateWrite

def contribution (env : Env) (view : PushView) (op : Operation) : PushState :=
  match view.receiptsById op.clientMutationId with
  | some previous => replay view op previous {}
  | none =>
    match freshConflict view op with
    | some conflict =>
      { conflicts := [.pending conflict]
        pendingReceipts := [⟨op.clientMutationId, op.requestFingerprint, .conflict conflict⟩] }
    | none =>
      { ({} : PushState).noteItem op.kind op.id with
        stmts := applyStmts env view op
        hasStateWrite := !(applyStmts env view op).isEmpty
        pendingReceipts := [⟨op.clientMutationId, op.requestFingerprint, .applied op.kind op.id⟩] }

def Applies (view : PushView) (op : Operation) : Prop :=
  view.receiptsById op.clientMutationId = none ∧ freshConflict view op = none

section
variable {env : Env} {view : PushView} {op : Operation} {st st' : PushState}

theorem replay_append (previous : ItemSyncMutationRow) :
    replay view op previous st = st.append (replay view op previous {}) := by
  unfold replay
  split
  · simp [PushState.append]
  · cases previous.result with
    | conflict c => simp [PushState.append]
    | applied k id r => cases k <;> simp [PushState.noteItem, PushState.append]

theorem pushOperation_ok (h : pushOperation env view st op = .ok st') :
    op.ownerUserId = view.userId ∧ st' = st.append (contribution env view op) := by
  unfold pushOperation at h
  split at h
  · cases h
  · rename_i hu
    refine ⟨Decidable.of_not_not hu, ?_⟩
    unfold contribution
    cases hp : view.receiptsById op.clientMutationId with
    | some previous =>
      simp only [hp] at h ⊢
      cases h
      exact replay_append previous
    | none =>
      simp only [hp] at h ⊢
      cases hc : freshConflict view op with
      | some c =>
        simp only [hc] at h ⊢
        cases h
        simp [PushState.append]
      | none =>
        simp only [hc] at h ⊢
        cases h
        cases op.kind <;> simp [PushState.noteItem, PushState.append]

theorem foldl_append {β : Type} (f : PushState → List β) (hf : ∀ a b, f (a.append b) = f a ++ f b)
    (ops : List Operation) :
    f (ops.foldl (fun st op => st.append (contribution env view op)) st) =
      f st ++ ops.flatMap fun op => f (contribution env view op) := by
  induction ops generalizing st with
  | nil => simp
  | cons op ops ih => rw [List.foldl_cons, ih, hf, List.flatMap_cons, List.append_assoc]

structure LoopResult (env : Env) (view : PushView) (ops : List Operation) (st : PushState) : Prop where
  owner : ∀ op ∈ ops, op.ownerUserId = view.userId
  conflicts : st.conflicts = ops.flatMap fun op => (contribution env view op).conflicts
  upserted : st.upsertedItemIds = ops.flatMap fun op => (contribution env view op).upsertedItemIds
  deleted : st.deletedItemIds = ops.flatMap fun op => (contribution env view op).deletedItemIds
  receipts : st.mutationReceipts = ops.flatMap fun op => (contribution env view op).mutationReceipts
  stmts : st.stmts = ops.flatMap fun op => (contribution env view op).stmts
  pending : st.pendingReceipts = ops.flatMap fun op => (contribution env view op).pendingReceipts
  write : st.hasStateWrite = ops.any fun op => (contribution env view op).hasStateWrite

theorem pushLoop_foldl {ops : List Operation} (h : ops.foldlM (pushOperation env view) st = .ok st') :
    (∀ op ∈ ops, op.ownerUserId = view.userId) ∧
      st' = ops.foldl (fun st op => st.append (contribution env view op)) st := by
  induction ops generalizing st with
  | nil => cases h; exact ⟨fun op hop => absurd hop List.not_mem_nil, rfl⟩
  | cons op ops ih =>
    rw [List.foldlM_cons] at h
    cases hop : pushOperation env view st op with
    | error e => rw [hop] at h; cases h
    | ok st₁ =>
      rw [hop] at h
      obtain ⟨hu, rfl⟩ := pushOperation_ok hop
      obtain ⟨hus, rfl⟩ := ih h
      refine ⟨fun op' hop' => ?_, rfl⟩
      rcases List.mem_cons.mp hop' with rfl | hop'
      · exact hu
      · exact hus op' hop'

theorem foldl_write (ops : List Operation) :
    (ops.foldl (fun st op => st.append (contribution env view op)) st).hasStateWrite =
      (st.hasStateWrite || ops.any fun op => (contribution env view op).hasStateWrite) := by
  induction ops generalizing st with
  | nil => simp
  | cons op ops ih => rw [List.foldl_cons, ih, List.any_cons, PushState.append, Bool.or_assoc]

theorem pushLoop_ok {ops : List Operation} (h : pushLoop env view ops = .ok st) : LoopResult env view ops st := by
  obtain ⟨hu, rfl⟩ := pushLoop_foldl h
  exact {
    owner := hu
    conflicts := foldl_append _ (fun _ _ => rfl) ops
    upserted := foldl_append _ (fun _ _ => rfl) ops
    deleted := foldl_append _ (fun _ _ => rfl) ops
    receipts := foldl_append _ (fun _ _ => rfl) ops
    stmts := foldl_append _ (fun _ _ => rfl) ops
    pending := foldl_append _ (fun _ _ => rfl) ops
    write := foldl_write ops }

/-! ## What an operation contributes -/

theorem replay_lists (previous : ItemSyncMutationRow) :
    (replay view op previous {}).stmts = [] ∧ (replay view op previous {}).pendingReceipts = [] ∧
      (replay view op previous {}).hasStateWrite = false := by
  unfold replay
  split
  · exact ⟨rfl, rfl, rfl⟩
  · cases previous.result with
    | conflict c => exact ⟨rfl, rfl, rfl⟩
    | applied k id r => cases k <;> exact ⟨rfl, rfl, rfl⟩

theorem contribution_replay {previous : ItemSyncMutationRow}
    (h : view.receiptsById op.clientMutationId = some previous) :
    contribution env view op = replay view op previous {} := by
  unfold contribution
  rw [h]

theorem contribution_conflict {c : ItemLevelSyncConflict} (h : view.receiptsById op.clientMutationId = none)
    (hc : freshConflict view op = some c) :
    contribution env view op =
      { conflicts := [.pending c]
        pendingReceipts := [⟨op.clientMutationId, op.requestFingerprint, .conflict c⟩] } := by
  unfold contribution
  rw [h, hc]

theorem contribution_applies (h : Applies view op) :
    contribution env view op =
      { ({} : PushState).noteItem op.kind op.id with
        stmts := applyStmts env view op
        hasStateWrite := !(applyStmts env view op).isEmpty
        pendingReceipts := [⟨op.clientMutationId, op.requestFingerprint, .applied op.kind op.id⟩] } := by
  unfold contribution
  rw [h.1, h.2]

theorem operation_cases (view : PushView) (op : Operation) :
    (∃ previous, view.receiptsById op.clientMutationId = some previous) ∨
      (view.receiptsById op.clientMutationId = none ∧ ∃ c, freshConflict view op = some c) ∨ Applies view op := by
  cases hp : view.receiptsById op.clientMutationId with
  | some previous => exact .inl ⟨previous, rfl⟩
  | none =>
    cases hc : freshConflict view op with
    | some c => exact .inr (.inl ⟨rfl, c, rfl⟩)
    | none => exact .inr (.inr ⟨hp, hc⟩)

theorem contribution_stmts {q : SyncStmt} (h : q ∈ (contribution env view op).stmts) :
    Applies view op ∧ q ∈ applyStmts env view op := by
  rcases operation_cases view op with ⟨previous, hp⟩ | ⟨hp, c, hc⟩ | ha
  · rw [contribution_replay hp, (replay_lists previous).1] at h; cases h
  · rw [contribution_conflict hp hc] at h; cases h
  · rw [contribution_applies ha] at h; exact ⟨ha, h⟩

theorem contribution_pending {r : PendingReceipt} (h : r ∈ (contribution env view op).pendingReceipts) :
    view.receiptsById op.clientMutationId = none ∧ r.mutationId = op.clientMutationId ∧
      r.requestFingerprint = op.requestFingerprint ∧
      ((∃ c, freshConflict view op = some c ∧ r.result = .conflict c) ∨
        (Applies view op ∧ r.result = .applied op.kind op.id)) := by
  rcases operation_cases view op with ⟨previous, hp⟩ | ⟨hp, c, hc⟩ | ha
  · rw [contribution_replay hp, (replay_lists previous).2.1] at h; cases h
  · rw [contribution_conflict hp hc] at h
    rw [List.mem_singleton.mp h]
    exact ⟨hp, rfl, rfl, .inl ⟨c, hc, rfl⟩⟩
  · rw [contribution_applies ha] at h
    rw [List.mem_singleton.mp h]
    exact ⟨ha.1, rfl, rfl, .inr ⟨ha, rfl⟩⟩

/-- What the checks of an applied mutation establish about the row it saw. -/
theorem applies_found (h : Applies view op) :
    op.baseItemRevision = ((view.itemRowsById op.id).map (·.revision)).getD 0 ∧
      (∀ row, view.itemRowsById op.id = some row → row.userId = view.userId) ∧
      (op.kind = .delete → ∃ row, view.itemRowsById op.id = some row) := by
  have hf := h.2
  simp only [freshConflict] at hf
  split at hf
  · cases hf
  split at hf
  · cases hf
  rename_i ho
  split at hf
  · cases hf
  rename_i hd
  split at hf
  · cases hf
  rename_i hb
  refine ⟨Decidable.of_not_not hb, fun row hrow => ?_, fun hk => ?_⟩
  · rw [hrow] at ho
    simpa using ho
  · exact Option.ne_none_iff_exists'.mp (by simpa [hk] using hd)

theorem applyStmts_ne_nil (h : Applies view op) : applyStmts env view op ≠ [] := by
  cases op with
  | upsert item => exact List.cons_ne_nil _ _
  | delete item =>
    obtain ⟨row, hrow⟩ := (applies_found h).2.2 rfl
    have hrow : view.itemRowsById item.id = some row := hrow
    simp [applyStmts, hrow]

theorem contribution_write (h : Applies view op) : (contribution env view op).hasStateWrite = true := by
  rw [contribution_applies h]
  simp [applyStmts_ne_nil h]

/-! ## What a batch consists of -/

theorem applyStmts_writes {q : SyncStmt} (h : q ∈ applyStmts env view op) :
    q.userId = view.userId ∧ (∀ id r, q.write? = some (id, r) → id = op.id ∧ r = view.nextRevision) ∧
      (∀ u m row, q ≠ .insertMutation u m row) ∧ (∀ u r, q ≠ .claimRevision u r) ∧
      ∀ u r, q ≠ .setServerRevision u r := by
  cases op with
  | upsert item =>
    simp only [applyStmts, List.mem_cons, List.not_mem_nil, or_false] at h
    rcases h with rfl | rfl | rfl <;> simp [SyncStmt.userId, SyncStmt.write?, nextItem, Operation.id, eq_comm]
  | delete item =>
    simp only [applyStmts] at h
    split at h
    · simp only [List.mem_cons, List.not_mem_nil, or_false] at h
      rcases h with rfl | rfl <;> simp [SyncStmt.userId, SyncStmt.write?, Operation.id, eq_comm]
    · cases h

theorem batchStmts_claim (hw : st.hasStateWrite = true) :
    .claimRevision view.userId view.nextRevision ∈ st.batchStmts view ∧
      .setServerRevision view.userId view.nextRevision ∈ st.batchStmts view := by
  unfold PushState.batchStmts
  rw [if_pos hw]
  simp

theorem batchStmts_stmts : st.stmts ⊆ st.batchStmts view := by
  intro q hq
  unfold PushState.batchStmts
  split <;> simp [hq]

theorem batchStmts_receipts : st.receiptStmts view ⊆ st.batchStmts view := by
  intro q hq
  unfold PushState.batchStmts
  split <;> simp [hq]

variable {ops : List Operation} (hst : LoopResult env view ops st)
include hst

/-- Each statement of a batch: the claim and the server revision around a state
write, the writes of an applied mutation, or the receipt of a new one. -/
theorem batchStmts_cases {q : SyncStmt} (h : q ∈ st.batchStmts view) :
    (st.hasStateWrite = true ∧
        (q = .claimRevision view.userId view.nextRevision ∨ q = .setServerRevision view.userId view.nextRevision)) ∨
      (∃ op ∈ ops, Applies view op ∧ q ∈ applyStmts env view op) ∨
      ∃ op ∈ ops, ∃ r ∈ (contribution env view op).pendingReceipts,
        q = .insertMutation view.userId op.clientMutationId
          ⟨op.requestFingerprint, r.result.result (st.serverRevision view)⟩ := by
  have hmid : q ∈ st.stmts ++ st.receiptStmts view →
      (∃ op ∈ ops, Applies view op ∧ q ∈ applyStmts env view op) ∨
      ∃ op ∈ ops, ∃ r ∈ (contribution env view op).pendingReceipts,
        q = .insertMutation view.userId op.clientMutationId
          ⟨op.requestFingerprint, r.result.result (st.serverRevision view)⟩ := by
    intro hq
    rcases List.mem_append.mp hq with hq | hq
    · rw [hst.stmts, List.mem_flatMap] at hq
      obtain ⟨op, hop, hq⟩ := hq
      exact .inl ⟨op, hop, contribution_stmts hq⟩
    · unfold PushState.receiptStmts at hq
      rw [hst.pending, List.mem_map] at hq
      obtain ⟨r, hr, rfl⟩ := hq
      obtain ⟨op, hop, hr⟩ := List.mem_flatMap.mp hr
      obtain ⟨-, hm, hfp, -⟩ := contribution_pending hr
      exact .inr ⟨op, hop, r, hr, by rw [hm, hfp]⟩
  unfold PushState.batchStmts at h
  split at h
  · rename_i hw
    rcases List.mem_append.mp h with h | h
    · rcases List.mem_cons.mp h with rfl | h
      · exact .inl ⟨hw, .inl rfl⟩
      · exact .inr (hmid h)
    · exact .inl ⟨hw, .inr (List.mem_singleton.mp h)⟩
  · exact .inr (hmid h)

/-- Without a state write a batch holds receipts only. -/
theorem batchStmts_quiet (hw : st.hasStateWrite = false) {q : SyncStmt} (h : q ∈ st.batchStmts view) :
    ∃ m row, q = .insertMutation view.userId m row := by
  rcases batchStmts_cases hst h with ⟨hw', -⟩ | ⟨op, hop, ha, -⟩ | ⟨op, -, r, -, rfl⟩
  · rw [hw] at hw'; cases hw'
  · rw [hst.write, List.any_eq_false] at hw
    exact absurd (contribution_write ha) (hw op hop)
  · exact ⟨_, _, rfl⟩

theorem batchStmts_writes : Writes view.userId view.nextRevision (st.batchStmts view) := by
  constructor
  · intro q h
    rcases batchStmts_cases hst h with ⟨-, rfl | rfl⟩ | ⟨op, -, -, hq⟩ | ⟨op, -, r, -, rfl⟩
    · rfl
    · rfl
    · exact (applyStmts_writes hq).1
    · rfl
  · intro q h id r hq
    rcases batchStmts_cases hst h with ⟨-, rfl | rfl⟩ | ⟨op, -, -, hm⟩ | ⟨op, -, r, -, rfl⟩
    · cases hq
    · cases hq
    · exact ((applyStmts_writes hm).2.1 id r hq).2
    · cases hq

theorem batchStmts_setServerRevision {u : UserId} {r : Nat} (h : .setServerRevision u r ∈ st.batchStmts view) :
    st.hasStateWrite = true ∧ u = view.userId ∧ r = view.nextRevision := by
  rcases batchStmts_cases hst h with ⟨hw, he | he⟩ | ⟨op, -, -, hm⟩ | ⟨op, -, r, -, he⟩
  · cases he
  · cases he; exact ⟨hw, rfl, rfl⟩
  · exact absurd rfl ((applyStmts_writes hm).2.2.2.2 u r)
  · cases he

theorem batchStmts_claimRevision {u : UserId} {r : Nat} (h : .claimRevision u r ∈ st.batchStmts view) :
    st.hasStateWrite = true ∧ u = view.userId ∧ r = view.nextRevision := by
  rcases batchStmts_cases hst h with ⟨hw, he | he⟩ | ⟨op, -, -, hm⟩ | ⟨op, -, r, -, he⟩
  · cases he; exact ⟨hw, rfl, rfl⟩
  · cases he
  · exact absurd rfl ((applyStmts_writes hm).2.2.2.1 u r)
  · cases he

theorem batchStmts_insertMutation {u : UserId} {m : MutationId} {row : ItemSyncMutationRow}
    (h : .insertMutation u m row ∈ st.batchStmts view) :
    u = view.userId ∧ ∃ op ∈ ops, m = op.clientMutationId ∧ row.requestFingerprint = op.requestFingerprint ∧
      view.receiptsById m = none ∧
      ((∃ c, freshConflict view op = some c ∧
          row.result = .conflict { c with serverRevision := st.serverRevision view }) ∨
        (Applies view op ∧ st.hasStateWrite = true ∧ row.result = .applied op.kind op.id view.nextRevision)) := by
  rcases batchStmts_cases hst h with ⟨hw, he | he⟩ | ⟨op, -, -, hm⟩ | ⟨op, hop, r, hr, he⟩
  · cases he
  · cases he
  · exact absurd rfl ((applyStmts_writes hm).2.2.1 u m row)
  · cases he
    obtain ⟨hp, -, -, hres⟩ := contribution_pending hr
    refine ⟨rfl, op, hop, rfl, rfl, hp, ?_⟩
    rcases hres with ⟨c, hc, hres⟩ | ⟨ha, hres⟩
    · exact .inl ⟨c, hc, by rw [hres]; rfl⟩
    · have hw : st.hasStateWrite = true := by
        rw [hst.write, List.any_eq_true]
        exact ⟨op, hop, contribution_write ha⟩
      refine .inr ⟨ha, hw, ?_⟩
      rw [hres]
      simp [PendingResult.result, PushState.serverRevision, hw]

end

/-! ## Guarantees -/

abbrev SyncStep := Step Db (Access SyncStmt)

def queryStep (s : Db) : SyncStep := ⟨.query, s, s⟩

/-- The view of a push that read the user in `s₁`, the rows in `s₂` and the
receipts in `s₃`. -/
def pushViewAt (userId : UserId) (plan : ItemLevelSyncPlan) (s₁ s₂ s₃ : Db) : PushView where
  userId := userId
  serverRevision := s₁.serverRevision userId
  baseRevision := plan.baseRevision
  itemRowsById := selectItemRows (plan.operations.map (·.id)) s₂
  receiptsById := selectReceipts userId (plan.operations.map (·.clientMutationId)) s₃

structure Attempt (env : Nat → Env) (userId : UserId) (plan : ItemLevelSyncPlan) (s₁ s₂ s₃ : Db)
    (st : PushState) : Prop where
  user : s₁.users.contains userId = true
  loop : ∃ n, LoopResult (env n) (pushViewAt userId plan s₁ s₂ s₃) plan.operations st

def PushItemGuar (env : Nat → Env) (userId : UserId) (plan : ItemLevelSyncPlan) (tr : List SyncStep)
    (e : SyncStep) : Prop :=
  match e.label with
  | .commit stmts => execBatch stmts e.before = some e.after ∧ ∃ old s₁ s₂ s₃ st,
      tr = old ++ [queryStep s₁, queryStep s₂, queryStep s₃] ∧ Attempt env userId plan s₁ s₂ s₃ st ∧
      stmts = st.batchStmts (pushViewAt userId plan s₁ s₂ s₃)
  | _ => e.after = e.before

/-- An answer comes from the reads of the last attempt; its batch, unless it
was empty, was the call's last access. -/
def PushItemPost (env : Nat → Env) (userId : UserId) (plan : ItemLevelSyncPlan) (tr : List SyncStep) :
    Except SyncError ItemLevelSyncPushResult → Prop
  | .error _ => True
  | .ok result => ∃ old s₁ s₂ s₃ st, Attempt env userId plan s₁ s₂ s₃ st ∧
      result = st.pushResult (pushViewAt userId plan s₁ s₂ s₃) ∧
      (plan.operations = [] ∨
        (st.batchStmts (pushViewAt userId plan s₁ s₂ s₃) = [] ∧
          tr = old ++ [queryStep s₁, queryStep s₂, queryStep s₃]) ∨
        ∃ b a, tr = old ++ [queryStep s₁, queryStep s₂, queryStep s₃] ++
          [⟨.commit (st.batchStmts (pushViewAt userId plan s₁ s₂ s₃)), b, a⟩])

section
variable {env : Nat → Env} {userId : UserId} {plan : ItemLevelSyncPlan}

theorem pushAborted_sat (view : PushView) (st : PushState) (tr : List SyncStep) :
    Sat (PushItemGuar env userId plan) (PushItemPost env userId plan) (pushAborted view st) tr := by
  unfold pushAborted
  simp only [Prog.query_bind]
  split
  · intro s
    refine ⟨rfl, ?_⟩
    dsimp only
    split
    · trivial
    split
    · trivial
    · exact fun s' => ⟨rfl, trivial⟩
  · split
    · trivial
    · exact fun s => ⟨rfl, trivial⟩

theorem pushPrepared_sat {old : List SyncStep} {s₁ s₂ s₃ : Db} {st : PushState}
    (ha : Attempt env userId plan s₁ s₂ s₃ st) :
    Sat (PushItemGuar env userId plan) (PushItemPost env userId plan)
      (pushPrepared (pushViewAt userId plan s₁ s₂ s₃) st)
      (old ++ [queryStep s₁, queryStep s₂, queryStep s₃]) := by
  unfold pushPrepared
  split
  · rename_i he
    exact ⟨old, s₁, s₂, s₃, st, ha, rfl, .inr (.inl ⟨List.isEmpty_iff.mp he, rfl⟩)⟩
  · intro s
    cases hx : execBatch (st.batchStmts (pushViewAt userId plan s₁ s₂ s₃)) s with
    | some s' =>
      have hx : execAll SyncStmt.exec (st.batchStmts (pushViewAt userId plan s₁ s₂ s₃)) s = some s' := hx
      simp only [hx]
      exact ⟨⟨hx, old, s₁, s₂, s₃, st, rfl, ha, rfl⟩, old, s₁, s₂, s₃, st, ha, rfl, .inr (.inr ⟨s, s', rfl⟩)⟩
    | none =>
      have hx : execAll SyncStmt.exec (st.batchStmts (pushViewAt userId plan s₁ s₂ s₃)) s = none := hx
      simp only [hx]
      exact ⟨rfl, pushAborted_sat _ _ _⟩

/-- Without operations the view's rows and receipts are not read. -/
theorem pushItemLevelSyncOnce_empty {n : Nat} {s : Db} {tr : List SyncStep} (hops : plan.operations = [])
    (hu : s.users.contains userId = true) :
    Sat (PushItemGuar env userId plan) (PushItemPost env userId plan)
      (match pushLoop (env n) ⟨userId, s.serverRevision userId, plan.baseRevision, fun _ => none, fun _ => none⟩
          plan.operations with
        | .error e => pure (.error e)
        | .ok st =>
          pushPrepared ⟨userId, s.serverRevision userId, plan.baseRevision, fun _ => none, fun _ => none⟩ st) tr := by
  rw [hops]
  refine ⟨[], s, s, s, {}, ⟨hu, n, ?_⟩, rfl, .inl hops⟩
  rw [hops]
  exact pushLoop_ok rfl

theorem pushItemLevelSyncOnce_sat (n : Nat) (tr : List SyncStep) :
    Sat (PushItemGuar env userId plan) (PushItemPost env userId plan)
      (pushItemLevelSyncOnce (env n) userId plan) tr := by
  unfold pushItemLevelSyncOnce
  simp only [Prog.query_bind]
  intro s₁
  refine ⟨rfl, ?_⟩
  dsimp only
  cases hu : findUserById userId s₁ with
  | none => trivial
  | some user =>
    have hc : s₁.users.contains userId = true := Table.contains_eq_true.mpr ⟨user, hu⟩
    have hr : user.serverRevision = s₁.serverRevision userId := by
      unfold findUserById at hu
      unfold Db.serverRevision
      rw [hu]; rfl
    dsimp only
    rw [hr]
    split
    · rename_i he
      exact pushItemLevelSyncOnce_empty (List.isEmpty_iff.mp he) hc
    · intro s₂
      refine ⟨rfl, fun s₃ => ⟨rfl, ?_⟩⟩
      change Sat _ _ (match pushLoop (env n) (pushViewAt userId plan s₁ s₂ s₃) plan.operations with
        | .error e => pure (.error e)
        | .ok st => pushPrepared (pushViewAt userId plan s₁ s₂ s₃) st) _
      cases hl : pushLoop (env n) (pushViewAt userId plan s₁ s₂ s₃) plan.operations with
      | error e => trivial
      | ok st =>
        have ha : Attempt env userId plan s₁ s₂ s₃ st := ⟨hc, n, pushLoop_ok hl⟩
        have htr : tr ++ [queryStep s₁] ++ [queryStep s₂] ++ [queryStep s₃] =
            tr ++ [queryStep s₁, queryStep s₂, queryStep s₃] := by simp
        exact htr ▸ pushPrepared_sat ha

theorem pushAttempts_sat (left : Nat) (tr : List SyncStep) :
    Sat (PushItemGuar env userId plan) (PushItemPost env userId plan) (pushAttempts env userId plan left) tr := by
  induction left generalizing tr with
  | zero => exact pushItemLevelSyncOnce_sat 0 tr
  | succ left ih =>
    refine (pushItemLevelSyncOnce_sat (left + 1) tr).bind fun tr' result _ hq => ?_
    split
    · exact ih tr'
    · exact hq

end

/-! ## Whole-vault pushes -/

/-- Each item names the user as its owner and was looked up: no other user had
it then. -/
def Checked (userId : UserId) (items : List VaultItemCiphertext) (tr : List SyncStep) : Prop :=
  ∀ item ∈ items, item.ownerUserId = userId ∧
    ∃ s, queryStep s ∈ tr ∧ Free userId (s.vaultItems.get? item.id)

def PushVaultGuar (env : Env) (userId : UserId) (request : SyncPushRequest) (tr : List SyncStep)
    (e : SyncStep) : Prop :=
  match e.label with
  | .commit stmts => execBatch stmts e.before = some e.after ∧ ∃ s₁ rest,
      tr = queryStep s₁ :: rest ∧ s₁.users.contains userId = true ∧
      request.baseRevision = s₁.serverRevision userId ∧ Checked userId request.upserts tr ∧
      stmts = pushVaultStmts env userId (s₁.serverRevision userId + 1) request
  | _ => e.after = e.before

/-- A push that answers `ok` committed its batch at the revision it answers. -/
def PushVaultPost (env : Env) (userId : UserId) (request : SyncPushRequest) (tr : List SyncStep)
    (result : Except SyncError PushResult) : Prop :=
  ∀ r, result = .ok (.ok r) → ∃ e ∈ tr, e.label = .commit (pushVaultStmts env userId r request)

section
variable {env : Env} {userId : UserId} {request : SyncPushRequest}

theorem checkOwners_sat (items : List VaultItemCiphertext) (s₁ : Db) (rest : List SyncStep) :
    Sat (PushVaultGuar env userId request)
      (fun tr owned => (∃ rest, tr = queryStep s₁ :: rest) ∧ (owned = true → Checked userId items tr))
      (checkOwners userId items) (queryStep s₁ :: rest) := by
  induction items generalizing rest with
  | nil => exact ⟨⟨rest, rfl⟩, fun _ item hitem => absurd hitem List.not_mem_nil⟩
  | cons item items ih =>
    unfold checkOwners
    simp only [Prog.query_bind]
    by_cases ho : item.ownerUserId = userId
    · rw [if_neg (not_not_intro ho)]
      intro s
      refine ⟨rfl, ?_⟩
      dsimp only
      by_cases hf : (s.vaultItems.get? item.id).any (fun x => decide (x.userId ≠ userId)) = true
      · rw [if_pos hf]
        exact ⟨⟨_, rfl⟩, nofun⟩
      · rw [if_neg hf]
        have hfree : Free userId (s.vaultItems.get? item.id) := by
          intro r hr
          simpa [hr] using hf
        refine (ih (rest ++ [queryStep s])).extends.mono ?_
        rintro tr owned ⟨⟨hrest, hchecked⟩, hpre⟩
        have hs : queryStep s ∈ tr := hpre.subset (by simp)
        refine ⟨hrest, fun howned item' hitem => ?_⟩
        rcases List.mem_cons.mp hitem with rfl | hitem
        · exact ⟨ho, s, hs, hfree⟩
        · exact hchecked howned item' hitem
    · rw [if_pos ho]
      exact ⟨⟨rest, rfl⟩, nofun⟩

theorem pushVault_sat (tr : List SyncStep) (htr : tr = []) :
    Sat (PushVaultGuar env userId request) (PushVaultPost env userId request) (pushVault env userId request) tr := by
  unfold pushVault
  simp only [Prog.query_bind]
  intro s₁
  refine ⟨rfl, ?_⟩
  dsimp only
  -- an unknown user throws before anything is written
  cases hu : findUserById userId s₁ with
  | none => exact nofun
  | some user =>
    have hc : s₁.users.contains userId = true := Table.contains_eq_true.mpr ⟨user, hu⟩
    have hr : user.serverRevision = s₁.serverRevision userId := by
      unfold findUserById at hu
      unfold Db.serverRevision
      rw [hu]; rfl
    dsimp only
    rw [hr, htr]
    refine (checkOwners_sat request.upserts s₁ []).bind ?_
    rintro tr' owned - ⟨⟨rest, rfl⟩, hchecked⟩
    by_cases ho : owned = true
    · simp only [ho, Bool.not_true, Bool.false_eq_true, if_false]
      split
      · exact nofun
      rename_i hb
      intro s
      cases hx : execAll SyncStmt.exec (pushVaultStmts env userId (s₁.serverRevision userId + 1) request) s with
      | some s' =>
        simp only [hx]
        refine ⟨⟨hx, s₁, rest, rfl, hc, Decidable.of_not_not hb, hchecked ho, rfl⟩, ?_⟩
        intro r hres
        cases hres
        exact ⟨⟨.commit _, s, s'⟩, by simp, rfl⟩
      | none =>
        simp only [hx]
        refine ⟨rfl, fun s' => ⟨rfl, ?_⟩⟩
        dsimp only
        cases findUserById userId s' with
        | none => exact nofun
        | some latest => dsimp only; split <;> exact nofun
    · simp only [ho, Bool.not_false, if_true]
      exact nofun

end

/-! ## Calls -/

def SyncCall.guar : SyncCall → List SyncStep → SyncStep → Prop
  | pushVault env userId request => PushVaultGuar env userId request
  | pushItemLevelSync env userId plan => PushItemGuar env userId plan

theorem guar_step {c : SyncCall} {tr : List SyncStep} {e : SyncStep} (hg : c.guar tr e) :
    (∃ stmts, e.label = .commit stmts ∧ execBatch stmts e.before = some e.after) ∨
      ((∀ stmts, e.label ≠ .commit stmts) ∧ e.after = e.before) := by
  obtain ⟨label, b, a⟩ := e
  cases label with
  | query => cases c <;> exact .inr ⟨nofun, hg⟩
  | abort stmts => cases c <;> exact .inr ⟨nofun, hg⟩
  | commit stmts => cases c <;> exact .inl ⟨stmts, rfl, hg.1⟩

def SyncCall.post : SyncCall → List SyncStep → SyncResult → Prop
  | pushVault env userId request, tr, .pushVault result => PushVaultPost env userId request tr result
  | pushItemLevelSync env userId plan, tr, .pushItemLevelSync result => PushItemPost env userId plan tr result
  | _, _, _ => True

theorem SyncCall.sat (c : SyncCall) : Sat c.guar c.post c.code [] := by
  cases c with
  | pushVault env userId request => exact (pushVault_sat [] rfl).bind fun _ _ _ hq => hq
  | pushItemLevelSync env userId plan =>
    exact (pushAttempts_sat MAX_SYNC_REVISION_RETRIES []).bind fun _ _ _ hq => hq

end ZeroVault

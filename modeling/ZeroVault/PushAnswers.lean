import ZeroVault.PushRounds
import ZeroVault.StoredAnswers

/-!
# Answers that a client accepts

The revision of an answer comes from the first read of a push, the rows and
receipts it reports from later ones. Every store keeps rows and receipts at or
below the user's revision (`Answerable`); so an answer passes the checks of the
client as long as the user's revision did not move between these reads, or what
the plan names did not move with it (`ReadsAgree`).
-/

namespace ZeroVault

open Lib

/-! ## Receipts and their requests -/

/-- A result that answers the operation, with revisions up to `n`. -/
def ReceiptResult.Answers (n : Nat) (op : Operation) : ReceiptResult → Prop
  | .applied kind id r => kind = op.kind ∧ id = op.id ∧ op.baseItemRevision < r ∧ r ≤ n
  | .conflict c =>
    c.itemId = op.id ∧ c.operation = op.kind ∧ c.clientBaseRevision = op.baseItemRevision ∧
      ∀ r, c.serverItemRevision = some r → r ≤ n

def ReceiptOk (n : Nat) (row : ItemSyncMutationRow) : Prop :=
  ∀ op : Operation, op.requestFingerprint = row.requestFingerprint → row.result.Answers n op

/-- No row and no receipt of the user is ahead of the server revision. -/
structure Answerable (u : UserId) (s : Db) : Prop where
  rows : Bounded u s
  receipts : ∀ m row, s.itemSyncMutations.get? (u, m) = some row → ReceiptOk (s.serverRevision u) row

theorem fingerprint_inj {op op' : Operation} (h : op.requestFingerprint = op'.requestFingerprint) :
    op.kind = op'.kind ∧ op.id = op'.id ∧ op.baseItemRevision = op'.baseItemRevision := by
  cases op with
  | upsert item =>
    cases op' with
    | upsert item' =>
      simp only [Operation.requestFingerprint, RequestFingerprint.upsert.injEq] at h
      exact ⟨rfl, h.1, h.2.2.1⟩
    | delete item' => cases h
  | delete item =>
    cases op' with
    | upsert item' => cases h
    | delete item' =>
      simp only [Operation.requestFingerprint, RequestFingerprint.delete.injEq] at h
      exact ⟨rfl, h.1, h.2.2.1⟩

theorem ReceiptResult.Answers.mono {n n' : Nat} {op : Operation} {result : ReceiptResult} (h : result.Answers n op)
    (hn : n ≤ n') : result.Answers n' op := by
  cases result with
  | applied kind id r => exact ⟨h.1, h.2.1, h.2.2.1, Nat.le_trans h.2.2.2 hn⟩
  | conflict c => exact ⟨h.1, h.2.1, h.2.2.1, fun r hr => Nat.le_trans (h.2.2.2 r hr) hn⟩

/-- A result that answers one operation answers each with the same fingerprint. -/
theorem receiptOk_of_answers {n : Nat} {op : Operation} {row : ItemSyncMutationRow}
    (hfp : row.requestFingerprint = op.requestFingerprint) (h : row.result.Answers n op) : ReceiptOk n row := by
  intro op' hop'
  obtain ⟨hk, hid, hbase⟩ := fingerprint_inj (hop'.trans hfp)
  cases hres : row.result with
  | applied kind id r =>
    rw [hres] at h
    exact ⟨hk ▸ h.1, hid ▸ h.2.1, hbase ▸ h.2.2.1, h.2.2.2⟩
  | conflict c =>
    rw [hres] at h
    exact ⟨hid ▸ h.1, hk ▸ h.2.1, hbase ▸ h.2.2.1, h.2.2.2⟩

/-! ## What the store keeps -/

section
variable {F : Formats} {u : UserId} {s s' : Db} {c : SyncCall} {tr : List SyncStep} {e : SyncStep}

theorem ownRow_eq_some {id : ItemId} {row : VaultItemRow} :
    s.ownRow u id = some row ↔ s.vaultItems.get? id = some row ∧ row.userId = u := by
  unfold Db.ownRow
  rw [Option.filter_eq_some_iff, decide_eq_true_eq]

theorem OwnRely.bounded (h : OwnRely u s s') (hrev : s'.serverRevision u = s.serverRevision u) (hb : Bounded u s) :
    Bounded u s' := by
  intro id row hrow hu
  have hown := h.own hrev id
  rw [ownRow_eq_some.mpr ⟨hrow, hu⟩] at hown
  obtain ⟨hrow', -⟩ := ownRow_eq_some.mp hown.symm
  exact hrev ▸ hb id row hrow' hu

theorem guar_bounded (hg : c.guar tr e) (hb : ∀ v, Before (OwnRely v) tr e.before) (h0 : Bounded u e.before) :
    Bounded u e.after := by
  have hown := guar_own (u := u) hg hb
  rcases guar_step hg with ⟨stmts, hl, hx⟩ | ⟨-, he⟩
  · obtain ⟨label, b, a⟩ := e
    cases hl
    obtain ⟨-, hcase⟩ := commit_cases rfl hg ((hb c.userId).mono fun _ _ h => h.toFences)
    rcases hcase with ⟨hu, hw⟩ | hq
    · by_cases hc : c.userId = u
      · subst hc
        exact (hw.rely hu hx).2.bounded h0
      · exact hown.bounded (batch_serverRevision_eq hx fun r hr => hc (hw.userId _ hr).symm) h0
    · refine hown.bounded (batch_serverRevision_eq hx fun r hr => ?_) h0
      obtain ⟨m, row, he⟩ := hq _ hr
      cases he
  · rw [he]
    exact h0

structure Keeps (u : UserId) (s s' : Db) : Prop where
  own : ∀ v, OwnRely v s s'
  bounded : Bounded u s → Bounded u s'

theorem along_bounded {s₀ : Db} {h : SyncHistory} {ps : List (Proc SyncCall Db (Access SyncStmt) SyncResult)}
    (hr : Reach SyncCall.code (·.Valid F) s₀ h s ps) : Along (Keeps u) s₀ h := by
  refine reach_rel valid_sat (fun s => ⟨fun v => .refl v s, id⟩)
    (fun _ _ _ h12 h23 => ⟨fun v => (h12.own v).trans (h23.own v), h23.bounded ∘ h12.bounded⟩) ?_ hr
  intro c tr e _ _ hb hg
  have hown : ∀ v, Before (OwnRely v) tr e.before := fun v => hb.mono fun _ _ h => h.own v
  exact ⟨fun v => guar_own hg hown, guar_bounded hg hown⟩

end

/-! ## One attempt -/

section
variable {env : Nat → Env} {u : UserId} {plan : ItemLevelSyncPlan} {s₁ s₂ s₃ : Db} {st : PushState} {op : Operation}

theorem pushViewAt_row (hop : op ∈ plan.operations) :
    (pushViewAt u plan s₁ s₂ s₃).itemRowsById op.id = s₂.vaultItems.get? op.id :=
  selectItemRows_mem (List.mem_map_of_mem hop) s₂

theorem pushViewAt_receipt (hop : op ∈ plan.operations) :
    (pushViewAt u plan s₁ s₂ s₃).receiptsById op.clientMutationId =
      s₃.itemSyncMutations.get? (u, op.clientMutationId) :=
  selectReceipts_mem (List.mem_map_of_mem hop) s₃

theorem conflictFor_answers {n : Nat} (hop : op ∈ plan.operations) {reason : ConflictReason} {serverRevision : Nat}
    (hrows : ∀ row, s₂.ownRow u op.id = some row → row.revision ≤ n) :
    (ReceiptResult.conflict { conflictFor (pushViewAt u plan s₁ s₂ s₃) op reason with serverRevision }).Answers n op := by
  refine ⟨rfl, rfl, rfl, fun r hr => ?_⟩
  have hr : (((pushViewAt u plan s₁ s₂ s₃).itemRowsById op.id).filter (·.userId = u)).map (·.revision) = some r := hr
  rw [pushViewAt_row hop] at hr
  obtain ⟨row, hrow, rfl⟩ := Option.map_eq_some_iff.mp hr
  exact hrows row hrow

theorem freshConflict_reason {view : PushView} {c : ItemLevelSyncConflict} (h : freshConflict view op = some c) :
    ∃ reason, c = conflictFor view op reason := by
  simp only [freshConflict] at h
  split at h
  · cases h; exact ⟨_, rfl⟩
  split at h
  · cases h; exact ⟨_, rfl⟩
  split at h
  · cases h; exact ⟨_, rfl⟩
  split at h
  · cases h; exact ⟨_, rfl⟩
  · cases h

/-- The base of a mutation that applies is at most the revision of the rows. -/
theorem applies_base (hop : op ∈ plan.operations) (ha : Applies (pushViewAt u plan s₁ s₂ s₃) op) {n : Nat}
    (hrows : ∀ row, s₂.ownRow u op.id = some row → row.revision ≤ n) : op.baseItemRevision ≤ n := by
  obtain ⟨hbase, hown, -⟩ := applies_found ha
  rw [pushViewAt_row hop] at hbase hown
  rw [hbase]
  cases hrow : s₂.vaultItems.get? op.id with
  | none => exact Nat.zero_le _
  | some row => exact hrows row (ownRow_eq_some.mpr ⟨hrow, hown row hrow⟩)

/-- What a push makes of one operation, with revisions up to that of the answer. -/
theorem answer_bounded (n : Nat) (hst : LoopResult (env n) (pushViewAt u plan s₁ s₂ s₃) plan.operations st)
    (hop : op ∈ plan.operations)
    (hrows : ∀ row, s₂.ownRow u op.id = some row → row.revision ≤ s₁.serverRevision u)
    (hreceipts : ∀ row, s₃.itemSyncMutations.get? (u, op.clientMutationId) = some row →
      ReceiptOk (s₁.serverRevision u) row) :
    ∃ result : ReceiptResult, result.Answers (st.serverRevision (pushViewAt u plan s₁ s₂ s₃)) op ∧
      answer (pushViewAt u plan s₁ s₂ s₃) (st.serverRevision (pushViewAt u plan s₁ s₂ s₃)) op =
        result.answer op.clientMutationId := by
  have hle : s₁.serverRevision u ≤ st.serverRevision (pushViewAt u plan s₁ s₂ s₃) := by
    unfold PushState.serverRevision
    split
    · exact Nat.le_succ _
    · exact Nat.le_refl _
  unfold answer
  rcases operation_cases (pushViewAt u plan s₁ s₂ s₃) op with ⟨previous, hp⟩ | ⟨hp, c, hc⟩ | ha
  · rw [hp]
    dsimp only
    split
    · exact ⟨.conflict (conflictFor (pushViewAt u plan s₁ s₂ s₃) op .mutationIdReused),
        (conflictFor_answers hop hrows).mono hle, rfl⟩
    · rename_i hfp
      rw [pushViewAt_receipt hop] at hp
      exact ⟨_, (hreceipts previous hp op (not_not.mp hfp).symm).mono hle, rfl⟩
  · rw [hp, hc]
    obtain ⟨reason, rfl⟩ := freshConflict_reason hc
    exact ⟨_, (conflictFor_answers hop hrows).mono hle, rfl⟩
  · rw [ha.1, ha.2]
    have hw : st.hasStateWrite = true := by
      rw [hst.write, List.any_eq_true]
      exact ⟨op, hop, contribution_write ha⟩
    have hnext : st.serverRevision (pushViewAt u plan s₁ s₂ s₃) = s₁.serverRevision u + 1 := by
      unfold PushState.serverRevision
      rw [hw]
      rfl
    have hbase := applies_base hop ha hrows
    exact ⟨.applied op.kind op.id (st.serverRevision (pushViewAt u plan s₁ s₂ s₃)),
      ⟨rfl, rfl, by omega, Nat.le_refl _⟩, rfl⟩

end

/-! ## Runs -/

section
variable {F : Formats} {u : UserId} {c : SyncCall} {tr : List SyncStep} {e : SyncStep}

theorem inserted_ok {env : Nat → Env} {plan : ItemLevelSyncPlan} {stmts : List SyncStmt} {b a : Db}
    (hg : PushItemGuar env u plan tr ⟨.commit stmts, b, a⟩) (hb : Before (OwnRely u) tr b)
    (hbound : ∀ d ∈ tr, Bounded u d.before) {m : MutationId} {row : ItemSyncMutationRow}
    (hm : .insertMutation u m row ∈ stmts) : ReceiptOk (a.serverRevision u) row := by
  obtain ⟨hx, old, s₁, s₂, s₃, st, rfl, ⟨hu, n, hst⟩, rfl⟩ := hg
  have hfences : Before (Fences u) (old ++ [queryStep s₁, queryStep s₂, queryStep s₃]) b :=
    hb.mono fun _ _ h => h.toFences
  have h1 : Fences u s₁ b := hfences.now (queryStep s₁) (by simp)
  have h2 : Fences u s₂ b := hfences.now (queryStep s₂) (by simp)
  have hrows : ∀ id row, s₂.ownRow u id = some row → row.revision ≤ s₂.serverRevision u := by
    intro id row hrow
    obtain ⟨hrow, howner⟩ := ownRow_eq_some.mp hrow
    exact hbound (queryStep s₂) (by simp) id row hrow howner
  -- a batch that writes state moves the revision that all its reads saw
  have hmoves (hw : st.hasStateWrite = true) : s₁.serverRevision u = s₂.serverRevision u ∧
      a.serverRevision u = s₁.serverRevision u + 1 := by
    have hcurrent : s₁.serverRevision u = b.serverRevision u ∧ b.serverRevision u = s₂.serverRevision u :=
      push_current hw hx hfences
    have hwrite : StateWrite u (s₁.serverRevision u + 1) _ := batchStmts_stateWrite hst hw
    rw [hcurrent.1] at hwrite
    have hset : a.serverRevision u = b.serverRevision u + 1 := (hwrite.rely (h1.users hu) hx).1
    omega
  have hrevision : s₂.serverRevision u ≤ a.serverRevision u := by
    have hle : s₂.serverRevision u ≤ b.serverRevision u := h2.revision
    cases hw : st.hasStateWrite with
    | true =>
      have hmoves := hmoves hw
      omega
    | false =>
      have hsame : a.serverRevision u = b.serverRevision u :=
        (quiet_rely (u := u) (fun q hq => batchStmts_quiet hst hw hq) hx).1
      omega
  obtain ⟨-, op, hop, rfl, hfp, -, ⟨conflict, hc, hres⟩ | ⟨ha, hw, hres⟩⟩ := batchStmts_insertMutation hst hm
  · obtain ⟨reason, rfl⟩ := freshConflict_reason hc
    refine receiptOk_of_answers hfp ?_
    rw [hres]
    exact conflictFor_answers hop fun row hrow => Nat.le_trans (hrows _ row hrow) hrevision
  · obtain ⟨h12, hset⟩ := hmoves hw
    have hbase := applies_base hop ha (hrows op.id)
    have hnext : (pushViewAt u plan s₁ s₂ s₃).nextRevision = s₁.serverRevision u + 1 := rfl
    refine receiptOk_of_answers hfp ?_
    rw [hres]
    exact ⟨rfl, rfl, by omega, Nat.le_of_eq (hnext.trans hset.symm)⟩

theorem guar_receipts (hg : c.guar tr e) (hb : Before (OwnRely u) tr e.before)
    (hbound : ∀ d ∈ tr, Bounded u d.before) (hrevision : e.before.serverRevision u ≤ e.after.serverRevision u)
    (h0 : ∀ m row, e.before.itemSyncMutations.get? (u, m) = some row → ReceiptOk (e.before.serverRevision u) row) :
    ∀ m row, e.after.itemSyncMutations.get? (u, m) = some row → ReceiptOk (e.after.serverRevision u) row := by
  intro m row hrow
  rcases guar_step hg with ⟨stmts, hl, hx⟩ | ⟨-, he⟩
  · rcases batch_receipt_from hx hrow with hold | hm
    · exact fun op hop => (h0 m row hold op hop).mono hrevision
    · obtain ⟨label, b, a⟩ := e
      cases hl
      cases c with
      | pushVault env w request =>
        obtain ⟨-, s₁, rest, -, -, -, -, rfl⟩ := hg
        rcases pushVaultStmts_cases hm with he | he | he
        · cases he
        · cases he
        · exact absurd rfl (he.2.2.2 u m row)
      | pushItemLevelSync env w plan =>
        obtain rfl : u = w := by
          obtain ⟨-, old, s₁, s₂, s₃, st, -, ⟨-, n, hst⟩, rfl⟩ := hg
          exact (batchStmts_insertMutation hst hm).1
        exact inserted_ok hg hb hbound hm
  · rw [he] at hrow ⊢
    exact h0 m row hrow

variable {s₀ s : Db} {h : SyncHistory} {ps : List (Proc SyncCall Db (Access SyncStmt) SyncResult)}

theorem own_bounded (hr : Reach SyncCall.code (·.Valid F) s₀ h s ps) (h0 : Bounded u s₀) {i : Nat} {d : SyncStep}
    (hd : d ∈ own i h) : Bounded u d.before :=
  ((along_bounded hr).start hr hd).bounded h0

/-- The pushes of any users leave a store that a push can answer from. -/
theorem reach_answerable (hr : Reach SyncCall.code (·.Valid F) s₀ h s ps) (h0 : Answerable u s₀) : Answerable u s := by
  refine reach_invariant (P := fun tr e => (∀ d ∈ tr, Bounded u d.before) ∧ Before (Keeps u) tr e.before) valid_sat h0
    (fun c tr e _ hs hg ⟨hbound, hb⟩ => ?_) hr fun h₁ i c e h₂ hh => ?_
  · have hown : ∀ v, Before (OwnRely v) tr e.before := fun v => hb.mono fun _ _ h => h.own v
    exact ⟨guar_bounded hg hown hs.rows,
      guar_receipts hg (hown u) hbound (guar_own hg hown).revision hs.receipts⟩
  · subst hh
    obtain ⟨-, hbefore, -⟩ := reach_step valid_sat hr
    obtain ⟨ps₁, hr₁⟩ := reach_prefix hr
    rw [← hbefore] at hr₁
    exact ⟨fun d hd => own_bounded hr₁ h0.rows hd, (along_bounded hr).init.before hr₁ i⟩

theorem own_answerable (hr : Reach SyncCall.code (·.Valid F) s₀ h s ps) (h0 : Answerable u s₀) {i : Nat} {d : SyncStep}
    (hd : d ∈ own i h) : Answerable u d.before := by
  obtain ⟨c, hc⟩ := mem_own.mp hd
  obtain ⟨h₁, h₂, rfl⟩ := List.append_of_mem hc
  obtain ⟨-, hbefore, -⟩ := reach_step valid_sat hr
  obtain ⟨ps₁, hr₁⟩ := reach_prefix hr
  rw [hbefore]
  exact reach_answerable hr₁ h0

end

/-! ## What the client checks -/

def AnswerOk (serverRevision : Nat) (op : Operation) : Answer → Prop
  | .receipt r =>
    r.clientMutationId = op.clientMutationId ∧ r.itemId = op.id ∧ r.operation = op.kind ∧
      op.baseItemRevision < r.appliedItemRevision ∧ r.appliedItemRevision ≤ serverRevision
  | .conflict c =>
    c.itemId = op.id ∧ c.operation = op.kind ∧ c.clientBaseRevision = op.baseItemRevision ∧
      ∀ r, c.serverItemRevision = some r → r ≤ serverRevision

def Accepted (plan : ItemLevelSyncPlan) (result : ItemLevelSyncPushResult) : Prop :=
  ∃ answers, List.Forall₂ (AnswerOk result.serverRevision) plan.operations answers ∧
    result.conflicts = answers.filterMap Answer.conflict? ∧
    result.applied.mutationReceipts.Perm (answers.filterMap Answer.receipt?)

/-- Between the first read of the attempt that answers and its last one, the
user's revision stays, or the rows and receipts that the plan names do. -/
def ReadsAgree (u : UserId) (plan : ItemLevelSyncPlan) (tr : List SyncStep) : Prop :=
  ∀ old s₁ s₂ s₃ rest, tr = old ++ [queryStep s₁, queryStep s₂, queryStep s₃] ++ rest →
    (∀ e ∈ rest, e.label ≠ .query) →
      s₃.serverRevision u = s₁.serverRevision u ∨
        ∀ op ∈ plan.operations, s₂.ownRow u op.id = s₁.ownRow u op.id ∧
          s₃.itemSyncMutations.get? (u, op.clientMutationId) = s₁.itemSyncMutations.get? (u, op.clientMutationId)

section
variable {F : Formats} {u : UserId} {plan : ItemLevelSyncPlan}

theorem answerOk_of_result {n : Nat} {op : Operation} {result : ReceiptResult} (h : result.Answers n op) :
    AnswerOk n op (result.answer op.clientMutationId) := by
  cases result with
  | applied kind id r => exact ⟨rfl, h.2.1, h.1, h.2.2.1, h.2.2.2⟩
  | conflict c => exact h

/-- An attempt whose reads are of one revision, or agree on what the plan names. -/
theorem attempt_accepted {env : Nat → Env} {s₁ s₂ s₃ : Db} {st : PushState} {n : Nat}
    (hst : LoopResult (env n) (pushViewAt u plan s₁ s₂ s₃) plan.operations st)
    (h12 : s₁.serverRevision u ≤ s₂.serverRevision u) (h23 : s₂.serverRevision u ≤ s₃.serverRevision u)
    (h1 : Answerable u s₁) (h2 : Answerable u s₂) (h3 : Answerable u s₃)
    (hquiet : s₃.serverRevision u = s₁.serverRevision u ∨
      ∀ op ∈ plan.operations, s₂.ownRow u op.id = s₁.ownRow u op.id ∧
        s₃.itemSyncMutations.get? (u, op.clientMutationId) = s₁.itemSyncMutations.get? (u, op.clientMutationId)) :
    Accepted plan (st.pushResult (pushViewAt u plan s₁ s₂ s₃)) := by
  obtain ⟨hconf, hrec⟩ := pushResult_answers hst
  refine ⟨_, ?_, hconf, hrec⟩
  rw [List.forall₂_map_right_iff, List.forall₂_same]
  intro op hop
  have hown : ∀ (s : Db), Bounded u s → ∀ row, s.ownRow u op.id = some row → row.revision ≤ s.serverRevision u := by
    intro s hs row hrow
    obtain ⟨hrow, howner⟩ := ownRow_eq_some.mp hrow
    exact hs op.id row hrow howner
  have hbounds : (∀ row, s₂.ownRow u op.id = some row → row.revision ≤ s₁.serverRevision u) ∧
      ∀ row, s₃.itemSyncMutations.get? (u, op.clientMutationId) = some row → ReceiptOk (s₁.serverRevision u) row := by
    rcases hquiet with hsame | hsame
    · refine ⟨fun row hrow => ?_, fun row hrow => hsame ▸ h3.receipts _ row hrow⟩
      have hle := hown s₂ h2.rows row hrow
      omega
    · obtain ⟨hrows, hreceipts⟩ := hsame op hop
      rw [hrows, hreceipts]
      exact ⟨hown s₁ h1.rows, h1.receipts op.clientMutationId⟩
  obtain ⟨result, hresult, hanswer⟩ := answer_bounded n hst hop hbounds.1 hbounds.2
  rw [hanswer]
  exact answerOk_of_result hresult

end

/-! ## The checks of the client -/

section
variable {κ : Type} {plan : ItemLevelSyncPlan} {result : ItemLevelSyncPushResult} {l : Browser.Locals κ}

theorem answers_counted (answers : List Answer) :
    (answers.filterMap Answer.receipt?).length + (answers.filterMap Answer.conflict?).length = answers.length := by
  induction answers with
  | nil => rfl
  | cons a answers ih =>
    rw [List.filterMap_cons, List.filterMap_cons, List.length_cons]
    cases a with
    | receipt r =>
      simp only [Answer.receipt?, Answer.conflict?, List.length_cons]
      omega
    | conflict c =>
      simp only [Answer.receipt?, Answer.conflict?, List.length_cons]
      omega

structure Pairs (plan : ItemLevelSyncPlan) (result : ItemLevelSyncPushResult) (pairs : List (Operation × Answer)) :
    Prop where
  operations : pairs.map Prod.fst = plan.operations
  ok : ∀ p ∈ pairs, AnswerOk result.serverRevision p.1 p.2
  conflicts : result.conflicts = pairs.filterMap fun p => p.2.conflict?
  receipts : result.applied.mutationReceipts.Perm (pairs.filterMap fun p => p.2.receipt?)

theorem Accepted.pairs (h : Accepted plan result) : ∃ pairs, Pairs plan result pairs := by
  obtain ⟨answers, hall, hconf, hrec⟩ := h
  obtain ⟨hlength, hzip⟩ := List.forall₂_iff_zip.mp hall
  have hsnd : (plan.operations.zip answers).map Prod.snd = answers := List.map_snd_zip (Nat.le_of_eq hlength.symm)
  have hmap {α : Type} (g : Answer → Option α) :
      (plan.operations.zip answers).filterMap (fun p => g p.2) = answers.filterMap g :=
    (List.filterMap_map (f := Prod.snd) (g := g)).symm.trans (congrArg (List.filterMap g) hsnd)
  refine ⟨plan.operations.zip answers, List.map_fst_zip (Nat.le_of_eq hlength), fun p hp => hzip hp, ?_, ?_⟩
  · rw [hmap Answer.conflict?, hconf]
  · rw [hmap Answer.receipt?]
    exact hrec

variable {pairs : List (Operation × Answer)}

theorem Pairs.receipt (h : Pairs plan result pairs) {r : AppliedMutationReceipt}
    (hr : r ∈ result.applied.mutationReceipts) : ∃ op, (op, .receipt r) ∈ pairs := by
  obtain ⟨⟨op, a⟩, hp, ha⟩ := List.mem_filterMap.mp (h.receipts.mem_iff.mp hr)
  cases a with
  | receipt r' =>
    cases ha
    exact ⟨op, hp⟩
  | conflict c => cases ha

theorem Pairs.conflict (h : Pairs plan result pairs) {c : ItemLevelSyncConflict} (hc : c ∈ result.conflicts) :
    ∃ op, (op, .conflict c) ∈ pairs := by
  rw [h.conflicts] at hc
  obtain ⟨⟨op, a⟩, hp, ha⟩ := List.mem_filterMap.mp hc
  cases a with
  | receipt r => cases ha
  | conflict c' =>
    cases ha
    exact ⟨op, hp⟩

theorem Pairs.mem (h : Pairs plan result pairs) {op : Operation} {a : Answer} (hp : (op, a) ∈ pairs) :
    op ∈ plan.operations :=
  h.operations ▸ List.mem_map_of_mem (f := Prod.fst) hp

/-- What a sublist of the answers names is named once if the operations are. -/
theorem nodup_answers {α β : Type} {f : Operation → β} {g : Answer → Option α} {k : α → β}
    (hok : ∀ p ∈ pairs, ∀ a, g p.2 = some a → k a = f p.1) (hn : ((pairs.map Prod.fst).map f).Nodup) :
    ((pairs.filterMap fun p => g p.2).map k).Nodup := by
  refine List.Sublist.nodup ?_ hn
  clear hn
  induction pairs with
  | nil => exact List.Sublist.refl _
  | cons p pairs ih =>
    have htail := ih fun q hq => hok q (List.mem_cons_of_mem _ hq)
    rw [List.filterMap_cons]
    cases hg : g p.2 with
    | none => exact htail.cons _
    | some a =>
      rw [List.map_cons, List.map_cons, List.map_cons, hok p List.mem_cons_self a hg]
      exact htail.cons_cons _

section
variable (h : Pairs plan result pairs) (hids : (plan.operations.map (·.id)).Nodup)
variable (hmids : (plan.operations.map (·.clientMutationId)).Nodup)
include h hmids

theorem Pairs.receipts_nodup : (result.applied.mutationReceipts.map (·.clientMutationId)).Nodup := by
  refine (h.receipts.map _).nodup_iff.mpr (nodup_answers (f := (·.clientMutationId)) (g := Answer.receipt?) ?_ ?_)
  · intro p hp r hr
    have hok := h.ok p hp
    cases ha : p.2 with
    | receipt r' =>
      rw [ha] at hr hok
      cases hr
      exact hok.1
    | conflict c =>
      rw [ha] at hr
      cases hr
  · rw [h.operations]
    exact hmids

omit hmids in
include hids in
theorem Pairs.conflicts_nodup : (result.conflicts.map (·.itemId)).Nodup := by
  rw [h.conflicts]
  refine nodup_answers (f := (·.id)) (g := Answer.conflict?) ?_ ?_
  · intro p hp c hc
    have hok := h.ok p hp
    cases ha : p.2 with
    | receipt r =>
      rw [ha] at hc
      cases hc
    | conflict c' =>
      rw [ha] at hc hok
      cases hc
      exact hok.1
  · rw [h.operations]
    exact hids

omit h in
theorem operationsById_get? {op : Operation} (hop : op ∈ plan.operations) :
    (Browser.operationsById plan).get? op.clientMutationId = some op := by
  have hsome : ((Browser.operationsById plan).get? op.clientMutationId).isSome :=
    Browser.foldl_set_some (.inr (List.mem_map_of_mem hop))
  obtain ⟨op', hget⟩ := Option.isSome_iff_exists.mp hsome
  obtain ⟨hop', hm⟩ := Browser.operationsById_mem hget
  rw [hget, List.inj_on_of_nodup_map hmids hop' hop hm]

omit h in
theorem operationsById_rows : (Browser.operationsById plan).rows.length = plan.operations.length := by
  have hperm : ((Browser.operationsById plan).rows.map Prod.fst).Perm (plan.operations.map (·.clientMutationId)) := by
    refine (List.perm_ext_iff_of_nodup (Browser.operationsById plan).nodup hmids).mpr fun m => ?_
    constructor
    · intro hm
      obtain ⟨⟨m', op⟩, hrow, rfl⟩ := List.mem_map.mp hm
      obtain ⟨hop, rfl⟩ := Browser.operationsById_mem (Table.mem_rows.mp hrow)
      exact List.mem_map_of_mem hop
    · intro hm
      obtain ⟨op, hop, rfl⟩ := List.mem_map.mp hm
      exact List.mem_map_of_mem (f := Prod.fst) (Table.mem_rows.mpr (operationsById_get? hmids hop))
  rw [← List.length_map (f := Prod.fst), hperm.length_eq, List.length_map]

theorem Pairs.checkReceipts {receipts : List AppliedMutationReceipt} {seen : List MutationId}
    (hsub : ∀ r ∈ receipts, r ∈ result.applied.mutationReceipts) (hn : (receipts.map (·.clientMutationId)).Nodup)
    (hseen : ∀ r ∈ receipts, r.clientMutationId ∉ seen) :
    ∃ seen', receipts.foldlM (Browser.checkReceipt (Browser.operationsById plan) result.serverRevision) seen =
      .ok seen' := by
  induction receipts generalizing seen with
  | nil => exact ⟨seen, rfl⟩
  | cons r receipts ih =>
    rw [List.map_cons, List.nodup_cons] at hn
    obtain ⟨op, hp⟩ := h.receipt (hsub r List.mem_cons_self)
    obtain ⟨hm, hid, hk, hlt, hle⟩ := h.ok _ hp
    have hcheck : Browser.checkReceipt (Browser.operationsById plan) result.serverRevision seen r =
        .ok (r.clientMutationId :: seen) := by
      unfold Browser.checkReceipt
      rw [hm, operationsById_get? hmids (h.mem hp)]
      dsimp only
      rw [if_neg]
      rintro (hin | hne | hne | hbase | hbound)
      · exact hseen r List.mem_cons_self (hm ▸ hin)
      · exact hne hid.symm
      · exact hne hk.symm
      · exact Nat.not_le.mpr hlt hbase
      · exact Nat.not_lt.mpr hle hbound
    obtain ⟨seen', htail⟩ := @ih (r.clientMutationId :: seen) (fun r' hr' => hsub r' (List.mem_cons_of_mem _ hr')) hn.2
      fun r' hr' hin => by
        rcases List.mem_cons.mp hin with he | hin
        · exact hn.1 (he ▸ List.mem_map_of_mem hr')
        · exact hseen r' (List.mem_cons_of_mem _ hr') hin
    refine ⟨seen', ?_⟩
    rw [List.foldlM_cons, hcheck]
    exact htail

include hids in
theorem Pairs.checkConflicts {conflicts : List ItemLevelSyncConflict} {seen : List MutationId}
    {conflicting : List ItemId} (hsub : ∀ c ∈ conflicts, c ∈ result.conflicts)
    (hn : (conflicts.map (·.itemId)).Nodup) (hnew : ∀ c ∈ conflicts, c.itemId ∉ conflicting)
    (hseen : ∀ m ∈ seen, m ∈ result.applied.mutationReceipts.map (·.clientMutationId)) :
    ∃ conflicting', conflicts.foldlM (Browser.checkConflict (Browser.operationsById plan) seen) conflicting =
      .ok conflicting' := by
  -- the ids seen so far are distinct from those to come
  induction conflicts generalizing conflicting with
  | nil => exact ⟨conflicting, rfl⟩
  | cons c conflicts ih =>
    rw [List.map_cons, List.nodup_cons] at hn
    obtain ⟨op, hp⟩ := h.conflict (hsub c List.mem_cons_self)
    obtain ⟨hid, hk, hbase, -⟩ := h.ok _ hp
    have hop := h.mem hp
    have hfind : ((Browser.operationsById plan).rows.map Prod.snd).find? (·.id = c.itemId) = some op := by
      have hrow : op ∈ (Browser.operationsById plan).rows.map Prod.snd :=
        List.mem_map_of_mem (f := Prod.snd) (Table.mem_rows.mpr (operationsById_get? hmids hop))
      cases hf : ((Browser.operationsById plan).rows.map Prod.snd).find? (·.id = c.itemId) with
      | none =>
        have hno := List.find?_eq_none.mp hf op hrow
        exact absurd (decide_eq_true hid.symm) hno
      | some op' =>
        obtain ⟨⟨m, op''⟩, hrow', rfl⟩ := List.mem_map.mp (List.mem_of_find?_eq_some hf)
        have hid' := List.find?_some hf
        have hid' : op''.id = c.itemId := of_decide_eq_true hid'
        rw [List.inj_on_of_nodup_map hids (Browser.operationsById_mem (Table.mem_rows.mp hrow')).1 hop (hid'.trans hid)]
    have hcheck : Browser.checkConflict (Browser.operationsById plan) seen conflicting c =
        .ok (c.itemId :: conflicting) := by
      unfold Browser.checkConflict
      rw [hfind]
      dsimp only
      rw [if_neg]
      rintro (hin | hne | hne | hin)
      · exact hnew c List.mem_cons_self hin
      · exact hne hk.symm
      · exact hne hbase.symm
      · -- the mutation is answered by a conflict, so by no receipt
        obtain ⟨r, hr, hm⟩ := List.mem_map.mp (hseen _ hin)
        obtain ⟨op', hp'⟩ := h.receipt hr
        have hkeys : (pairs.map (·.1.clientMutationId)).Nodup := by
          rw [show pairs.map (·.1.clientMutationId) = (pairs.map Prod.fst).map (·.clientMutationId) by
            rw [List.map_map]; rfl, h.operations]
          exact hmids
        have hsame := List.inj_on_of_nodup_map hkeys hp' hp ((h.ok _ hp').1.symm.trans hm)
        cases hsame
    obtain ⟨conflicting', htail⟩ := @ih (c.itemId :: conflicting) (fun c' hc' => hsub c' (List.mem_cons_of_mem _ hc')) hn.2
      fun c' hc' hin => by
        rcases List.mem_cons.mp hin with he | hin
        · exact hn.1 (he ▸ List.mem_map_of_mem hc')
        · exact hnew c' (List.mem_cons_of_mem _ hc') hin
    refine ⟨conflicting', ?_⟩
    rw [List.foldlM_cons, hcheck]
    exact htail

end

theorem except_bind_error {ε α β : Type} {a : Except ε α} {f : α → Except ε β} {e : ε} (h : (a >>= f) = .error e) :
    a = .error e ∨ ∃ x, a = .ok x ∧ f x = .error e := by
  cases a with
  | error e' =>
    cases h
    exact .inl rfl
  | ok x => exact .inr ⟨x, rfl, h⟩

theorem applyReceipts_error {receipts : List AppliedMutationReceipt} {state : Browser.SyncState}
    {e : Browser.SyncVaultError} (h : receipts.foldlM Browser.applyReceipt state = .error e) : e = .typeError := by
  induction receipts generalizing state with
  | nil => cases h
  | cons r receipts ih =>
    rw [List.foldlM_cons] at h
    cases hr : Browser.applyReceipt state r with
    | ok state' =>
      rw [hr] at h
      exact ih h
    | error e' =>
      rw [hr] at h
      cases h
      unfold Browser.applyReceipt at hr
      split at hr
      · cases hr
      split at hr
      · cases hr
        rfl
      · cases hr

/-- No check of the client fails on an accepted answer that is not older than what it knows. -/
theorem receivePush_accepts (h : Accepted plan result) (hids : (plan.operations.map (·.id)).Nodup)
    (hmids : (plan.operations.map (·.clientMutationId)).Nodup)
    (hrevision : l.state.serverRevision ≤ result.serverRevision) {e : Browser.SyncVaultError}
    (he : Browser.receivePush l plan result = .error e) :
    e ≠ .syncReceiptInvalid ∧ e ≠ .syncConflictInvalid ∧ e ≠ .syncReceiptMissing := by
  obtain ⟨pairs, hpairs⟩ := h.pairs
  obtain ⟨seen, hseen⟩ := @Pairs.checkReceipts _ _ _ hpairs hmids _ [] (fun _ h => h) (hpairs.receipts_nodup hmids)
    fun _ _ => List.not_mem_nil
  obtain ⟨hmem, -⟩ := Browser.checkReceipts_ok hseen
  obtain ⟨conflicting, hconflicting⟩ := @Pairs.checkConflicts _ _ _ hpairs hids hmids _ seen [] (fun _ h => h)
    (hpairs.conflicts_nodup hids) (fun _ _ => List.not_mem_nil) fun m hm => ((hmem m).mp hm).resolve_left List.not_mem_nil
  have hcount : result.applied.mutationReceipts.length + result.conflicts.length =
      (Browser.operationsById plan).rows.length := by
    obtain ⟨answers, hall, hconf, hrec⟩ := h
    rw [operationsById_rows hmids, hconf, hrec.length_eq, answers_counted, hall.length_eq]
  have happlies : e = .typeError := by
    unfold Browser.receivePush at he
    dsimp only at he
    rw [if_neg (Nat.not_lt.mpr hrevision)] at he
    rcases except_bind_error he with h1 | ⟨seen', h1, he⟩
    · rw [hseen] at h1
      cases h1
    cases hseen.symm.trans h1
    rcases except_bind_error he with h2 | ⟨-, -, he⟩
    · rw [hconflicting] at h2
      cases h2
    rw [if_neg (not_not.mpr hcount)] at he
    rcases except_bind_error he with h3 | ⟨state, -, he⟩
    · exact applyReceipts_error h3
    · cases he
  subst happlies
  exact ⟨nofun, nofun, nofun⟩

end

/-! ## Every interleaving -/

section
variable {F : Formats} {s₀ s : Db} {h : SyncHistory} {ps : List (Proc SyncCall Db (Access SyncStmt) SyncResult)}
variable {u : UserId} {i : Nat} {env : Nat → Env} {plan : ItemLevelSyncPlan} {result : ItemLevelSyncPushResult}

theorem answer_reads (hr : Reach SyncCall.code (·.Valid F) s₀ h s ps)
    (hp : ps[i]? = some ⟨.pushItemLevelSync env u plan, .ret (.pushItemLevelSync (.ok result))⟩)
    (hne : plan.operations ≠ []) :
    ∃ old s₁ s₂ s₃ rest st n, own i h = old ++ [queryStep s₁, queryStep s₂, queryStep s₃] ++ rest ∧
      (∀ e ∈ rest, e.label ≠ .query) ∧
      LoopResult (env n) (pushViewAt u plan s₁ s₂ s₃) plan.operations st ∧
      result = st.pushResult (pushViewAt u plan s₁ s₂ s₃) ∧
      s₁.serverRevision u ≤ s₂.serverRevision u ∧ s₂.serverRevision u ≤ s₃.serverRevision u ∧
      result.serverRevision ≤ s.serverRevision u := by
  obtain ⟨old, s₁, s₂, s₃, st, ⟨hu, n, hst⟩, rfl, htr⟩ := reach_result valid_sat hr hp
  have hfences : Before (Fences u) (own i h) s := ((along_own hr).before hr i).mono fun _ _ h => (h u).toFences
  have hreads {rest : List SyncStep} (htr : own i h = old ++ [queryStep s₁, queryStep s₂, queryStep s₃] ++ rest) :
      s₁.serverRevision u ≤ s₂.serverRevision u ∧ s₂.serverRevision u ≤ s₃.serverRevision u ∧
        s₁.serverRevision u ≤ s.serverRevision u := by
    have hpair := hfences.pairwise
    rw [htr, List.append_assoc, List.pairwise_append] at hpair
    have hreads := (List.pairwise_append.mp hpair.2.1).1
    have h1 : Fences u s₁ s := hfences.now (queryStep s₁) (by rw [htr]; simp)
    have h12 : Fences u s₁ s₂ := (List.pairwise_cons.mp hreads).1 (queryStep s₂) (by simp)
    have h23 : Fences u s₂ s₃ :=
      (List.pairwise_cons.mp (List.pairwise_cons.mp hreads).2).1 (queryStep s₃) (by simp)
    exact ⟨h12.revision, h23.revision, h1.revision⟩
  -- the attempt that answered ran no batch, or committed one
  rcases htr with hops | ⟨hnil, htr⟩ | ⟨b, a, htr⟩
  · exact absurd hops hne
  · have htr' : own i h = old ++ [queryStep s₁, queryStep s₂, queryStep s₃] ++ [] := by rw [List.append_nil]; exact htr
    obtain ⟨h12, h23, h1⟩ := hreads htr'
    refine ⟨old, s₁, s₂, s₃, [], st, n, htr', fun _ he => absurd he List.not_mem_nil, hst, rfl, h12, h23, ?_⟩
    show st.serverRevision (pushViewAt u plan s₁ s₂ s₃) ≤ _
    have hw : st.hasStateWrite = false := by
      cases hw : st.hasStateWrite with
      | false => rfl
      | true =>
        have hclaim : .claimRevision u (s₁.serverRevision u + 1) ∈ st.batchStmts (pushViewAt u plan s₁ s₂ s₃) :=
          (batchStmts_claim hw).1
        rw [hnil] at hclaim
        cases hclaim
    unfold PushState.serverRevision
    rw [hw]
    exact h1
  · obtain ⟨h12, h23, h1⟩ := hreads htr
    refine ⟨old, s₁, s₂, s₃, _, st, n, htr, fun e he => by rw [List.mem_singleton.mp he]; exact nofun, hst, rfl, h12,
      h23, ?_⟩
    show st.serverRevision (pushViewAt u plan s₁ s₂ s₃) ≤ _
    unfold PushState.serverRevision
    split
    · -- the batch that was committed set the revision
      rename_i hw
      obtain ⟨p, hp', hg⟩ := reach_own_step valid_sat hr htr
      cases hp.symm.trans hp'
      have hx : execBatch (st.batchStmts (pushViewAt u plan s₁ s₂ s₃)) b = some a := hg.1
      have hbefore := (List.pairwise_append.mp (htr ▸ hfences.pairwise)).2.2
      have hb : Fences u s₁ b := hbefore (queryStep s₁) (by simp) _ (List.mem_singleton_self _)
      have hwrite : StateWrite u (s₁.serverRevision u + 1) _ := batchStmts_stateWrite hst hw
      have hset : a.serverRevision u = s₁.serverRevision u + 1 :=
        batch_serverRevision_set hx (hb.users hu) hwrite.set hwrite.sets
      have ha : Fences u a s :=
        hfences.now ⟨.commit (st.batchStmts (pushViewAt u plan s₁ s₂ s₃)), b, a⟩ (by rw [htr]; simp)
      have hle := ha.revision
      have hnext : (pushViewAt u plan s₁ s₂ s₃).nextRevision = s₁.serverRevision u + 1 := rfl
      omega
    · exact h1

/-- In every run of pushes of any users, a push that was not disturbed between
its reads gives an answer that no check of the client refuses, at a revision
that the store has reached. -/
theorem answers_accepted (hr : Reach SyncCall.code (·.Valid F) s₀ h s ps) (h0 : Answerable u s₀)
    (hp : ps[i]? = some ⟨.pushItemLevelSync env u plan, .ret (.pushItemLevelSync (.ok result))⟩)
    (hquiet : ReadsAgree u plan (own i h)) :
    Answerable u s ∧ Accepted plan result ∧
      (plan.operations ≠ [] → result.serverRevision ≤ s.serverRevision u ∧
        ∀ h₁ h₂ c, h = h₁ ++ .issue i c :: h₂ → ∀ (κ : Type) (l : Browser.Locals κ),
          l.state.serverRevision ≤ (storeAfter s₀ h₁).serverRevision u →
            ∀ e, Browser.receivePush l plan result = .error e →
              e ≠ .syncReceiptInvalid ∧ e ≠ .syncConflictInvalid ∧ e ≠ .syncReceiptMissing) := by
  refine ⟨reach_answerable hr h0, ?_⟩
  by_cases hops : plan.operations = []
  · obtain ⟨-, s₁, s₂, s₃, st, ⟨-, n, hst⟩, rfl, -⟩ := reach_result valid_sat hr hp
    obtain ⟨hconf, hrec⟩ := pushResult_answers hst
    rw [hops] at hconf hrec
    exact ⟨⟨[], hops ▸ .nil, hconf, hrec⟩, fun hne => absurd hops hne⟩
  obtain ⟨old, s₁, s₂, s₃, rest, st, n, htr, hrest, hst, rfl, h12, h23, hle⟩ := answer_reads hr hp hops
  have hstore (t : Db) (ht : queryStep t ∈ own i h) : Answerable u t := own_answerable hr h0 ht
  have haccepted : Accepted plan (st.pushResult (pushViewAt u plan s₁ s₂ s₃)) :=
    attempt_accepted hst h12 h23 (hstore s₁ (by rw [htr]; simp)) (hstore s₂ (by rw [htr]; simp))
      (hstore s₃ (by rw [htr]; simp)) (hquiet old s₁ s₂ s₃ rest htr hrest)
  refine ⟨haccepted, fun _ => ⟨hle, fun h₁ h₂ c hh κ l hl e he => ?_⟩⟩
  have hv : itemLevelSyncPlanSchema F plan = true := reach_ok hr _ (List.mem_of_getElem? hp)
  obtain ⟨hids, hmids⟩ := schema_nodup hv
  refine receivePush_accepts haccepted hids hmids ?_ he
  subst hh
  have hissued : OwnRely u (storeAfter s₀ h₁) s₁ :=
    (along_own hr).issued hr (queryStep s₁) (by rw [htr]; simp) u
  have hanswer : s₁.serverRevision u ≤ st.serverRevision (pushViewAt u plan s₁ s₂ s₃) := by
    unfold PushState.serverRevision
    split
    · exact Nat.le_succ _
    · exact Nat.le_refl _
  exact Nat.le_trans hl (Nat.le_trans hissued.revision hanswer)

end

/-! ## A retry that meets its first try -/

theorem readsAgree_of_revision {u : UserId} {plan : ItemLevelSyncPlan} {tr : List SyncStep} {n : Nat}
    (h : ∀ d ∈ tr, d.before.serverRevision u = n) : ReadsAgree u plan tr := by
  intro old s₁ s₂ s₃ rest htr _
  have h1 : s₁.serverRevision u = n := h (queryStep s₁) (by rw [htr]; simp)
  have h3 : s₃.serverRevision u = n := h (queryStep s₃) (by rw [htr]; simp)
  exact .inl (h3.trans h1.symm)

theorem answers_accepted_racingPushes : ∃ result,
    racingPushes.2.2[0]? = some ⟨samplePush, .ret (.pushItemLevelSync (.ok result))⟩ ∧
      Accepted ⟨0, [sampleUpsert], []⟩ result := by
  have h0 : Answerable sampleUser twoUsers :=
    ⟨fun id row hrow => absurd hrow (by rw [twoUsers, Table.get?_empty]; exact nofun),
      fun m row hrow => absurd hrow (by rw [twoUsers, Table.get?_empty]; exact nofun)⟩
  have hreads : (own 0 racingPushes.1).all (fun d => d.before.serverRevision sampleUser == 0) = true := by decide +kernel
  have hquiet : ReadsAgree sampleUser ⟨0, [sampleUpsert], []⟩ (own 0 racingPushes.1) :=
    readsAgree_of_revision fun d hd => by simpa using List.all_eq_true.mp hreads d hd
  exact ⟨_, rfl, (answers_accepted racingPushes_reach h0 rfl hquiet).2.1⟩

/-- The second copy reads the user's row, then the first one commits. -/
def retriedPush : Play SyncCall Db (Access SyncStmt) SyncResult :=
  play SyncCall.code sampleStore
    [.issue samplePush, .issue samplePush, .step 1, .step 0, .step 0, .step 0, .step 0, .step 1, .step 1]

/-- The retry is answered by the receipt of the first try, which is ahead of the
revision that it answers. -/
theorem retry_rejected : ¬ ∀ h s ps, Reach SyncCall.code (·.Valid sampleFormats) sampleStore h s ps →
    ∀ (i : Nat) env u plan result,
      ps[i]? = some ⟨.pushItemLevelSync env u plan, .ret (.pushItemLevelSync (.ok result))⟩ →
      Accepted plan result ∧ ∀ (l : Browser.Locals Unit), l.state.serverRevision ≤ sampleStore.serverRevision u →
        Browser.receivePush l plan result ≠ .error .syncReceiptInvalid := by
  intro hall
  have hr : Reach SyncCall.code (·.Valid sampleFormats) sampleStore retriedPush.1 retriedPush.2.1 retriedPush.2.2 :=
    play_reach fun c hc => by
      simp only [List.mem_cons, Move.issue.injEq, reduceCtorEq, List.not_mem_nil, or_false, or_self] at hc
      subst hc
      exact samplePush_valid
  obtain ⟨result, hp, hrejected⟩ : ∃ result,
      retriedPush.2.2[1]? = some ⟨samplePush, .ret (.pushItemLevelSync (.ok result))⟩ ∧
        Browser.receivePush ⟨Browser.emptySyncState, ⟨(), []⟩, 0, []⟩ ⟨0, [sampleUpsert], []⟩ result =
          .error .syncReceiptInvalid :=
    ⟨_, rfl, rfl⟩
  exact (hall _ _ _ hr 1 _ _ _ _ hp).2 ⟨Browser.emptySyncState, ⟨(), []⟩, 0, []⟩ (Nat.zero_le _) hrejected

end ZeroVault

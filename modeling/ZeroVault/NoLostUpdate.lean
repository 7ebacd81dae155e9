import ZeroVault.SyncStoreSound

/-!
# No lost update

The pushes of one user, interleaved access by access. A push checks revisions
on rows it read before its batch; what makes that safe is the claim table:
every revision between the one a push read and the current one is claimed, so
a batch that commits its claim was prepared on the current rows (`Rely`).
-/

namespace ZeroVault

open Lib

def SyncCall.Valid (F : Formats) : SyncCall → Prop
  | pushVault _ _ request => syncPushRequestSchema F request = true
  | pushItemLevelSync _ _ plan => itemLevelSyncPlanSchema F plan = true

def Bounded (u : UserId) (s : Db) : Prop :=
  ∀ id row, s.vaultItems.get? id = some row → row.userId = u → row.revision ≤ s.serverRevision u

/-- What the user's pushes do to the store between two of its states. -/
structure Rely (u : UserId) (s s' : Db) : Prop where
  users : s.users.contains u = true → s'.users.contains u = true
  revision : s.serverRevision u ≤ s'.serverRevision u
  claims : ∀ r, s.itemSyncRevisionClaims.get? (u, r) = some () → s'.itemSyncRevisionClaims.get? (u, r) = some ()
  claimed : ∀ r, s.serverRevision u < r → r ≤ s'.serverRevision u → s'.itemSyncRevisionClaims.get? (u, r) = some ()
  rows : s'.serverRevision u = s.serverRevision u → ∀ id, s'.vaultItems.get? id = s.vaultItems.get? id
  bounded : Bounded u s → Bounded u s'

section
variable {u : UserId} {s s' s₁ s₂ s₃ : Db}

theorem Rely.refl (u : UserId) (s : Db) : Rely u s s where
  users := id
  revision := Nat.le_refl _
  claims := fun _ => id
  claimed := fun _ h h' => absurd h (Nat.not_lt.mpr h')
  rows := fun _ _ => rfl
  bounded := id

/-- What pushes of any users do to a user's row and claims between two states. -/
structure Fences (u : UserId) (s s' : Db) : Prop where
  users : s.users.contains u = true → s'.users.contains u = true
  revision : s.serverRevision u ≤ s'.serverRevision u
  claims : ∀ r, s.itemSyncRevisionClaims.get? (u, r) = some () → s'.itemSyncRevisionClaims.get? (u, r) = some ()
  claimed : ∀ r, s.serverRevision u < r → r ≤ s'.serverRevision u → s'.itemSyncRevisionClaims.get? (u, r) = some ()

theorem Rely.fences (h : Rely u s s') : Fences u s s' := ⟨h.users, h.revision, h.claims, h.claimed⟩

theorem Fences.trans (h₁₂ : Fences u s₁ s₂) (h₂₃ : Fences u s₂ s₃) : Fences u s₁ s₃ where
  users := h₂₃.users ∘ h₁₂.users
  revision := Nat.le_trans h₁₂.revision h₂₃.revision
  claims := fun r h => h₂₃.claims r (h₁₂.claims r h)
  claimed := by
    intro r h h'
    by_cases hr : r ≤ s₂.serverRevision u
    · exact h₂₃.claims r (h₁₂.claimed r h hr)
    · exact h₂₃.claimed r (Nat.not_le.mp hr) h'

theorem Rely.trans (h₁₂ : Rely u s₁ s₂) (h₂₃ : Rely u s₂ s₃) : Rely u s₁ s₃ where
  users := h₂₃.users ∘ h₁₂.users
  revision := Nat.le_trans h₁₂.revision h₂₃.revision
  claims := (h₁₂.fences.trans h₂₃.fences).claims
  claimed := (h₁₂.fences.trans h₂₃.fences).claimed
  rows := by
    intro he id
    have h1 := h₁₂.revision
    have h2 := h₂₃.revision
    rw [h₂₃.rows (by omega) id, h₁₂.rows (by omega) id]
  bounded := h₂₃.bounded ∘ h₁₂.bounded

/-- A batch that claims the revision after the one it read was prepared on the
current revision. -/
theorem Fences.current (h : Fences u s s') {stmts : List SyncStmt} {s'' : Db} (hx : execBatch stmts s' = some s'')
    (hc : .claimRevision u (s.serverRevision u + 1) ∈ stmts) : s'.serverRevision u = s.serverRevision u := by
  by_contra hne
  have hle := h.revision
  have := h.claimed (s.serverRevision u + 1) (Nat.lt_succ_self _) (by omega)
  rw [(batch_claimRevision hx hc).1] at this
  cases this

/-! ## Batches -/

variable {stmts : List SyncStmt} {n : Nat}

/-- A batch of user `u` that writes state at the next revision, and claims it. -/
structure StateWrite (u : UserId) (n : Nat) (stmts : List SyncStmt) : Prop extends Writes u n stmts where
  claim : .claimRevision u n ∈ stmts
  set : .setServerRevision u n ∈ stmts
  sets : ∀ r, .setServerRevision u r ∈ stmts → r = n

theorem RowStep.bounded {r r' : Option VaultItemRow} (h : RowStep u n r r')
    (hb : ∀ row, r = some row → row.userId = u → row.revision ≤ n) :
    ∀ row, r' = some row → row.userId = u → row.revision ≤ n := by
  rcases h with rfl | ⟨row', rfl, -, hn, -⟩
  · exact hb
  · intro row he _
    cases he
    exact Nat.le_of_eq hn

theorem StateWrite.rely (hw : StateWrite u (s.serverRevision u + 1) stmts) (hu : s.users.contains u = true)
    (hx : execBatch stmts s = some s') : s'.serverRevision u = s.serverRevision u + 1 ∧ Rely u s s' := by
  have hrev : s'.serverRevision u = s.serverRevision u + 1 := batch_serverRevision_set hx hu hw.set hw.sets
  refine ⟨hrev, ?_⟩
  exact {
    users := fun _ => by rw [batch_users hx, hu]
    revision := by omega
    claims := fun r => batch_claims hx (u, r)
    claimed := by
      intro r h h'
      rw [show r = s.serverRevision u + 1 by omega]
      exact (batch_claimRevision hx hw.claim).2
    rows := fun he => by omega
    bounded := by
      intro hb id
      rw [hrev]
      exact (batch_rows hw.toWrites hx id).bounded fun row hr hu =>
        Nat.le_succ_of_le (hb id row hr hu) }

/-- A batch of receipts leaves the items and the server revision alone. -/
theorem quiet_rely (hq : ∀ q ∈ stmts, ∃ m row, q = .insertMutation u m row) (hx : execBatch stmts s = some s') :
    s'.serverRevision u = s.serverRevision u ∧ (∀ id, s'.vaultItems.get? id = s.vaultItems.get? id) ∧
      Rely u s s' := by
  have hrev : s'.serverRevision u = s.serverRevision u := by
    refine batch_serverRevision_eq hx fun r hr => ?_
    obtain ⟨m, row, he⟩ := hq _ hr
    cases he
  have hrows : ∀ id, s'.vaultItems.get? id = s.vaultItems.get? id := by
    intro id
    refine batch_row_eq hx fun q hm r => ?_
    obtain ⟨m, row, rfl⟩ := hq q hm
    exact nofun
  refine ⟨hrev, hrows, ?_⟩
  exact {
    users := fun h => by rw [batch_users hx, h]
    revision := Nat.le_of_eq hrev.symm
    claims := fun r => batch_claims hx (u, r)
    claimed := fun r h h' => by omega
    rows := fun _ => hrows
    bounded := fun hb id row hr hu => by
      rw [hrows] at hr
      rw [hrev]
      exact hb id row hr hu }

/-! ## The two kinds of push -/

theorem legacyUpsertStmts_cases {env : Env} {item : VaultItemCiphertext} {i : Nat} {q : SyncStmt}
    (h : q ∈ legacyUpsertStmts env u n item i) :
    q.userId = u ∧ (∀ id r, q.write? = some (id, r) → r = n) ∧ (∀ v r, q ≠ .setServerRevision v r) ∧
      ∀ v m row, q ≠ .insertMutation v m row := by
  simp only [legacyUpsertStmts, List.mem_cons, List.not_mem_nil, or_false] at h
  rcases h with rfl | rfl | rfl <;> simp [SyncStmt.userId, SyncStmt.write?, eq_comm]

theorem legacyDeleteStmts_cases {ts : String} {id : ItemId} {q : SyncStmt} (h : q ∈ legacyDeleteStmts u n ts id) :
    q.userId = u ∧ (∀ id r, q.write? = some (id, r) → r = n) ∧ (∀ v r, q ≠ .setServerRevision v r) ∧
      ∀ v m row, q ≠ .insertMutation v m row := by
  simp only [legacyDeleteStmts, List.mem_cons, List.not_mem_nil, or_false] at h
  rcases h with rfl | rfl <;> simp [SyncStmt.userId, SyncStmt.write?, eq_comm]

theorem pushVaultStmts_cases {env : Env} {request : SyncPushRequest} {q : SyncStmt}
    (h : q ∈ pushVaultStmts env u n request) :
    q = .claimRevision u n ∨ q = .setServerRevision u n ∨
      (q.userId = u ∧ (∀ id r, q.write? = some (id, r) → r = n) ∧ (∀ v r, q ≠ .setServerRevision v r) ∧
        ∀ v m row, q ≠ .insertMutation v m row) := by
  unfold pushVaultStmts at h
  simp only [List.mem_cons, List.mem_append, List.mem_flatMap] at h
  rcases h with rfl | rfl | ⟨p, -, hq⟩ | ⟨id, -, hq⟩
  · exact .inl rfl
  · exact .inr (.inl rfl)
  · exact .inr (.inr (legacyUpsertStmts_cases hq))
  · exact .inr (.inr (legacyDeleteStmts_cases hq))

theorem pushVaultStmts_stateWrite (env : Env) (request : SyncPushRequest) :
    StateWrite u n (pushVaultStmts env u n request) where
  userId q hq := by
    rcases pushVaultStmts_cases hq with rfl | rfl | h
    · rfl
    · rfl
    · exact h.1
  revision q hq id r hr := by
    rcases pushVaultStmts_cases hq with rfl | rfl | h
    · cases hr
    · cases hr
    · exact h.2.1 id r hr
  claim := by simp [pushVaultStmts]
  set := by simp [pushVaultStmts]
  sets _ hr := by
    rcases pushVaultStmts_cases hr with he | he | h
    · cases he
    · cases he; rfl
    · exact absurd rfl (h.2.2.1 u _)

theorem batchStmts_stateWrite {env : Env} {view : PushView} {ops : List Operation} {st : PushState}
    (hst : LoopResult env view ops st) (hw : st.hasStateWrite = true) :
    StateWrite view.userId view.nextRevision (st.batchStmts view) where
  toWrites := batchStmts_writes hst
  claim := (batchStmts_claim hw).1
  set := (batchStmts_claim hw).2
  sets _ hr := (batchStmts_setServerRevision hst hr).2.2

/-- A push that writes state was prepared on the revision it commits to, which
was that of its reads too. -/
theorem push_current {plan : ItemLevelSyncPlan} {st : PushState} {old : List SyncStep}
    (hw : st.hasStateWrite = true) (hx : execBatch (st.batchStmts (pushViewAt u plan s₁ s₂ s₃)) s = some s')
    (hb : Before (Fences u) (old ++ [queryStep s₁, queryStep s₂, queryStep s₃]) s) :
    s₁.serverRevision u = s.serverRevision u ∧ s.serverRevision u = s₂.serverRevision u := by
  have hp := (List.pairwise_append.mp hb.pairwise).2.1
  have h12 : Fences u s₁ s₂ := (List.pairwise_cons.mp hp).1 (queryStep s₂) (by simp)
  have h1 : Fences u s₁ s := hb.now (queryStep s₁) (by simp)
  have h2 : Fences u s₂ s := hb.now (queryStep s₂) (by simp)
  have hrev := h1.current hx (batchStmts_claim hw).1
  have hle := h12.revision
  have hle' := h2.revision
  omega

theorem push_serial {plan : ItemLevelSyncPlan} {st : PushState} {old : List SyncStep} (hw : st.hasStateWrite = true)
    (hx : execBatch (st.batchStmts (pushViewAt u plan s₁ s₂ s₃)) s = some s')
    (hb : Before (Rely u) (old ++ [queryStep s₁, queryStep s₂, queryStep s₃]) s) :
    s₁.serverRevision u = s.serverRevision u ∧ ∀ id, s₂.vaultItems.get? id = s.vaultItems.get? id := by
  obtain ⟨hrev, hrev'⟩ := push_current hw hx (hb.mono fun _ _ => Rely.fences)
  have h2 : Rely u s₂ s := hb.now (queryStep s₂) (by simp)
  exact ⟨hrev, fun id => (h2.rows hrev' id).symm⟩

end

/-! ## Runs -/

section
variable {F : Formats} {u : UserId} {c : SyncCall} {tr : List SyncStep} {e : SyncStep}

/-- Has the statement an effect beyond the receipts? -/
def SyncStmt.isReceipt : SyncStmt → Bool
  | insertMutation .. => true
  | _ => false

theorem isReceipt_all {u : UserId} {stmts : List SyncStmt} (h : ∀ q ∈ stmts, ∃ m row, q = .insertMutation u m row) :
    stmts.all SyncStmt.isReceipt = true := by
  rw [List.all_eq_true]
  intro q hq
  obtain ⟨m, row, rfl⟩ := h q hq
  rfl

theorem StateWrite.not_all {u : UserId} {n : Nat} {stmts : List SyncStmt} (h : StateWrite u n stmts) :
    stmts.all SyncStmt.isReceipt = false := by
  rw [List.all_eq_false]
  exact ⟨_, h.claim, by simp [SyncStmt.isReceipt]⟩

/-- A committed batch either writes state at the next revision, or inserts
receipts only. -/
theorem commit_cases {stmts : List SyncStmt} {b a : Db} (hc : c.userId = u)
    (hg : c.guar tr ⟨.commit stmts, b, a⟩) (hb : Before (Fences u) tr b) :
    execBatch stmts b = some a ∧
      ((b.users.contains u = true ∧ StateWrite u (b.serverRevision u + 1) stmts) ∨
        ∀ q ∈ stmts, ∃ m row, q = .insertMutation u m row) := by
  cases c with
  | pushVault env v request =>
    have hc : v = u := hc
    subst hc
    obtain ⟨hx, s₁, rest, rfl, hu, -, -, rfl⟩ := hg
    have h1 : Fences v s₁ b := hb.now (queryStep s₁) List.mem_cons_self
    have hw := pushVaultStmts_stateWrite (u := v) (n := s₁.serverRevision v + 1) env request
    have hrev := h1.current hx hw.claim
    exact ⟨hx, .inl ⟨h1.users hu, hrev ▸ hw⟩⟩
  | pushItemLevelSync env v plan =>
    have hc : v = u := hc
    subst hc
    obtain ⟨hx, old, s₁, s₂, s₃, st, rfl, ha, rfl⟩ := hg
    obtain ⟨hu, n, hst⟩ := ha
    refine ⟨hx, ?_⟩
    cases hw : st.hasStateWrite with
    | true =>
      have h1 : Fences v s₁ b := hb.now (queryStep s₁) (by simp)
      have hrev := (push_current hw hx hb).1
      have := batchStmts_stateWrite hst hw
      unfold PushView.nextRevision at this
      exact .inl ⟨h1.users hu, by rw [← hrev]; exact this⟩
    | false => exact .inr fun q hq => batchStmts_quiet hst hw hq

theorem guar_rely (hc : c.userId = u) (hg : c.guar tr e) (hb : Before (Rely u) tr e.before) :
    Rely u e.before e.after := by
  obtain ⟨label, b, a⟩ := e
  cases label with
  | query => cases c <;> cases (show a = b from hg) <;> exact .refl u _
  | abort stmts => cases c <;> cases (show a = b from hg) <;> exact .refl u _
  | commit stmts =>
    obtain ⟨hx, ⟨hu, hw⟩ | hq⟩ := commit_cases hc hg (hb.mono fun _ _ => Rely.fences)
    · exact (hw.rely hu hx).2
    · exact (quiet_rely hq hx).2.2

theorem applied_written {view : PushView} {op : Operation} {env : Env} {ops : List Operation} {st : PushState}
    {b a : Db} (hst : LoopResult env view ops st) (hop : op ∈ ops) (ha : Applies view op)
    (hx : execBatch (st.batchStmts view) b = some a)
    (hrow : view.itemRowsById op.id = b.vaultItems.get? op.id) :
    b.itemRevision op.id = op.baseItemRevision ∧ a.itemRevision op.id = view.nextRevision := by
  obtain ⟨hbase, hown, hdel⟩ := applies_found ha
  have hmem : ∀ q ∈ applyStmts env view op, q ∈ st.batchStmts view := by
    intro q hq
    refine batchStmts_stmts ?_
    rw [hst.stmts, List.mem_flatMap]
    exact ⟨op, hop, by rw [contribution_applies ha]; exact hq⟩
  have hw := batchStmts_writes hst
  refine ⟨by rw [hbase, hrow]; rfl, ?_⟩
  have hwr : WrittenAt view.userId view.nextRevision (a.vaultItems.get? op.id) := by
    cases op with
    | upsert item =>
      have hm := hmem (.upsertVaultItem view.userId (nextItem view item)) (by simp [applyStmts])
      have hr : ∀ row, b.vaultItems.get? (nextItem view item).id = some row → row.userId = view.userId :=
        fun row hr => hown row (hrow.trans hr)
      have hwr := batch_upsertVaultItem hw hx hm hr
      exact hwr
    | delete item =>
      obtain ⟨row, hr⟩ := hdel rfl
      have hr' : view.itemRowsById item.id = some row := hr
      have hbase : item.baseItemRevision = row.revision := by
        rw [hr] at hbase; exact hbase
      have hm := hmem (.markDeletedAtBase view.userId item.id view.nextRevision (env.now item.clientMutationId)
        item.baseItemRevision) (by simp [applyStmts, hr'])
      exact batch_markDeletedAtBase hw hx hm (hrow.symm.trans hr) (hown row hr) hbase.symm
  obtain ⟨row, hr, -, hn⟩ := hwr
  unfold Db.itemRevision
  rw [hr]; exact hn

theorem push_applied {env : Nat → Env} {plan : ItemLevelSyncPlan} {stmts : List SyncStmt} {b a : Db}
    (hg : PushItemGuar env u plan tr ⟨.commit stmts, b, a⟩) (hb : Before (Rely u) tr b)
    {m : MutationId} {fp : RequestFingerprint} {k : OperationKind} {id : ItemId} {r : Nat}
    (hm : .insertMutation u m ⟨fp, .applied k id r⟩ ∈ stmts) :
    ∃ op ∈ plan.operations, m = op.clientMutationId ∧ fp = op.requestFingerprint ∧ k = op.kind ∧ id = op.id ∧
      b.itemRevision id = op.baseItemRevision ∧ a.itemRevision id = r ∧ r = b.serverRevision u + 1 := by
  obtain ⟨hx, old, s₁, s₂, s₃, st, rfl, ha, rfl⟩ := hg
  obtain ⟨n, hst⟩ := ha.loop
  obtain ⟨-, op, hop, rfl, hfp, -, ⟨c, -, hc⟩ | ⟨hap, hw, hres⟩⟩ := batchStmts_insertMutation hst hm
  · cases hc
  cases hres
  obtain ⟨hrev, hrows⟩ := push_serial hw hx hb
  have hrow : (pushViewAt u plan s₁ s₂ s₃).itemRowsById op.id = b.vaultItems.get? op.id := by
    have hmem : op.id ∈ plan.operations.map (·.id) := List.mem_map_of_mem hop
    simp only [pushViewAt, selectItemRows, if_pos hmem, hrows]
  obtain ⟨h1, h2⟩ := applied_written hst hop hap hx hrow
  refine ⟨op, hop, rfl, hfp, rfl, rfl, h1, h2, ?_⟩
  rw [← hrev]; rfl

/-- Along every run of one user's pushes: a committed batch that moves an item
moves it forward; the server revision moves by one with each batch that writes
more than receipts; and a newly applied mutation found its base revision. -/
theorem no_lost_update {s₀ s : Db} (h0 : Bounded u s₀) {h : History SyncCall Db (Access SyncStmt)}
    {ps : List (Proc SyncCall Db (Access SyncStmt) SyncResult)}
    (hr : Reach SyncCall.code (·.userId = u) s₀ h s ps)
    {i : Nat} {c : SyncCall} {stmts : List SyncStmt} {b a : Db} (he : .step i c ⟨.commit stmts, b, a⟩ ∈ h) :
    (∀ m fp k id r, .insertMutation u m ⟨fp, .applied k id r⟩ ∈ stmts →
      ∃ env plan, c = .pushItemLevelSync env u plan ∧ ∃ op ∈ plan.operations,
        m = op.clientMutationId ∧ fp = op.requestFingerprint ∧ k = op.kind ∧ id = op.id ∧
        b.itemRevision id = op.baseItemRevision ∧ a.itemRevision id = r ∧ r = b.serverRevision u + 1) ∧
    (∀ id, a.vaultItems.get? id ≠ b.vaultItems.get? id → b.itemRevision id < a.itemRevision id) ∧
    a.serverRevision u = if stmts.all SyncStmt.isReceipt then b.serverRevision u else b.serverRevision u + 1 := by
  have hsat : ∀ c : SyncCall, c.userId = u → Sat c.guar c.post c.code [] := fun c _ => c.sat
  have halong : Along (Rely u) s₀ h := reach_rel hsat (Rely.refl u) (fun _ _ _ => Rely.trans)
    (fun c tr e hc _ hb hg => guar_rely hc hg hb) hr
  obtain ⟨h₁, h₂, rfl⟩ := List.append_of_mem he
  obtain ⟨hc, hbef, hg⟩ := reach_step hsat hr
  obtain ⟨ps₁, hr₁⟩ := reach_prefix hr
  have hbef : b = storeAfter s₀ h₁ := hbef
  rw [← hbef] at hr₁
  have hb : Before (Rely u) (own i h₁) b := halong.init.before hr₁ i
  have hbound : Bounded u b := by
    have := (show Along (Rely u) s₀ ([] ++ h₁) from halong.init).last.bounded h0
    rwa [List.nil_append, ← hbef] at this
  obtain ⟨hx, hcase⟩ := commit_cases hc hg (hb.mono fun _ _ => Rely.fences)
  refine ⟨fun m fp k id r hm => ?_, fun id hne => ?_, ?_⟩
  · cases c with
    | pushVault env v request =>
      obtain ⟨-, s₁, rest, -, -, -, -, rfl⟩ := hg
      rcases pushVaultStmts_cases hm with he | he | he
      · cases he
      · cases he
      · exact absurd rfl (he.2.2.2 u m _)
    | pushItemLevelSync env v plan =>
      have hc : v = u := hc
      subst hc
      exact ⟨env, plan, rfl, push_applied hg hb hm⟩
  · rcases hcase with ⟨hu, hw⟩ | hq
    · rcases batch_rows hw.toWrites hx id with heq | ⟨row', ha, hu', hn', hown⟩
      · exact absurd heq hne
      · unfold Db.itemRevision
        rw [ha, Option.map_some, Option.getD_some, hn']
        cases hbr : b.vaultItems.get? id with
        | none => exact Nat.succ_pos _
        | some row => exact Nat.lt_succ_of_le (hbound id row hbr (hown row hbr))
    · exact absurd ((quiet_rely (u := u) hq hx).2.1 id) hne
  · rcases hcase with ⟨hu, hw⟩ | hq
    · rw [hw.not_all]
      exact (hw.rely hu hx).1
    · rw [isReceipt_all hq]
      exact (quiet_rely hq hx).1

end

/-! ## Two overlapping pushes -/

def sampleFormats : Formats := ⟨fun v => v.length == 36, fun v => v.length == 24, fun v => v.toList.contains '@'⟩

def sampleUser : UserId := "0b8f8ed0-4c1a-4e0e-9d5e-0d1c5a0a0001"

def sampleEnvelope : CiphertextEnvelope := ⟨.aes256Gcm, "AAAAAAAAAAAAAAAA", "AAAAAAAAAAAAAAAAAAAAAA", none⟩

def sampleUpsert : ItemLevelEncryptedUpsert where
  id := "0b8f8ed0-4c1a-4e0e-9d5e-0d1c5a0a0002"
  ownerUserId := sampleUser
  revision := 0
  createdAt := "2024-01-01T00:00:00.000Z"
  updatedAt := "2024-01-01T00:00:00.000Z"
  encryptedItemKey := sampleEnvelope
  encryptedPayload := sampleEnvelope
  encryptedSearchTokens := []
  baseItemRevision := 0
  clientMutationId := "0b8f8ed0-4c1a-4e0e-9d5e-0d1c5a0a0003"
  ciphertextHash := none

def samplePush : SyncCall := .pushItemLevelSync (fun _ => ⟨id, id⟩) sampleUser ⟨0, [sampleUpsert], []⟩

def sampleUserRow : UserRow := ⟨"a@example.org", "record", "bundle", .v1 ⟨sampleEnvelope, none⟩, 0, 1⟩

def sampleStore : Db := { users := (∅ : Table UserId UserRow).set sampleUser sampleUserRow }

theorem samplePush_valid : samplePush.Valid sampleFormats := by
  unfold SyncCall.Valid samplePush
  decide

def unrelatedUpsert : ItemLevelEncryptedUpsert :=
  { sampleUpsert with
    id := "0b8f8ed0-4c1a-4e0e-9d5e-0d1c5a0a0012"
    clientMutationId := "0b8f8ed0-4c1a-4e0e-9d5e-0d1c5a0a0013" }

def latePush : SyncCall :=
  .pushItemLevelSync (fun _ => ⟨id, id⟩) sampleUser
    ⟨0, [{ sampleUpsert with clientMutationId := "0b8f8ed0-4c1a-4e0e-9d5e-0d1c5a0a0014" }, unrelatedUpsert], []⟩

/-- Both pushes read before either writes. The batch of the second aborts. -/
def bothRead : Play SyncCall Db (Access SyncStmt) SyncResult :=
  play SyncCall.code sampleStore
    [.issue samplePush, .issue latePush, .step 0, .step 1, .step 0, .step 1, .step 0, .step 1, .step 0, .step 1]

def overlappingPushes : Play SyncCall Db (Access SyncStmt) SyncResult :=
  (List.replicate 5 (.step 1)).foldl (move SyncCall.code) bothRead

/-- `no_lost_update` at the batch of the retry: the item of the first push keeps its
revision, and the other item gets the next one. -/
theorem no_lost_update_overlappingPushes :
    overlappingPushes.2.1.itemRevision sampleUpsert.id = bothRead.2.1.itemRevision sampleUpsert.id ∧
      bothRead.2.1.itemRevision unrelatedUpsert.id < overlappingPushes.2.1.itemRevision unrelatedUpsert.id ∧
      overlappingPushes.2.1.itemRevision unrelatedUpsert.id = bothRead.2.1.serverRevision sampleUser + 1 ∧
      overlappingPushes.2.1.serverRevision sampleUser = bothRead.2.1.serverRevision sampleUser + 1 := by
  have hr : Reach SyncCall.code (·.userId = sampleUser) sampleStore overlappingPushes.1 overlappingPushes.2.1
      overlappingPushes.2.2 :=
    foldl_move_reach (play_reach (by simp [samplePush, latePush, SyncCall.userId])) (by simp)
  obtain ⟨stmts, he, ⟨fp, hm⟩, hclaims⟩ : ∃ stmts,
      .step 1 latePush ⟨.commit stmts, bothRead.2.1, overlappingPushes.2.1⟩ ∈ overlappingPushes.1 ∧
      (∃ fp, .insertMutation sampleUser unrelatedUpsert.clientMutationId
        ⟨fp, .applied .upsert unrelatedUpsert.id 2⟩ ∈ stmts) ∧ stmts.all SyncStmt.isReceipt = false :=
    ⟨_, List.mem_of_getElem? (i := 14) rfl, ⟨_, List.mem_of_getElem? (i := 5) rfl⟩, rfl⟩
  obtain ⟨happlied, hmoved, hrevision⟩ := no_lost_update (fun _ _ h => by cases h) hr he
  obtain ⟨-, -, -, -, -, -, -, -, -, -, hnew, hnext⟩ := happlied _ _ _ _ _ hm
  exact ⟨by decide +kernel, hmoved unrelatedUpsert.id (by decide +kernel), hnew.trans hnext,
    hrevision.trans (by rw [hclaims]; rfl)⟩

end ZeroVault

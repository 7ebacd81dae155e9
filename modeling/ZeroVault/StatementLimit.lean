import ZeroVault.Accesses
import ZeroVault.SyncStoreSound
import ZeroVault.TokenSearch
import ZeroVault.RecoverySound

/-!
# Bound parameters of the sync statements

The item-level push and the encrypted search with the statements they prepare.
Forgetting the statements gives back the programs of the store (`push_erased`,
`search_erased`). Only the lookups bind as many values as the request has
parts, and two of the three bind the user on top (`statements_within_limit`).
-/

namespace ZeroVault

open Lib

/-! ## Statements -/

/-- A value that a statement binds. A JSON text is the value it is the text of. -/
inductive Bound
  | text (value : String)
  | revision (value : Nat)
  | envelope (value : CiphertextEnvelope)
  | tokens (value : List CiphertextEnvelope)
  | item (value : VaultItemCiphertext)
  | change (value : ItemLevelChange)
  | fingerprint (value : RequestFingerprint)
  | result (value : ReceiptResult)
  | nowISO
deriving DecidableEq, Repr

def SyncStmt.bindings : SyncStmt → List Bound
  | .claimRevision userId revision => [.text userId, .revision revision, .nowISO]
  | .setServerRevision userId revision => [.revision revision, .nowISO, .text userId]
  | .upsertVaultItem userId item =>
    [.text item.id, .text userId, .revision item.revision, .text item.createdAt, .text item.updatedAt,
      .envelope item.encryptedItemKey, .envelope item.encryptedPayload, .tokens item.encryptedSearchTokens]
  | .insertHistory id userId item =>
    [.text id, .text item.id, .text userId, .revision item.revision, .item item, .nowISO]
  | .insertUpsertChange userId item =>
    [.text userId, .text item.id, .revision item.revision, .change (.upsert item), .nowISO]
  | .markDeleted userId id revision deletedAt =>
    [.revision revision, .text deletedAt, .text deletedAt, .text id, .text userId]
  | .markDeletedAtBase userId id revision deletedAt base =>
    [.revision revision, .text deletedAt, .text deletedAt, .text id, .text userId, .revision base]
  | .insertDeleteChangeIfDeleted userId id revision deletedAt =>
    [.text userId, .change (.delete id revision deletedAt), .text deletedAt, .text id, .text userId]
  | .insertDeleteChange userId id revision deletedAt =>
    [.text userId, .text id, .revision revision, .change (.delete id revision deletedAt), .text deletedAt]
  | .insertMutation userId mutationId row =>
    [.text userId, .text mutationId, .fingerprint row.requestFingerprint, .result row.result, .nowISO]

inductive Lookup
  | findUserById (userId : UserId)
  | vaultItems (ids : List ItemId)
  | itemSyncMutations (userId : UserId) (ids : List MutationId)
  | claimedReceipt (userId : UserId) (ids : List MutationId)
  | searchTokens (userId : UserId) (patterns : List String)
deriving DecidableEq, Repr

def Lookup.bindings : Lookup → List Bound
  | .findUserById userId => [.text userId]
  | .vaultItems ids => ids.map .text
  | .itemSyncMutations userId ids => .text userId :: ids.map .text
  | .claimedReceipt userId ids => .text userId :: ids.map .text
  | .searchTokens userId patterns => .text userId :: patterns.map .text

inductive D1Access
  | lookup (stmt : Lookup)
  | batch (ran : Access SyncStmt)

def D1Access.access : D1Access → Access SyncStmt
  | .lookup _ => .query
  | .batch ran => ran

def D1Access.bindings : D1Access → List (List Bound)
  | .lookup stmt => [stmt.bindings]
  | .batch .query => []
  | .batch (.commit stmts) => stmts.map SyncStmt.bindings
  | .batch (.abort stmts) => stmts.map SyncStmt.bindings

abbrev D1Prog := Prog Db D1Access

/-- The parameters that one statement may bind. -/
def D1_BOUND_PARAMETERS : Nat := 100

/-- Whatever the database holds at each access, every statement keeps to the limit. -/
def WithinLimit {α : Type} (p : D1Prog α) : Prop :=
  p.Labels fun access => ∀ bs ∈ access.bindings, bs.length ≤ D1_BOUND_PARAMETERS

def vaultSearchRequestSchema (tokens : List String) : Bool :=
  tokens.all (fun token => 1 ≤ jsLength token && jsLength token ≤ 256) && tokens.length ≤ MAX_ENCRYPTED_SEARCH_TOKENS

/-! ## The programs with their statements -/

namespace Prepared

def pushAborted (view : PushView) (st : PushState) : D1Prog (Except SyncError ItemLevelSyncPushResult) :=
  let claimed : D1Prog (Except SyncError ItemLevelSyncPushResult) :=
    if st.pendingReceipts.isEmpty then pure (.error .databaseError)
    else do
      let stmt := Lookup.claimedReceipt view.userId (st.pendingReceipts.map (·.mutationId))
      let claimedReceipt ← Prog.query (.lookup stmt) fun db =>
        st.pendingReceipts.any fun r => db.itemSyncMutations.contains (view.userId, r.mutationId)
      pure (.error (if claimedReceipt then .syncRevisionClaimConflict else .databaseError))
  if st.hasStateWrite then do
    let latestUser ← Prog.query (.lookup (.findUserById view.userId)) (ZeroVault.findUserById view.userId)
    if latestUser.any (·.serverRevision ≠ view.serverRevision) then pure (.error .syncRevisionClaimConflict)
    else claimed
  else claimed

def pushPrepared (view : PushView) (st : PushState) : D1Prog (Except SyncError ItemLevelSyncPushResult) :=
  if (st.batchStmts view).isEmpty then pure (.ok (st.pushResult view))
  else do
    let committed ← (syncBatch (st.batchStmts view)).mapLabel .batch
    if committed then pure (.ok (st.pushResult view)) else pushAborted view st

def pushItemLevelSyncOnce (env : Env) (userId : UserId) (plan : ItemLevelSyncPlan) :
    D1Prog (Except SyncError ItemLevelSyncPushResult) := do
  let user ← Prog.query (.lookup (.findUserById userId)) (ZeroVault.findUserById userId)
  match user with
  | none => pure (.error .userNotFound)
  | some user =>
    let ops := plan.operations
    let allItemIds := ops.map (·.id)
    let allMutationIds := ops.map (·.clientMutationId)
    let view itemRowsById receiptsById : PushView :=
      ⟨userId, user.serverRevision, plan.baseRevision, itemRowsById, receiptsById⟩
    let prepared (view : PushView) : D1Prog (Except SyncError ItemLevelSyncPushResult) :=
      match pushLoop env view ops with
      | .error e => pure (.error e)
      | .ok st => pushPrepared view st
    if ops.isEmpty then prepared (view (fun _ => none) fun _ => none)
    else
      let itemRowsById ← Prog.query (.lookup (.vaultItems allItemIds)) (selectItemRows allItemIds)
      let receiptsById ← Prog.query (.lookup (.itemSyncMutations userId allMutationIds))
        (selectReceipts userId allMutationIds)
      prepared (view itemRowsById receiptsById)

def pushAttempts (env : Nat → Env) (userId : UserId) (plan : ItemLevelSyncPlan) :
    Nat → D1Prog (Except SyncError ItemLevelSyncPushResult)
  | 0 => pushItemLevelSyncOnce (env 0) userId plan
  | left + 1 => do
    let result ← pushItemLevelSyncOnce (env (left + 1)) userId plan
    match result with
    | .error .syncRevisionClaimConflict => pushAttempts env userId plan left
    | result => pure result

def pushItemLevelSync (env : Nat → Env) (userId : UserId) (plan : ItemLevelSyncPlan) :
    D1Prog (Except SyncError ItemLevelSyncPushResult) :=
  pushAttempts env userId plan MAX_SYNC_REVISION_RETRIES

def searchItemsByTokens (userId : UserId) (tokenHexes : List String) : D1Prog (List ItemId) :=
  if tokenHexes.isEmpty then pure []
  else
    let patterns := tokenHexes.map fun hex => "\"ciphertext\":\"" ++ hex ++ "\""
    Prog.query (.lookup (.searchTokens userId patterns)) fun db => Search.searchItemsByTokens db userId tokenHexes

end Prepared

/-! ## The store's programs -/

section
variable {env : Env} {view : PushView} {st : PushState} {userId : UserId} {plan : ItemLevelSyncPlan}

theorem pushAborted_erased : (Prepared.pushAborted view st).mapLabel D1Access.access = pushAborted view st := by
  unfold Prepared.pushAborted pushAborted
  extract_lets stmt claimed claimed'
  have hclaimed : claimed.mapLabel D1Access.access = claimed' := by
    unfold claimed claimed'
    by_cases hp : st.pendingReceipts.isEmpty = true
    · rw [if_pos hp, if_pos hp]
      rfl
    · rw [if_neg hp, if_neg hp]
      rfl
  by_cases hw : st.hasStateWrite = true
  · rw [if_pos hw, if_pos hw, Prog.mapLabel_query]
    refine Prog.query_congr fun latestUser => ?_
    rw [Prog.mapLabel_ite, hclaimed]
    rfl
  · rw [if_neg hw, if_neg hw, hclaimed]

theorem pushPrepared_erased : (Prepared.pushPrepared view st).mapLabel D1Access.access = pushPrepared view st := by
  unfold Prepared.pushPrepared pushPrepared
  rw [Prog.mapLabel_ite]
  refine if_congr Iff.rfl rfl ?_
  rw [Prog.mapLabel_bind, Prog.mapLabel_inverse fun _ => rfl]
  refine congrArg (syncBatch (st.batchStmts view) >>= ·) (funext fun committed => ?_)
  rw [Prog.mapLabel_ite, pushAborted_erased]
  rfl

theorem pushOnce_erased :
    (Prepared.pushItemLevelSyncOnce env userId plan).mapLabel D1Access.access = pushItemLevelSyncOnce env userId plan := by
  unfold Prepared.pushItemLevelSyncOnce pushItemLevelSyncOnce
  rw [Prog.mapLabel_query]
  refine Prog.query_congr fun user => ?_
  cases user with
  | none => rfl
  | some user =>
    dsimp only
    have hprepared (view : PushView) : Prog.mapLabel D1Access.access
        (match pushLoop env view plan.operations with
          | .error e => pure (.error e)
          | .ok st => Prepared.pushPrepared view st) =
        match pushLoop env view plan.operations with
          | .error e => pure (.error e)
          | .ok st => pushPrepared view st := by
      cases pushLoop env view plan.operations with
      | error e => rfl
      | ok st => exact pushPrepared_erased
    rw [Prog.mapLabel_ite]
    refine if_congr Iff.rfl (hprepared _) ?_
    rw [Prog.mapLabel_query]
    refine Prog.query_congr fun itemRowsById => ?_
    rw [Prog.mapLabel_query]
    exact Prog.query_congr fun receiptsById => hprepared _

theorem push_erased (env : Nat → Env) :
    (Prepared.pushItemLevelSync env userId plan).mapLabel D1Access.access = pushItemLevelSync env userId plan := by
  unfold Prepared.pushItemLevelSync pushItemLevelSync
  generalize MAX_SYNC_REVISION_RETRIES = left
  induction left with
  | zero => exact pushOnce_erased
  | succ left ih =>
    rw [Prepared.pushAttempts, pushAttempts, Prog.mapLabel_bind, pushOnce_erased]
    refine congrArg (pushItemLevelSyncOnce (env (left + 1)) userId plan >>= ·) (funext fun result => ?_)
    cases result with
    | ok result => rfl
    | error e =>
      cases e with
      | syncRevisionClaimConflict => exact ih
      | _ => rfl

theorem search_run (tokenHexes : List String) (db : Db) :
    (Prepared.searchItemsByTokens userId tokenHexes).run db =
      (db, Search.searchItemsByTokens db userId tokenHexes) := by
  unfold Prepared.searchItemsByTokens
  split
  · next hempty =>
    unfold Search.searchItemsByTokens
    rw [if_pos hempty]
    rfl
  · rfl

end

/-! ## What the statements bind -/

theorem SyncStmt.bindings_le (q : SyncStmt) : q.bindings.length ≤ D1_BOUND_PARAMETERS := by
  cases q <;> exact Nat.le_of_ble_eq_true rfl

section
variable {env : Env} {view : PushView} {st : PushState} {userId : UserId} {plan : ItemLevelSyncPlan}

theorem contribution_pending_le (env : Env) (view : PushView) (op : Operation) :
    (contribution env view op).pendingReceipts.length ≤ 1 := by
  rcases operation_cases view op with ⟨previous, hp⟩ | ⟨hp, c, hc⟩ | ha
  · rw [contribution_replay hp, (replay_lists previous).2.1]
    exact Nat.zero_le 1
  · rw [contribution_conflict hp hc]
    exact Nat.le_refl 1
  · rw [contribution_applies ha]
    exact Nat.le_refl 1

theorem pending_le {ops : List Operation} (h : LoopResult env view ops st) :
    st.pendingReceipts.length ≤ ops.length := by
  rw [h.pending]
  clear h
  induction ops with
  | nil => exact Nat.le_refl 0
  | cons op ops ih =>
    rw [List.flatMap_cons, List.length_append, List.length_cons, Nat.add_comm]
    exact Nat.add_le_add ih (contribution_pending_le env view op)

theorem lookup_within {stmt : Lookup} :
    (∀ bs ∈ (D1Access.lookup stmt).bindings, bs.length ≤ D1_BOUND_PARAMETERS) ↔ stmt.bindings.length ≤ D1_BOUND_PARAMETERS := List.forall_mem_singleton

theorem batch_within {stmts : List SyncStmt} : WithinLimit ((syncBatch stmts).mapLabel .batch) := by
  have hstmts : ∀ bs ∈ stmts.map SyncStmt.bindings, bs.length ≤ D1_BOUND_PARAMETERS := by
    intro bs hbs
    obtain ⟨q, -, rfl⟩ := List.mem_map.mp hbs
    exact q.bindings_le
  refine fun s => ⟨?_, trivial⟩
  dsimp only
  cases execAll SyncStmt.exec stmts s with
  | none => exact hstmts
  | some s' => exact hstmts

theorem pushAborted_within (h : st.pendingReceipts.length < D1_BOUND_PARAMETERS) :
    WithinLimit (Prepared.pushAborted view st) := by
  unfold Prepared.pushAborted
  extract_lets stmt claimed
  have hclaimed : WithinLimit claimed := by
    unfold claimed
    split
    · trivial
    · refine .query (lookup_within.mpr ?_) fun _ => trivial
      change (st.pendingReceipts.map (·.mutationId) |>.map Bound.text).length + 1 ≤ D1_BOUND_PARAMETERS
      rwa [List.length_map, List.length_map]
  split
  · refine .query (lookup_within.mpr (Nat.le_of_ble_eq_true rfl)) fun latestUser => ?_
    split
    · trivial
    · exact hclaimed
  · exact hclaimed

theorem pushPrepared_within (h : st.pendingReceipts.length < D1_BOUND_PARAMETERS) :
    WithinLimit (Prepared.pushPrepared view st) := by
  unfold Prepared.pushPrepared
  split
  · trivial
  · refine batch_within.bind fun committed => ?_
    split
    · trivial
    · exact pushAborted_within h

theorem pushOnce_within (h : plan.operations.length < D1_BOUND_PARAMETERS) :
    WithinLimit (Prepared.pushItemLevelSyncOnce env userId plan) := by
  unfold Prepared.pushItemLevelSyncOnce
  refine .query (lookup_within.mpr (Nat.le_of_ble_eq_true rfl)) fun user => ?_
  cases user with
  | none => trivial
  | some user =>
    dsimp only
    have hprepared (view : PushView) : WithinLimit (match pushLoop env view plan.operations with
        | .error e => pure (.error e)
        | .ok st => Prepared.pushPrepared view st) := by
      split
      · trivial
      · next st hst => exact pushPrepared_within (Nat.lt_of_le_of_lt (pending_le (pushLoop_ok hst)) h)
    split
    · exact hprepared _
    · refine .query (lookup_within.mpr ?_) fun itemRowsById =>
        .query (lookup_within.mpr ?_) fun receiptsById => hprepared _
      · change ((plan.operations.map (·.id)).map Bound.text).length ≤ D1_BOUND_PARAMETERS
        rw [List.length_map, List.length_map]
        exact Nat.le_of_lt h
      · change ((plan.operations.map (·.clientMutationId)).map Bound.text).length + 1 ≤ D1_BOUND_PARAMETERS
        rwa [List.length_map, List.length_map]

theorem push_within (env : Nat → Env) (h : plan.operations.length < D1_BOUND_PARAMETERS) :
    WithinLimit (Prepared.pushItemLevelSync env userId plan) := by
  unfold Prepared.pushItemLevelSync
  generalize MAX_SYNC_REVISION_RETRIES = left
  induction left with
  | zero => exact pushOnce_within h
  | succ left ih =>
    refine (pushOnce_within h).bind fun result => ?_
    split
    · exact ih
    · trivial

/-- The receipts are looked up wherever the user is found. -/
theorem push_receipts (env : Nat → Env) (h : WithinLimit (Prepared.pushItemLevelSync env userId plan)) :
    plan.operations.length < D1_BOUND_PARAMETERS := by
  have honce : WithinLimit (Prepared.pushItemLevelSyncOnce (env 2) userId plan) := h.of_bind
  have hfound : findUserById userId { users := (∅ : Table UserId UserRow).set userId sampleOwnerRow } =
      some sampleOwnerRow := by
    unfold findUserById
    rw [Table.get?_set, if_pos rfl]
  have hrest := (honce { users := (∅ : Table UserId UserRow).set userId sampleOwnerRow }).2
  dsimp only at hrest
  rw [hfound] at hrest
  cases hops : plan.operations with
  | nil => exact Nat.zero_lt_succ 99
  | cons op ops =>
    rw [← hops]
    have hne : ¬ plan.operations.isEmpty = true := by
      rw [hops]
      exact Bool.false_ne_true
    replace hrest : WithinLimit (if plan.operations.isEmpty then _ else _) := hrest
    rw [if_neg hne] at hrest
    have hlookup := lookup_within.mp ((hrest {}).2 {}).1
    change ((plan.operations.map (·.clientMutationId)).map Bound.text).length + 1 ≤ D1_BOUND_PARAMETERS at hlookup
    rwa [List.length_map, List.length_map] at hlookup

theorem search_within {tokenHexes : List String} :
    WithinLimit (Prepared.searchItemsByTokens userId tokenHexes) ↔ tokenHexes.length < D1_BOUND_PARAMETERS := by
  unfold Prepared.searchItemsByTokens
  split
  · next hempty =>
    rw [List.isEmpty_iff.mp hempty]
    exact iff_of_true trivial (Nat.zero_lt_succ 99)
  · have hlength : (Lookup.searchTokens userId
        (tokenHexes.map fun hex => "\"ciphertext\":\"" ++ hex ++ "\"")).bindings.length = tokenHexes.length + 1 := by
      change ((tokenHexes.map _).map Bound.text).length + 1 = _
      rw [List.length_map, List.length_map]
    constructor
    · intro h
      have hlookup := lookup_within.mp (h {}).1
      rwa [hlength] at hlookup
    · intro h db
      refine ⟨lookup_within.mpr ?_, trivial⟩
      rwa [hlength]

end

/-- A push binds its user beside its mutations, a search its user beside its tokens. -/
theorem statements_within_limit (env : Nat → Env) (userId : UserId) (plan : ItemLevelSyncPlan)
    (tokens : List String) :
    (WithinLimit (Prepared.pushItemLevelSync env userId plan) ↔ plan.operations.length < D1_BOUND_PARAMETERS) ∧
    (WithinLimit (Prepared.searchItemsByTokens userId tokens) ↔ tokens.length < D1_BOUND_PARAMETERS) :=
  ⟨⟨push_receipts env, push_within env⟩, search_within⟩

/-! ## A full backlog -/

/-- The UUID that ends in the two digits of `i`. -/
def numbered (start : String) (i : Nat) : String :=
  String.ofList (start.toList ++ [Nat.digitChar (i / 10), Nat.digitChar (i % 10)])

theorem numbered_length (start : String) (i : Nat) : (numbered start i).length = start.length + 2 := by
  rw [numbered, String.length_ofList, List.length_append, String.length_toList]
  rfl

theorem numbered_injective {start : String} {i j : Nat} (hi : i < 100) (hj : j < 100)
    (h : numbered start i = numbered start j) : i = j := by
  have hdigits : ∀ a < 10, ∀ b < 10, Nat.digitChar a = Nat.digitChar b → a = b := by decide
  have hchars := List.append_cancel_left (String.ofList_injective h)
  injection hchars with htens hrest
  injection hrest with hones _
  have htens := hdigits _ (by omega) _ (by omega) htens
  have hones := hdigits _ (by omega) _ (by omega) hones
  omega

def backlogDelete (i : Nat) : ItemLevelEncryptedDelete :=
  ⟨numbered "00000000-0000-4000-8000-0000000000" i, sampleOwner, 1, "2026-01-01T00:00:00.000Z",
    numbered "00000000-0000-4000-9000-0000000000" i⟩

def backlog : ItemLevelSyncPlan := ⟨7, [], (List.range MAX_SYNC_MUTATIONS).map backlogDelete⟩

theorem backlog_length : backlog.operations.length = MAX_SYNC_MUTATIONS := by
  unfold ItemLevelSyncPlan.operations backlog
  rw [List.map_nil, List.nil_append, List.length_map, List.length_map, List.length_range]

theorem backlog_accepted : itemLevelSyncPlanSchema plainFormats backlog = true := by
  have howner : plainFormats.uuid sampleOwner = true := by decide +kernel
  have hdate : plainFormats.datetime "2026-01-01T00:00:00.000Z" = true := by decide +kernel
  have hdelete : backlog.deletes.all (itemLevelEncryptedDeleteSchema plainFormats) = true := by
    refine List.all_eq_true.mpr fun item hitem => ?_
    obtain ⟨i, -, rfl⟩ := List.mem_map.mp hitem
    have hid : plainFormats.uuid (backlogDelete i).id = true := beq_iff_eq.mpr (numbered_length _ i)
    have hmutation : plainFormats.uuid (backlogDelete i).clientMutationId = true :=
      beq_iff_eq.mpr (numbered_length _ i)
    exact Bool.and_eq_true_iff.mpr ⟨Bool.and_eq_true_iff.mpr ⟨Bool.and_eq_true_iff.mpr ⟨hid, howner⟩, hdate⟩, hmutation⟩
  have hnodup (start : String) : ((List.range MAX_SYNC_MUTATIONS).map (numbered start)).Nodup :=
    List.nodup_range.map_on fun i hi j hj => numbered_injective (List.mem_range.mp hi) (List.mem_range.mp hj)
  have hids : backlog.itemIds.Nodup := by
    unfold ItemLevelSyncPlan.itemIds backlog
    rw [List.map_nil, List.nil_append, List.map_map]
    exact hnodup _
  have hmutations : backlog.mutationIds.Nodup := by
    unfold ItemLevelSyncPlan.mutationIds backlog
    rw [List.map_nil, List.nil_append, List.map_map]
    exact hnodup _
  unfold itemLevelSyncPlanSchema
  rw [hdelete, decide_eq_true hids, decide_eq_true hmutations]
  decide +kernel

def manyTokens : List String := List.replicate MAX_ENCRYPTED_SEARCH_TOKENS (plainText 64)

theorem manyTokens_accepted : vaultSearchRequestSchema manyTokens = true := by
  unfold vaultSearchRequestSchema manyTokens
  rw [List.all_replicate, List.length_replicate]
  decide +kernel

/-- A client that drains a full backlog is refused. -/
theorem backlog_over_limit : itemLevelSyncPlanSchema plainFormats backlog = true ∧
    vaultSearchRequestSchema manyTokens = true ∧
    ¬ WithinLimit (Prepared.pushItemLevelSync (fun _ => ⟨id, id⟩) sampleOwner backlog) ∧
    ¬ WithinLimit (Prepared.searchItemsByTokens sampleOwner manyTokens) := by
  refine ⟨backlog_accepted, manyTokens_accepted, fun h => ?_, fun h => ?_⟩
  · have hlt := push_receipts _ h
    rw [backlog_length] at hlt
    exact absurd hlt (Nat.lt_irrefl _)
  · have hlt := search_within.mp h
    unfold manyTokens at hlt
    rw [List.length_replicate] at hlt
    exact absurd hlt (by decide)

end ZeroVault

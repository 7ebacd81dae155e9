import ZeroVault.AckedDeletes
import ZeroVault.LegacyDrain
import ZeroVault.LegacyEdits

/-!
# The conflicts of a legacy vault

`performItemLevelSync` between the handlers that resolve conflicts. A run whose
request is answered writes the conflict ids anew (`sync_conflictIds`); the ones
that were stored stay where the answer names them again.
-/

namespace ZeroVault.Legacy

open Lib Browser

/-! ## The handlers -/

inductive ConflictResolutionResult
  | ok
  | stillConflicting (message : String)
  /-- `none` is the message of what was thrown. -/
  | error (message : Option String)
deriving DecidableEq, Repr

inductive AcceptRemoteResult (κ σ : Type)
  | ok (mergedVault : EncryptedLocalVault σ × LegacyUnlockedVault κ)
  | notFound
  | error (message : Option String)

inductive CreateCopyResult (κ σ : Type)
  | ok (copiedVault : EncryptedLocalVault σ × LegacyUnlockedVault κ)
  | error (message : Option String)

def Storage.forgetConflict {σ : Type} (storage : Storage σ) (itemId : ItemId) : Storage σ :=
  { storage with conflictIds := storage.conflictIds.filter (· ≠ itemId) }

section
variable {κ σ : Type} (R : Runtime κ) (W : WebCrypto κ σ) (readings : Readings) (server : Server)

def handleResolveKeepLocal (storage : Storage σ) (vault : LegacyUnlockedVault κ) (userId : UserId) (itemId : ItemId) :
    Storage σ × ConflictResolutionResult :=
  match vault.snapshot.items.find? (·.id = itemId) with
  | none => (storage, .error (some "条目未找到。"))
  | some item =>
    -- a pull that fails is passed over
    let remote := server.pullVault.toOption
    let remoteItemRevision := (remote.bind fun r => r.items.find? (·.id = itemId)).map (·.revision)
    let baseServerRevision := (remote.map (·.serverRevision)).getD storage.serverRevision
    let baseItemRevision := (remoteItemRevision.or (storage.itemRevisions.get? itemId)).getD 0
    let state : SyncState :=
      ⟨0, baseServerRevision, (∅ : Table ItemId Nat).set itemId baseItemRevision, ∅, storage.pendingMutations, []⟩
    match buildItemLevelSyncPlan R readings.draws ⟨vault.key, [item]⟩ userId state with
    | none => (storage, .error none)
    | some built =>
      let planned := { storage with pendingMutations := built.pendingMutations }
      match server.itemAnswer built.plan with
      | none => (planned, .error none)
      | some response =>
        match response.conflicts with
        | [] =>
          let receipt := response.applied.mutationReceipts.find? fun r => r.operation = .upsert && r.itemId = itemId
          let appliedRevision := (receipt.map (·.appliedItemRevision)).getD response.serverRevision
          (({ planned with
              itemRevisions := storage.itemRevisions.set itemId appliedRevision
              serverRevision := response.serverRevision
              pendingMutations := built.pendingMutations.erase itemId }).forgetConflict itemId, .ok)
        | conflict :: _ =>
          let serverRevisionText := toString (conflict.serverItemRevision.getD conflict.serverRevision)
          (planned, .stillConflicting
            ("服务器仍然报告 \"" ++ item.title ++ "\" 存在冲突，云端版本为 v" ++ serverRevisionText ++ "。请刷新后重试。"))

def handleResolveAcceptRemote (storage : Storage σ) (vault : LegacyUnlockedVault κ) (itemId : ItemId) :
    Storage σ × AcceptRemoteResult κ σ :=
  match server.pullVault with
  | .error message => (storage, .error (some message))
  | .ok remote =>
    match remote.items.find? (·.id = itemId) with
    | none => (storage, .notFound)
    | some remoteItem =>
      let merged := mergeRemoteItems R readings.now storage vault [remoteItem]
      if !merged.2.failedItemIds.isEmpty then
        (merged.1, .error (some "当前本地密码库无法解密云端版本。请先从云端恢复原密码库。"))
      else
        let persisted := persistUnlockedVault W merged.1 merged.2.vault readings.nonce readings.now
        (persisted.1.forgetConflict itemId, .ok persisted.2)

def handleResolveCreateCopy (storage : Storage σ) (vault : LegacyUnlockedVault κ) (itemId : ItemId) (draw : Draw) :
    Storage σ × CreateCopyResult κ σ :=
  match vault.snapshot.items.find? (·.id = itemId) with
  | none => (storage, .error (some "条目未找到。"))
  | some item =>
    let copied := { item with
      id := draw.randomUUID, title := item.title ++ " (副本)", createdAt := draw.now, updatedAt := draw.now }
    let copy := { vault with snapshot := { vault.snapshot with items := vault.snapshot.items ++ [copied] } }
    let persisted := persistUnlockedVault W storage copy readings.nonce readings.now
    (persisted.1.forgetConflict itemId, .ok persisted.2)

def handleResolveSkip (storage : Storage σ) (itemId : ItemId) : Storage σ :=
  if itemId ∈ storage.conflictIds then storage
  else { storage with conflictIds := storage.conflictIds ++ [itemId] }

end

/-! ## Histories -/

inductive Event (κ σ : Type)
  | sync (draws : Nat → Draw) (now : String) (vault : UnlockedVault κ) (userId : UserId)
      (pushItemLevel : ItemLevelSyncPlan → Option ItemLevelSyncPushResult)
  | keepLocal (readings : Readings) (server : Server) (vault : LegacyUnlockedVault κ) (userId : UserId) (itemId : ItemId)
  | acceptRemote (readings : Readings) (server : Server) (vault : LegacyUnlockedVault κ) (itemId : ItemId)
  | createCopy (readings : Readings) (vault : LegacyUnlockedVault κ) (itemId : ItemId) (draw : Draw)
  | skip (itemId : ItemId)
  /-- The entries that the rest of a sync writes. -/
  | store (vault : Option (EncryptedLocalVault σ)) (serverRevision : Nat) (itemRevisions : Table ItemId Nat)

section
variable {κ σ : Type} (R : Runtime κ) (W : WebCrypto κ σ)

def Event.step (storage : Storage σ) : Event κ σ → Storage σ
  | sync draws now vault userId push => (performItemLevelSync R draws now storage vault userId push).storage
  | keepLocal readings server vault userId itemId =>
    (handleResolveKeepLocal R readings server storage vault userId itemId).1
  | acceptRemote readings server vault itemId => (handleResolveAcceptRemote R W readings server storage vault itemId).1
  | createCopy readings vault itemId draw => (handleResolveCreateCopy W readings storage vault itemId draw).1
  | skip itemId => handleResolveSkip storage itemId
  | store vault serverRevision itemRevisions => { storage with vault, serverRevision, itemRevisions }

def Event.answer (storage : Storage σ) : Event κ σ → Option ItemLevelSyncPushResult
  | sync draws _ vault userId push =>
    (buildItemLevelSyncPlan R draws vault userId storage.syncState).bind fun built => push built.plan
  | _ => none

def Event.sent (storage : Storage σ) : Event κ σ → Option ItemLevelSyncPlan
  | sync draws now vault userId push => (performItemLevelSync R draws now storage vault userId push).sent
  | _ => none

def Event.Reports (storage : Storage σ) (itemId : ItemId) : Event κ σ → Prop
  | sync draws now vault userId push =>
    ∃ result, (performItemLevelSync R draws now storage vault userId push).result = some result ∧
      result.hasConflicts = true ∧ itemId ∈ result.response.conflicts.map (·.itemId)
  | _ => False

def Event.Resolves (storage : Storage σ) (itemId : ItemId) : Event κ σ → Prop
  | keepLocal readings server vault userId id =>
    id = itemId ∧ (handleResolveKeepLocal R readings server storage vault userId id).2 = .ok
  | acceptRemote readings server vault id =>
    id = itemId ∧ ∃ merged, (handleResolveAcceptRemote R W readings server storage vault id).2 = .ok merged
  | createCopy readings vault id draw =>
    id = itemId ∧ ∃ copied, (handleResolveCreateCopy W readings storage vault id draw).2 = .ok copied
  | _ => False

/-- An answer names every conflict that is stored. -/
def Event.NamesStored (storage : Storage σ) (event : Event κ σ) : Prop :=
  ∀ response, event.answer R storage = some response → ∀ x ∈ storage.conflictIds, x ∈ response.conflicts.map (·.itemId)

structure History where
  storage : Nat → Storage σ
  event : Nat → Event κ σ
  next : ∀ n, storage (n + 1) = (event n).step R W (storage n)

/-- What was reported stays stored, and is not sent, until a handler resolves it. -/
def History.Remembers (H : History R W) : Prop :=
  ∀ n m x, n < m → (H.event n).Reports R (H.storage n) x →
    (∀ k, n < k → k < m → ¬ (H.event k).Resolves R W (H.storage k) x) →
    x ∈ (H.storage m).conflictIds ∧
      ∀ plan, (H.event m).sent R (H.storage m) = some plan → ∀ op ∈ plan.operations, op.id ≠ x

end

/-! ## Plans and conflicts -/

section
variable {κ : Type} {R : Runtime κ} {u : UserId} {vault : UnlockedVault κ} {state : SyncState} {draws : Nat → Draw}
variable {st st' : PlanState} {pending : Table ItemId PendingItemMutation} {id : ItemId}

theorem ownDeletes_erase (h : OwnDeletes pending) (id : ItemId) : OwnDeletes (pending.erase id) := by
  intro x p d hp hd
  rw [Table.get?_erase] at hp
  split at hp
  · cases hp
  · exact h x p d hp hd

theorem ownDeletes_eraseAll (h : OwnDeletes pending) (ids : List ItemId) : OwnDeletes (ids.foldl Table.erase pending) := by
  induction ids generalizing pending with
  | nil => exact h
  | cons id ids ih => exact ih (ownDeletes_erase h id)

theorem ownDeletes_set (h : OwnDeletes pending) {p : PendingItemMutation} (hp : ∀ d, p.delete = some d → d.id = id) :
    OwnDeletes (pending.set id p) := by
  intro x q d hq hd
  rw [Table.get?_set] at hq
  split at hq
  · rename_i hx
    cases hq
    exact (hp d hd).trans hx.symm
  · exact h x q d hq hd

theorem deletionOf_own (h : OwnDeletes state.pending) (draw : Draw) (id : ItemId) : (deletionOf u state draw id).id = id := by
  unfold deletionOf
  dsimp only
  cases hd : ((state.pending.get? id).bind (·.delete)).filter fun d => d.ownerUserId = u &&
      d.baseItemRevision = ((state.revisions.get? id).or ((state.pending.get? id).bind (·.baseItemRevision))).getD 0 with
  | none => rfl
  | some d =>
    obtain ⟨p, hp, hpd⟩ := Option.bind_eq_some_iff.mp (Option.filter_eq_some_iff.mp hd).1
    exact h id p d hp hpd

/-- What the planner has sent so far leaves the conflicts out. -/
structure LeavesConflicts (state : SyncState) (st : PlanState) : Prop where
  own : OwnDeletes st.nextPendingMutations
  upserts : ∀ up ∈ st.upserts, up.id ∉ state.conflicts
  deletes : ∀ d ∈ st.deletes, d.id ∉ state.conflicts

theorem LeavesConflicts.item {draw : Draw} {it : VaultItem} (h : LeavesConflicts state st)
    (hstep : planItem R vault u state draw st it = some st') : LeavesConflicts state st' := by
  rcases planItem_cases hstep with ⟨h1, h2, h3, -⟩ | ⟨expected, up, hconflict, -, -, hsends, h1, h2, h3⟩
  · exact ⟨h3 ▸ h.own, h1 ▸ h.upserts, h2 ▸ h.deletes⟩
  · refine ⟨h3 ▸ ownDeletes_set h.own nofun, fun up' hup => ?_, h2 ▸ h.deletes⟩
    rw [h1] at hup
    rcases List.mem_append.mp hup with hup | hup
    · exact h.upserts up' hup
    · rw [List.mem_singleton.mp hup, hsends.item.1]
      exact hconflict

theorem LeavesConflicts.delete {draw : Draw} (hown : OwnDeletes state.pending) (h : LeavesConflicts state st)
    (localIds : List ItemId) (id : ItemId) : LeavesConflicts state (planDelete localIds u state draw st id) := by
  have hid := deletionOf_own (u := u) hown draw id
  rcases planDelete_cases u state draw st localIds id with ⟨he, -⟩ | ⟨-, hconflict, -, h1, h2, h3⟩
  · rw [he]
    exact h
  · refine ⟨h3 ▸ ownDeletes_set h.own fun d hd => ?_, h1 ▸ h.upserts, fun d hd => ?_⟩
    · cases hd
      exact hid
    · rw [h2] at hd
      rcases List.mem_append.mp hd with hd | hd
      · exact h.deletes d hd
      · rw [List.mem_singleton.mp hd, hid]
        exact hconflict

theorem plan_leavesConflicts (hown : OwnDeletes state.pending) {built : BuiltPlan}
    (hb : buildItemLevelSyncPlan R draws vault u state = some built) :
    OwnDeletes built.pendingMutations ∧ ∀ op ∈ built.plan.operations, op.id ∉ state.conflicts := by
  unfold buildItemLevelSyncPlan at hb
  obtain ⟨st, hst, hb⟩ := Option.bind_eq_some_iff.mp hb
  cases hb
  have hitems : LeavesConflicts state st := by
    have hfold : ∀ (items : List (VaultItem × Nat)) (st₀ : PlanState), LeavesConflicts state st₀ →
        items.foldlM (fun st p => planItem R vault u state (draws p.2) st p.1) st₀ = some st → LeavesConflicts state st := by
      intro items
      induction items with
      | nil =>
        intro st₀ h0 h
        cases h
        exact h0
      | cons p items ih =>
        intro st₀ h0 h
        rw [List.foldlM_cons] at h
        obtain ⟨st₁, h1, h⟩ := Option.bind_eq_some_iff.mp h
        exact ih st₁ (h0.item h1) h
    exact hfold _ _ ⟨hown, fun _ h => absurd h List.not_mem_nil, fun _ h => absurd h List.not_mem_nil⟩ hst
  have hdeletes : ∀ (ids : List (ItemId × Nat)) (st₀ : PlanState), LeavesConflicts state st₀ →
      LeavesConflicts state (ids.foldl (fun st p => planDelete vault.itemIds u state (draws p.2) st p.1) st₀) := by
    intro ids
    induction ids with
    | nil => exact fun _ h0 => h0
    | cons p ids ih => exact fun st₀ h0 => ih _ (h0.delete hown vault.itemIds p.1)
  have hall := hdeletes (state.knownIds.zipIdx vault.items.length) st hitems
  refine ⟨hall.own, fun op hop => ?_⟩
  rcases List.mem_append.mp hop with hop | hop
  · obtain ⟨up, hup, rfl⟩ := List.mem_map.mp hop
    exact hall.upserts up hup
  · obtain ⟨d, hd, rfl⟩ := List.mem_map.mp hop
    exact hall.deletes d hd

end

/-! ## One event -/

section
variable {κ σ : Type} {R : Runtime κ} {W : WebCrypto κ σ} {storage : Storage σ} {x : ItemId} {event : Event κ σ}

theorem sync_conflictIds (draws : Nat → Draw) (now : String) (vault : UnlockedVault κ) (userId : UserId)
    (push : ItemLevelSyncPlan → Option ItemLevelSyncPushResult) :
    (performItemLevelSync R draws now storage vault userId push).storage.conflictIds =
      match (Event.sync draws now vault userId push : Event κ σ).answer R storage with
      | none => storage.conflictIds
      | some response => (response.conflicts.map (·.itemId)).eraseDups := by
  unfold performItemLevelSync
  simp only [Event.answer]
  cases buildItemLevelSyncPlan R draws vault userId storage.syncState with
  | none => rfl
  | some built =>
    simp only [Option.bind_some]
    cases push built.plan with
    | none => rfl
    | some response =>
      dsimp only
      split
      · rename_i hnone
        rw [List.isEmpty_iff.mp hnone]
        rfl
      · rfl

theorem sync_pending (draws : Nat → Draw) (now : String) (vault : UnlockedVault κ) (userId : UserId)
    (push : ItemLevelSyncPlan → Option ItemLevelSyncPushResult) (hown : OwnDeletes storage.pendingMutations) :
    OwnDeletes (performItemLevelSync R draws now storage vault userId push).storage.pendingMutations := by
  unfold performItemLevelSync
  cases hb : buildItemLevelSyncPlan R draws vault userId storage.syncState with
  | none => exact hown
  | some built =>
    have hplanned := (plan_leavesConflicts hown hb).1
    dsimp only
    cases push built.plan with
    | none => exact hplanned
    | some response =>
      dsimp only
      split
      · exact ownDeletes_eraseAll hplanned _
      · exact ownDeletes_eraseAll hplanned _

theorem sync_sent (draws : Nat → Draw) (now : String) (vault : UnlockedVault κ) (userId : UserId)
    (push : ItemLevelSyncPlan → Option ItemLevelSyncPushResult) (hown : OwnDeletes storage.pendingMutations)
    {plan : ItemLevelSyncPlan} (hplan : (performItemLevelSync R draws now storage vault userId push).sent = some plan) :
    ∀ op ∈ plan.operations, op.id ∉ storage.conflictIds := by
  rw [(performItemLevelSync_cases draws now storage vault userId push).2.1] at hplan
  obtain ⟨built, hb, rfl⟩ := Option.map_eq_some_iff.mp hplan
  exact (plan_leavesConflicts hown hb).2

theorem keepLocal_pending (readings : Readings) (server : Server) (vault : LegacyUnlockedVault κ) (userId : UserId)
    (itemId : ItemId) (hown : OwnDeletes storage.pendingMutations) :
    OwnDeletes (handleResolveKeepLocal R readings server storage vault userId itemId).1.pendingMutations := by
  unfold handleResolveKeepLocal
  dsimp only
  split
  · exact hown
  split
  · exact hown
  rename_i built hb
  have hplanned := (plan_leavesConflicts hown hb).1
  split
  · exact hplanned
  split
  · exact ownDeletes_erase hplanned itemId
  · exact hplanned

theorem acceptRemote_pending (readings : Readings) (server : Server) (vault : LegacyUnlockedVault κ) (itemId : ItemId) :
    (handleResolveAcceptRemote R W readings server storage vault itemId).1.pendingMutations = storage.pendingMutations := by
  unfold handleResolveAcceptRemote
  split
  · rfl
  split
  · rfl
  dsimp only
  split <;> rfl

theorem createCopy_pending (readings : Readings) (vault : LegacyUnlockedVault κ) (itemId : ItemId) (draw : Draw) :
    (handleResolveCreateCopy W readings storage vault itemId draw).1.pendingMutations = storage.pendingMutations := by
  unfold handleResolveCreateCopy
  split <;> rfl

theorem step_own (hown : OwnDeletes storage.pendingMutations) : OwnDeletes (event.step R W storage).pendingMutations := by
  cases event with
  | sync draws now vault userId push => exact sync_pending draws now vault userId push hown
  | keepLocal readings server vault userId itemId => exact keepLocal_pending readings server vault userId itemId hown
  | acceptRemote readings server vault itemId =>
    show OwnDeletes (handleResolveAcceptRemote R W readings server storage vault itemId).1.pendingMutations
    rw [acceptRemote_pending]
    exact hown
  | createCopy readings vault itemId draw =>
    show OwnDeletes (handleResolveCreateCopy W readings storage vault itemId draw).1.pendingMutations
    rw [createCopy_pending]
    exact hown
  | skip itemId =>
    show OwnDeletes (handleResolveSkip storage itemId).pendingMutations
    unfold handleResolveSkip
    split <;> exact hown
  | store vault serverRevision itemRevisions => exact hown

theorem mem_forgetConflict {itemId : ItemId} (hx : x ∈ storage.conflictIds) (hne : itemId ≠ x) :
    x ∈ (storage.forgetConflict itemId).conflictIds :=
  List.mem_filter.mpr ⟨hx, decide_eq_true (Ne.symm hne)⟩

theorem keepLocal_keeps (readings : Readings) (server : Server) (vault : LegacyUnlockedVault κ) (userId : UserId)
    (itemId : ItemId) (hx : x ∈ storage.conflictIds) :
    x ∈ (handleResolveKeepLocal R readings server storage vault userId itemId).1.conflictIds ∨
      itemId = x ∧ (handleResolveKeepLocal R readings server storage vault userId itemId).2 = .ok := by
  unfold handleResolveKeepLocal
  dsimp only
  split
  · exact .inl hx
  split
  · exact .inl hx
  split
  · exact .inl hx
  split
  · by_cases hid : itemId = x
    · exact .inr ⟨hid, rfl⟩
    · exact .inl (mem_forgetConflict hx hid)
  · exact .inl hx

theorem acceptRemote_keeps (readings : Readings) (server : Server) (vault : LegacyUnlockedVault κ) (itemId : ItemId)
    (hx : x ∈ storage.conflictIds) :
    x ∈ (handleResolveAcceptRemote R W readings server storage vault itemId).1.conflictIds ∨
      itemId = x ∧ ∃ merged, (handleResolveAcceptRemote R W readings server storage vault itemId).2 = .ok merged := by
  unfold handleResolveAcceptRemote
  split
  · exact .inl hx
  split
  · exact .inl hx
  dsimp only
  split
  · exact .inl hx
  · by_cases hid : itemId = x
    · exact .inr ⟨hid, _, rfl⟩
    · exact .inl (mem_forgetConflict hx hid)

theorem createCopy_keeps (readings : Readings) (vault : LegacyUnlockedVault κ) (itemId : ItemId) (draw : Draw)
    (hx : x ∈ storage.conflictIds) :
    x ∈ (handleResolveCreateCopy W readings storage vault itemId draw).1.conflictIds ∨
      itemId = x ∧ ∃ copied, (handleResolveCreateCopy W readings storage vault itemId draw).2 = .ok copied := by
  unfold handleResolveCreateCopy
  split
  · exact .inl hx
  · by_cases hid : itemId = x
    · exact .inr ⟨hid, _, rfl⟩
    · exact .inl (mem_forgetConflict hx hid)

/-- An event keeps the conflicts that are stored if and only if no answer leaves one out. -/
theorem sync_keeps_iff (draws : Nat → Draw) (now : String) (vault : UnlockedVault κ) (userId : UserId)
    (push : ItemLevelSyncPlan → Option ItemLevelSyncPushResult) :
    (∀ x ∈ storage.conflictIds, x ∈ ((Event.sync draws now vault userId push).step R W storage).conflictIds) ↔
      (Event.sync draws now vault userId push : Event κ σ).NamesStored R storage := by
  unfold Event.NamesStored Event.step
  rw [sync_conflictIds]
  cases (Event.sync draws now vault userId push : Event κ σ).answer R storage with
  | none => exact ⟨fun _ => nofun, fun _ x hx => hx⟩
  | some response =>
    dsimp only
    constructor
    · intro h response' he x hx
      cases he
      exact List.mem_eraseDups.mp (h x hx)
    · exact fun h x hx => List.mem_eraseDups.mpr (h response rfl x hx)

theorem step_keeps (hnames : event.NamesStored R storage) (hx : x ∈ storage.conflictIds) :
    x ∈ (event.step R W storage).conflictIds ∨ event.Resolves R W storage x := by
  cases event with
  | sync draws now vault userId push => exact .inl ((sync_keeps_iff draws now vault userId push).mpr hnames x hx)
  | keepLocal readings server vault userId itemId => exact keepLocal_keeps readings server vault userId itemId hx
  | acceptRemote readings server vault itemId => exact acceptRemote_keeps readings server vault itemId hx
  | createCopy readings vault itemId draw => exact createCopy_keeps readings vault itemId draw hx
  | skip itemId =>
    refine .inl ?_
    show x ∈ (handleResolveSkip storage itemId).conflictIds
    unfold handleResolveSkip
    split
    · exact hx
    · exact List.mem_append_left _ hx
  | store vault serverRevision itemRevisions => exact .inl hx

theorem reports_stored (h : event.Reports R storage x) : x ∈ (event.step R W storage).conflictIds := by
  cases event with
  | sync draws now vault userId push =>
    obtain ⟨result, hresult, -, hx⟩ := h
    have hanswer := (performItemLevelSync_cases (R := R) draws now storage vault userId push).2.2
    rw [hresult] at hanswer
    show x ∈ (performItemLevelSync R draws now storage vault userId push).storage.conflictIds
    rw [sync_conflictIds, show (Event.sync draws now vault userId push : Event κ σ).answer R storage = _ from hanswer.symm]
    exact List.mem_eraseDups.mpr hx
  | keepLocal => exact h.elim
  | acceptRemote => exact h.elim
  | createCopy => exact h.elim
  | skip => exact h.elim
  | store => exact h.elim

end

/-! ## Whole histories -/

section
variable {κ σ : Type} {R : Runtime κ} {W : WebCrypto κ σ}

/-- Where every answer names the conflicts that are stored, they are remembered. -/
theorem conflicts_remembered (H : History R W) (h0 : OwnDeletes (H.storage 0).pendingMutations)
    (hnames : ∀ n, (H.event n).NamesStored R (H.storage n)) : H.Remembers := by
  have hown : ∀ n, OwnDeletes (H.storage n).pendingMutations := by
    intro n
    induction n with
    | zero => exact h0
    | succ n ih =>
      rw [H.next n]
      exact step_own ih
  intro n m x hlt hreports hopen
  have hstored : x ∈ (H.storage m).conflictIds := by
    induction m with
    | zero => exact absurd hlt (Nat.not_lt_zero n)
    | succ m ih =>
      rw [H.next m]
      rcases Nat.lt_succ_iff_lt_or_eq.mp hlt with hm | rfl
      · have hx := ih hm fun k hk hkm => hopen k hk (Nat.lt_succ_of_lt hkm)
        exact (step_keeps (hnames m) hx).resolve_right (hopen m hm (Nat.lt_succ_self m))
      · exact reports_stored hreports
  refine ⟨hstored, fun plan hplan op hop hid => ?_⟩
  cases he : H.event m with
  | sync draws now vault userId push =>
    rw [he] at hplan
    exact sync_sent draws now vault userId push (hown m) hplan op hop (hid ▸ hstored)
  | keepLocal => rw [he] at hplan; exact (nomatch hplan)
  | acceptRemote => rw [he] at hplan; exact (nomatch hplan)
  | createCopy => rw [he] at hplan; exact (nomatch hplan)
  | skip => rw [he] at hplan; exact (nomatch hplan)
  | store => rw [he] at hplan; exact (nomatch hplan)

end

/-! ## A conflict that is forgotten -/

section

def sampleStates (event : Nat → Event Unit VaultSnapshot) : Nat → Storage VaultSnapshot
  | 0 => ⟨none, 0, ∅, none, [], ∅⟩
  | n + 1 => (event n).step sampleRuntime plainCrypto (sampleStates event n)

def sampleHistory (event : Nat → Event Unit VaultSnapshot) : History sampleRuntime plainCrypto :=
  ⟨sampleStates event, event, fun _ => rfl⟩

def syncWith (push : ItemLevelSyncPlan → Option ItemLevelSyncPushResult) : Event Unit VaultSnapshot :=
  .sync (sampleDraws 'a') "" sampleVault sampleUser push

def reportsConflict : Event Unit VaultSnapshot :=
  syncWith fun _ => some ⟨1, ⟨[], [], []⟩, [⟨sampleId, .upsert, .itemRevisionAdvanced, 0, 1, some 1, .missing⟩]⟩

/-- The first run reports a conflict; no later one is answered. -/
def offlineAfter : Nat → Event Unit VaultSnapshot
  | 0 => reportsConflict
  | _ + 1 => syncWith fun _ => none

/-- The first run reports a conflict; the later ones have nothing to report. -/
def quietAfter : Nat → Event Unit VaultSnapshot
  | 0 => reportsConflict
  | _ + 1 => syncWith fun _ => some ⟨1, ⟨[], [], []⟩, []⟩

theorem sampleHistory_own (event : Nat → Event Unit VaultSnapshot) :
    OwnDeletes ((sampleHistory event).storage 0).pendingMutations := fun _ _ _ hp => (nomatch hp)

theorem reportsConflict_reports : reportsConflict.Reports sampleRuntime (sampleStates offlineAfter 0) sampleId := by
  have h : (performItemLevelSync sampleRuntime (sampleDraws 'a') "" (sampleStates offlineAfter 0) sampleVault sampleUser
      fun _ => some ⟨1, ⟨[], [], []⟩, [⟨sampleId, .upsert, .itemRevisionAdvanced, 0, 1, some 1, .missing⟩]⟩).result.any
        (fun r => r.hasConflicts && (r.response.conflicts.map (·.itemId)).contains sampleId) = true := by decide +kernel
  obtain ⟨result, hresult, hreports⟩ := (Option.any_eq_true ..).mp h
  rw [Bool.and_eq_true] at hreports
  exact ⟨result, hresult, hreports.1, List.contains_iff_mem.mp hreports.2⟩

/-- `conflicts_remembered` at a client that goes offline after the conflict. -/
theorem conflicts_remembered_offline : (sampleHistory offlineAfter).Remembers ∧
    sampleId ∈ ((sampleHistory offlineAfter).storage 3).conflictIds := by
  have hremembers : (sampleHistory offlineAfter).Remembers := by
    refine conflicts_remembered _ (sampleHistory_own _) fun n => ?_
    cases n with
    | zero => exact fun _ _ x hx => absurd hx List.not_mem_nil
    | succ n =>
      intro response hanswer
      obtain ⟨built, -, hnone⟩ := Option.bind_eq_some_iff.mp hanswer
      exact (nomatch hnone)
  refine ⟨hremembers, (hremembers 0 3 sampleId (by decide) reportsConflict_reports fun k hk hk3 => ?_).1⟩
  cases k with
  | zero => exact absurd hk (Nat.lt_irrefl 0)
  | succ k => exact id

/-- The next answer is of no conflict, and the conflict is no longer stored. -/
theorem conflict_forgotten : ¬ ∀ (κ σ : Type) (R : Runtime κ) (W : WebCrypto κ σ) (H : History R W),
    OwnDeletes (H.storage 0).pendingMutations → H.Remembers := by
  intro hall
  have hstored := (hall Unit VaultSnapshot sampleRuntime plainCrypto (sampleHistory quietAfter) (sampleHistory_own _) 0 2
    sampleId (by decide) reportsConflict_reports fun k hk hk2 => by
      cases k with
      | zero => exact absurd hk (Nat.lt_irrefl 0)
      | succ k => exact id).1
  have hforgotten : ((sampleHistory quietAfter).storage 2).conflictIds = [] := by
    show (sampleStates quietAfter 2).conflictIds = []
    decide +kernel
  rw [hforgotten] at hstored
  exact List.not_mem_nil hstored

end

end ZeroVault.Legacy

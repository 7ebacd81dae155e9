import ZeroVault.LegacySync
import ZeroVault.NoSelfConflict

/-!
# Item syncs of a legacy vault never run dry

`performItemLevelSync` plans without the timestamps of what it has synced, so no
item is ever unchanged (`planItems_unsynced`). Once a run without conflicts has
emptied the conflict ids, every run sends the first items of the vault again and
no other (`upserts_first`): the pushing stops in an empty vault alone.
-/

namespace ZeroVault.Legacy

open Lib Browser

/-! ## A plan without timestamps -/

section
variable {κ : Type} {R : Runtime κ} {vault : UnlockedVault κ} {u : UserId} {state : SyncState} {draws : Nat → Draw}

theorem planItem_unsynced (ht : state.timestamps = ∅) (hc : state.conflicts = []) {draw : Draw} {st st' : PlanState}
    {it : VaultItem} (h : planItem R vault u state draw st it = some st') :
    st'.upserts.map (·.id) =
      if MAX_SYNC_MUTATIONS ≤ st.upserts.length then st.upserts.map (·.id)
      else st.upserts.map (·.id) ++ [it.id] := by
  unfold planItem at h
  simp only [ht, hc, List.not_mem_nil, if_false, Table.get?_empty, reduceCtorEq, false_and] at h
  by_cases hl : MAX_SYNC_MUTATIONS ≤ st.upserts.length
  · rw [if_pos hl] at h ⊢
    cases h
    rfl
  · rw [if_neg hl, Option.map_eq_some_iff] at h
    obtain ⟨up, hup, rfl⟩ := h
    have hid : up.id = it.id := by
      rcases Option.or_eq_some_iff.mp hup with hr | ⟨-, hf⟩
      · obtain ⟨-, -, -, -, -, hid, -⟩ := replayedUpsert_eq.mp hr
        exact hid
      · exact (freshUpsert_eq hf).1
    rw [if_neg hl, List.map_append, List.map_singleton, hid]

theorem planItems_unsynced (ht : state.timestamps = ∅) (hc : state.conflicts = []) {items : List (VaultItem × Nat)} :
    ∀ {st st' : PlanState}, st.upserts.length ≤ MAX_SYNC_MUTATIONS →
      items.foldlM (fun st p => planItem R vault u state (draws p.2) st p.1) st = some st' →
      st'.upserts.map (·.id) = (st.upserts.map (·.id) ++ items.map (·.1.id)).take MAX_SYNC_MUTATIONS := by
  induction items with
  | nil =>
    intro st st' hl h
    cases h
    rw [List.map_nil, List.append_nil, List.take_of_length_le (by simpa using hl)]
  | cons p items ih =>
    intro st st' hl h
    rw [List.foldlM_cons] at h
    obtain ⟨st₁, h1, h⟩ := Option.bind_eq_some_iff.mp h
    have hids := planItem_unsynced ht hc h1
    have hlen : st₁.upserts.length = (st₁.upserts.map (·.id)).length := (List.length_map _).symm
    by_cases hfull : MAX_SYNC_MUTATIONS ≤ st.upserts.length
    · rw [if_pos hfull] at hids
      have hle : (st.upserts.map (·.id)).length = MAX_SYNC_MUTATIONS := by
        rw [List.length_map]
        exact Nat.le_antisymm hl hfull
      have hle₁ : st₁.upserts.length ≤ MAX_SYNC_MUTATIONS := by
        rw [hlen, hids]
        exact Nat.le_of_eq hle
      have hge := Nat.le_of_eq hle.symm
      rw [ih hle₁ h, hids, List.take_append_of_le_length hge, List.take_append_of_le_length hge]
    · rw [if_neg hfull] at hids
      have hle : st₁.upserts.length ≤ MAX_SYNC_MUTATIONS := by
        rw [hlen, hids, List.length_append, List.length_map]
        exact Nat.lt_of_not_le hfull
      rw [ih hle h, hids, List.append_assoc, List.map_cons, List.singleton_append]

/-- With nothing recorded as synced, a plan upserts the first items, changed or not. -/
theorem buildItemLevelSyncPlan_unsynced (ht : state.timestamps = ∅) (hc : state.conflicts = []) {built : BuiltPlan}
    (h : buildItemLevelSyncPlan R draws vault u state = some built) :
    built.plan.upserts.map (·.id) = vault.itemIds.take MAX_SYNC_MUTATIONS := by
  unfold buildItemLevelSyncPlan at h
  obtain ⟨st, hst, h⟩ := Option.bind_eq_some_iff.mp h
  cases h
  rw [← (planDeletes_grows u state draws vault.itemIds (state.knownIds.zipIdx vault.items.length)).1,
    planItems_unsynced ht hc (Nat.zero_le _) hst]
  have hids : vault.items.zipIdx.map (fun p => p.1.id) = vault.itemIds := by
    rw [show (fun p : VaultItem × Nat => p.1.id) = (·.id) ∘ Prod.fst from rfl, ← List.map_map,
      List.zipIdx_map_fst]
    rfl
  rw [hids]
  rfl

end

/-! ## Runs -/

section
variable {κ σ : Type} {R : Runtime κ} {vault : UnlockedVault κ} {u : UserId}

/-- Everything a call that returns did. -/
theorem performItemLevelSync_returned {draws : Nat → Draw} {now : String} {storage : Storage σ}
    {push : ItemLevelSyncPlan → Option ItemLevelSyncPushResult} {result : ItemLevelSyncResult κ}
    (h : (performItemLevelSync R draws now storage vault u push).result = some result) :
    ∃ built, buildItemLevelSyncPlan R draws vault u storage.syncState = some built ∧
      (performItemLevelSync R draws now storage vault u push).sent = some built.plan ∧
      push built.plan = some result.response ∧
      (result.hasConflicts = false →
        (performItemLevelSync R draws now storage vault u push).storage.conflictIds = []) := by
  unfold performItemLevelSync at h ⊢
  cases hb : buildItemLevelSyncPlan R draws vault u storage.syncState with
  | none =>
    rw [hb] at h
    cases h
  | some built =>
    rw [hb] at h
    dsimp only at h ⊢
    cases hp : push built.plan with
    | none =>
      rw [hp] at h
      cases h
    | some response =>
      rw [hp] at h
      dsimp only at h ⊢
      by_cases hc : response.conflicts.isEmpty
      · rw [if_pos hc] at h ⊢
        cases h
        exact ⟨built, rfl, rfl, hp, fun _ => rfl⟩
      · rw [if_neg hc] at h ⊢
        cases h
        exact ⟨built, rfl, rfl, hp, fun hf => nomatch hf⟩

/-- `performItemLevelSync` again and again on a vault that nobody edits; every
call returns, and without conflicts. -/
structure Runs (R : Runtime κ) (σ : Type) (vault : UnlockedVault κ) (u : UserId) where
  storage : Nat → Storage σ
  draws : Nat → Nat → Draw
  now : Nat → String
  push : Nat → ItemLevelSyncPlan → Option ItemLevelSyncPushResult
  result : Nat → ItemLevelSyncResult κ
  returns : ∀ n, (performItemLevelSync R (draws n) (now n) (storage n) vault u (push n)).result = some (result n)
  conflictFree : ∀ n, (result n).hasConflicts = false
  next : ∀ n, storage (n + 1) = (performItemLevelSync R (draws n) (now n) (storage n) vault u (push n)).storage

namespace Runs

def upserts (runs : Runs R σ vault u) (n : Nat) : List ItemLevelEncryptedUpsert :=
  ((performItemLevelSync R (runs.draws n) (runs.now n) (runs.storage n) vault u (runs.push n)).sent.map
    (·.upserts)).getD []

def Upserted (runs : Runs R σ vault u) (n : Nat) (item : VaultItem) : Prop :=
  item.id ∈ (runs.result n).response.applied.upsertedItemIds ∧
    ∃ up ∈ runs.upserts n, up.id = item.id ∧
      R.decryptItem vault.key ⟨up.encryptedItemKey, up.encryptedPayload⟩ item.id = some item

/-- After finitely many runs every item has been upserted, and no later run sends upserts. -/
def Drains (runs : Runs R σ vault u) : Prop :=
  ∃ n, (∀ item ∈ vault.items, ∃ k < n, runs.Upserted k item) ∧ ∀ m, n ≤ m → runs.upserts m = []

theorem conflictIds_next (runs : Runs R σ vault u) (n : Nat) : (runs.storage (n + 1)).conflictIds = [] := by
  obtain ⟨-, -, -, -, hc⟩ := performItemLevelSync_returned (runs.returns n)
  rw [runs.next n]
  exact hc (runs.conflictFree n)

/-- From the second run on, the upserts are those of the first items. -/
theorem upserts_first (runs : Runs R σ vault u) (n : Nat) :
    (runs.upserts (n + 1)).map (·.id) = vault.itemIds.take MAX_SYNC_MUTATIONS := by
  obtain ⟨built, hb, hs, -, -⟩ := performItemLevelSync_returned (runs.returns (n + 1))
  have hids := buildItemLevelSyncPlan_unsynced rfl (runs.conflictIds_next n) hb
  unfold upserts
  rw [hs]
  exact hids

theorem upserts_ne_nil (runs : Runs R σ vault u) (hne : vault.items ≠ []) (n : Nat) : runs.upserts (n + 1) ≠ [] := by
  intro hu
  have hids := runs.upserts_first n
  rw [hu, List.map_nil] at hids
  rcases List.take_eq_nil_iff.mp hids.symm with h0 | hnil
  · exact absurd h0 (by decide)
  · exact hne (List.map_eq_nil_iff.mp hnil)

end Runs

/-- The runs drain the vault if and only if it has no items. -/
theorem legacy_sync_drains (runs : Runs R σ vault u) : runs.Drains ↔ vault.items = [] := by
  constructor
  · rintro ⟨n, -, hquiet⟩
    by_contra hne
    exact runs.upserts_ne_nil hne n (hquiet (n + 1) (Nat.le_succ n))
  · intro hnil
    refine ⟨1, fun item hitem => ?_, fun m hm => ?_⟩
    · rw [hnil] at hitem
      cases hitem
    · obtain ⟨n, rfl⟩ := Nat.exists_eq_add_of_le' hm
      have hids := runs.upserts_first n
      unfold UnlockedVault.itemIds at hids
      rw [hnil, List.map_nil, List.take_nil] at hids
      exact List.map_eq_nil_iff.mp hids

end

/-! ## A vault that is sent for ever -/

def sampleVault : UnlockedVault Unit := ⟨(), [firstNote]⟩

def takesAll (plan : ItemLevelSyncPlan) : Option ItemLevelSyncPushResult :=
  some ⟨1, ⟨plan.upserts.map (·.id), [], []⟩, []⟩

def sampleRun (storage : Storage Unit) : ItemLevelRun Unit Unit :=
  performItemLevelSync sampleRuntime (sampleDraws 'a') "" storage sampleVault sampleUser takesAll

theorem sampleRun_returns (storage : Storage Unit) :
    ∃ result, (sampleRun storage).result = some result ∧ result.hasConflicts = false := by
  have hfresh (expected : Nat) (draw : Draw) :
      (freshUpsert sampleRuntime sampleVault sampleUser firstNote expected draw).isSome := by
    have hpasses : (aeadCiphertextEnvelopeSchema (sampleBundle firstNote).encryptedItemKey &&
        aeadCiphertextEnvelopeSchema (sampleBundle firstNote).encryptedPayload &&
        (generateSearchTokens sampleRuntime sampleVault firstNote).all hmacSha256EnvelopeSchema) = true := by
      decide
    unfold freshUpsert
    dsimp only
    rw [show encryptItemForSync sampleRuntime sampleVault firstNote draw.nonces = sampleBundle firstNote from rfl,
      if_pos hpasses]
    rfl
  have hitem (state : SyncState) (draw : Draw) (st : PlanState) :
      (planItem sampleRuntime sampleVault sampleUser state draw st firstNote).isSome := by
    unfold planItem
    dsimp only
    split_ifs
    · rfl
    · rfl
    · rfl
    · rw [Option.isSome_map, Option.isSome_or, hfresh, Bool.or_true]
  have hplan : (buildItemLevelSyncPlan sampleRuntime (sampleDraws 'a') sampleVault sampleUser storage.syncState).isSome := by
    obtain ⟨st, hst⟩ := Option.isSome_iff_exists.mp (hitem storage.syncState (sampleDraws 'a' 0)
      ⟨[], [], [], storage.syncState.pending⟩)
    have hitems : sampleVault.items.zipIdx.foldlM (fun st p =>
        planItem sampleRuntime sampleVault sampleUser storage.syncState (sampleDraws 'a' p.2) st p.1)
        ⟨[], [], [], storage.syncState.pending⟩ = some st := by
      rw [show sampleVault.items.zipIdx = [(firstNote, 0)] from rfl, List.foldlM_cons, hst]
      rfl
    unfold buildItemLevelSyncPlan
    rw [hitems]
    rfl
  obtain ⟨built, hb⟩ := Option.isSome_iff_exists.mp hplan
  unfold sampleRun performItemLevelSync
  rw [hb]
  exact ⟨_, rfl, rfl⟩

def emptyStorage : Storage Unit := ⟨none, 0, ∅, none, [], ∅⟩

def sampleStorage : Nat → Storage Unit
  | 0 => emptyStorage
  | n + 1 => (sampleRun (sampleStorage n)).storage

/-- One item and a server that takes everything: the item is sent in every run. -/
theorem item_sent_forever :
    ¬ ∀ (κ σ : Type) (R : Runtime κ) (vault : UnlockedVault κ) (u : UserId) (runs : Runs R σ vault u), runs.Drains := by
  intro hall
  choose result hreturns hfree using fun n => sampleRun_returns (sampleStorage n)
  let runs : Runs sampleRuntime Unit sampleVault sampleUser :=
    { storage := sampleStorage
      draws _ := sampleDraws 'a'
      now _ := ""
      push _ := takesAll
      result := result
      returns := hreturns
      conflictFree := hfree
      next _ := rfl }
  obtain ⟨n, -, hquiet⟩ := hall Unit Unit sampleRuntime sampleVault sampleUser runs
  exact runs.upserts_ne_nil (by decide) n (hquiet (n + 1) (Nat.le_succ n))

end ZeroVault.Legacy

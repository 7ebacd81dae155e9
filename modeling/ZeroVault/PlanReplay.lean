import ZeroVault.NoSelfConflict

/-!
# What a plan is made of

Whatever a client has recorded, a plan is one upsert for each of some dirty
items and one deletion for each of some known ids that left the vault, each of
them recorded, and the others are left out only by a full plan
(`built_made`). Where the records are the planner's own, what is sent again is
sent as it was recorded.
-/

namespace ZeroVault.Browser

open Lib

/-! ## What waits to be sent -/

section
variable {κ : Type} (vault : UnlockedVault κ) (u : UserId) (state : SyncState)

/-- An item whose upsert waits to be sent. -/
def Dirty (it : VaultItem) : Prop :=
  it.id ∉ state.conflicts ∧
    ¬ (state.timestamps.get? it.id = some it.updatedAt ∧ state.pending.get? it.id = none)

instance : DecidablePred (Dirty state) := fun _ => inferInstanceAs (Decidable (_ ∧ _))

/-- A known id whose deletion waits to be sent. -/
def Gone (x : ItemId) : Prop := x ∈ state.knownIds ∧ x ∉ vault.itemIds ∧ x ∉ state.conflicts

instance : DecidablePred (Gone vault state) := fun _ => inferInstanceAs (Decidable (_ ∧ _))

def deletionBase (x : ItemId) : Nat :=
  ((state.revisions.get? x).or ((state.pending.get? x).bind (·.baseItemRevision))).getD 0

def replayedDelete (x : ItemId) : Option ItemLevelEncryptedDelete :=
  ((state.pending.get? x).bind (·.delete)).filter fun d =>
    d.ownerUserId = u && d.baseItemRevision = deletionBase state x

/-- A deletion that is sent again is one of the id it is recorded under. -/
def DeletesOwn : Prop := ∀ x d, Gone vault state x → replayedDelete u state x = some d → d.id = x

variable {vault u state}

theorem deletionOf_eq (draw : Draw) (x : ItemId) :
    deletionOf u state draw x =
      (replayedDelete u state x).getD ⟨x, u, deletionBase state x, draw.now, draw.randomUUID⟩ := rfl

theorem deletionOf_base (draw : Draw) (x : ItemId) :
    (deletionOf u state draw x).baseItemRevision = deletionBase state x := by
  rw [deletionOf_eq]
  cases hr : replayedDelete u state x with
  | none => rfl
  | some d =>
    obtain ⟨-, hf⟩ := Option.filter_eq_some_iff.mp hr
    simp only [Bool.and_eq_true, decide_eq_true_eq] at hf
    exact hf.2

theorem DeletesOwn.id (h : DeletesOwn vault u state) {x : ItemId} (hx : Gone vault state x) (draw : Draw) :
    (deletionOf u state draw x).id = x := by
  rw [deletionOf_eq]
  cases hr : replayedDelete u state x with
  | none => rfl
  | some d => exact h x d hx hr

end

/-! ## The loop over the items -/

section
variable {κ : Type} (R : Runtime κ) (vault : UnlockedVault κ) (u : UserId) (state : SyncState) (draws : Nat → Draw)

/-- An upsert of the plan is one of a dirty item, and the item's pending mutation. -/
def UpsertOf (pending : Table ItemId PendingItemMutation) (it : VaultItem) (i : Nat) (up : ItemLevelEncryptedUpsert) :
    Prop :=
  Dirty state it ∧ ∃ expected,
    Sends R vault u it (draws i) (state.revisions.get? it.id) (state.pending.get? it.id) expected up ∧
      pending.get? it.id = some ⟨it.updatedAt, up.clientMutationId, some expected, some up, none⟩

structure UpsertsDone (done : List (VaultItem × Nat)) (st : PlanState) : Prop where
  deletes : st.deletes = []
  bounded : st.upserts.length ≤ MAX_SYNC_MUTATIONS
  ids : (st.upserts.map (·.id)).Sublist (done.map (·.1.id))
  sent : ∀ up ∈ st.upserts, ∃ p ∈ done, UpsertOf R vault u state draws st.nextPendingMutations p.1 p.2 up
  kept : ∀ x, x ∉ st.upserts.map (·.id) → st.nextPendingMutations.get? x = state.pending.get? x
  full : ∀ p ∈ done, Dirty state p.1 → p.1.id ∈ st.upserts.map (·.id) ∨ MAX_SYNC_MUTATIONS ≤ st.upserts.length

variable {R vault u state draws}

theorem UpsertsDone.skip {done : List (VaultItem × Nat)} {st st' : PlanState} {p : VaultItem × Nat}
    (h : UpsertsDone R vault u state draws done st) (hups : st'.upserts = st.upserts) (hdels : st'.deletes = st.deletes)
    (hnext : st'.nextPendingMutations = st.nextPendingMutations)
    (hp : Dirty state p.1 → MAX_SYNC_MUTATIONS ≤ st.upserts.length) :
    UpsertsDone R vault u state draws (done ++ [p]) st' where
  deletes := hdels.trans h.deletes
  bounded := hups ▸ h.bounded
  ids := by
    rw [hups, List.map_append]
    exact h.ids.trans (List.sublist_append_left _ _)
  sent up hup := by
    rw [hups] at hup
    obtain ⟨q, hq, hup⟩ := h.sent up hup
    exact ⟨q, List.mem_append_left _ hq, hnext ▸ hup⟩
  kept x hx := by
    rw [hnext]
    exact h.kept x (hups ▸ hx)
  full q hq hd := by
    rw [hups]
    rcases List.mem_append.mp hq with hq | hq
    · exact h.full q hq hd
    · cases List.mem_singleton.mp hq
      exact .inr (hp hd)

theorem UpsertsDone.send {done : List (VaultItem × Nat)} {st st' : PlanState} {p : VaultItem × Nat} {expected : Nat}
    {up : ItemLevelEncryptedUpsert} (h : UpsertsDone R vault u state draws done st) (hnew : p.1.id ∉ done.map (·.1.id))
    (hd : Dirty state p.1) (hfull : st.upserts.length < MAX_SYNC_MUTATIONS)
    (hs : Sends R vault u p.1 (draws p.2) (state.revisions.get? p.1.id) (state.pending.get? p.1.id) expected up)
    (hups : st'.upserts = st.upserts ++ [up]) (hdels : st'.deletes = st.deletes)
    (hnext : st'.nextPendingMutations = st.nextPendingMutations.set p.1.id
      ⟨p.1.updatedAt, up.clientMutationId, some expected, some up, none⟩) :
    UpsertsDone R vault u state draws (done ++ [p]) st' where
  deletes := hdels.trans h.deletes
  bounded := by
    rw [hups, List.length_append, List.length_singleton]
    exact hfull
  ids := by
    rw [hups, List.map_append, List.map_append]
    refine h.ids.append ?_
    rw [List.map_singleton, List.map_singleton, hs.item.1]
  sent up' hup' := by
    rw [hups] at hup'
    rcases List.mem_append.mp hup' with hold | hlast
    · obtain ⟨q, hq, hdq, e, hsq, hpq⟩ := h.sent up' hold
      have hne : q.1.id ≠ p.1.id := fun he => hnew (he ▸ List.mem_map_of_mem (f := fun q : VaultItem × Nat => q.1.id) hq)
      refine ⟨q, List.mem_append_left _ hq, hdq, e, hsq, ?_⟩
      rw [hnext, Table.get?_set, if_neg hne]
      exact hpq
    · cases List.mem_singleton.mp hlast
      refine ⟨p, List.mem_append_right _ (List.mem_singleton_self p), hd, expected, hs, ?_⟩
      rw [hnext, Table.get?_set, if_pos rfl]
  kept x hx := by
    rw [hups, List.map_append, List.map_singleton, List.mem_append, List.mem_singleton, not_or, hs.item.1] at hx
    rw [hnext, Table.get?_set, if_neg hx.2]
    exact h.kept x hx.1
  full q hq hdq := by
    rw [hups, List.map_append, List.length_append, List.mem_append]
    rcases List.mem_append.mp hq with hq | hq
    · rcases h.full q hq hdq with hm | hm
      · exact .inl (.inl hm)
      · exact .inr (Nat.le_trans hm (Nat.le_add_right _ _))
    · cases List.mem_singleton.mp hq
      refine .inl (.inr ?_)
      rw [List.map_singleton, List.mem_singleton, hs.item.1]

theorem planItems_done {items : List (VaultItem × Nat)} (hn : (items.map (·.1.id)).Nodup) {st : PlanState}
    (h : items.foldlM (fun st p => planItem R vault u state (draws p.2) st p.1) ⟨[], [], [], state.pending⟩ = some st) :
    UpsertsDone R vault u state draws items st := by
  induction items using List.reverseRecOn generalizing st with
  | nil =>
    cases h
    exact ⟨rfl, Nat.zero_le _, List.Sublist.refl _, fun _ h => absurd h List.not_mem_nil, fun _ _ => rfl,
      fun _ h => absurd h List.not_mem_nil⟩
  | append_singleton done p ih =>
    rw [List.foldlM_append] at h
    obtain ⟨st₁, h1, h⟩ := Option.bind_eq_some_iff.mp h
    rw [List.foldlM_cons] at h
    obtain ⟨st₂, h2, h⟩ := Option.bind_eq_some_iff.mp h
    cases h
    rw [List.map_append, List.nodup_append] at hn
    obtain ⟨hdone, -, hdisjoint⟩ := hn
    have hnew : p.1.id ∉ done.map (·.1.id) := fun hm => hdisjoint _ hm _ (List.mem_singleton_self _) rfl
    have hst := ih hdone h1
    have hpend : st₁.nextPendingMutations.get? p.1.id = state.pending.get? p.1.id :=
      hst.kept _ fun hm => hnew (hst.ids.subset hm)
    rcases planItem_cases h2 with ⟨hups, hdels, hnext, hwhy⟩ | ⟨expected, up, hc, hchanged, hroom, hs, hups, hdels, hnext⟩
    · refine hst.skip hups hdels hnext fun hd => ?_
      rcases hwhy with hc | hs | hfull
      · exact absurd hc hd.1
      · exact absurd (hpend ▸ hs) hd.2
      · exact hfull
    · rw [hpend] at hs hchanged
      exact hst.send hnew ⟨hc, hchanged⟩ hroom hs hups hdels hnext

end

/-! ## The loop over the known ids -/

section
variable {κ : Type} (vault : UnlockedVault κ) (u : UserId) (state : SyncState) (draws : Nat → Draw)

/-- What is recorded of the deletion that the `i`th turn sends for an id. -/
def deletionRecord (i : Nat) (x : ItemId) : PendingItemMutation :=
  let deletion := deletionOf u state (draws i) x
  ⟨deletion.deletedAt, deletion.clientMutationId, some (deletionBase state x), none, some deletion⟩

/-- What the second loop has done after some of its turns, of which `turns` sent a deletion. -/
structure DeletesDone (st₀ : PlanState) (done turns : List (ItemId × Nat)) (st : PlanState) : Prop where
  upserts : st.upserts = st₀.upserts
  bounded : st.upserts.length + st.deletes.length ≤ MAX_SYNC_MUTATIONS
  ids : turns.Sublist done
  deletes : st.deletes = turns.map fun p => deletionOf u state (draws p.2) p.1
  absent : ∀ p ∈ turns, p.1 ∉ vault.itemIds ∧ p.1 ∉ state.conflicts
  recorded : ∀ p ∈ turns, st.nextPendingMutations.get? p.1 = some (deletionRecord u state draws p.2 p.1)
  kept : ∀ x, x ∉ turns.map Prod.fst → st.nextPendingMutations.get? x = st₀.nextPendingMutations.get? x
  full : ∀ p ∈ done, p.1 ∉ vault.itemIds → p.1 ∉ state.conflicts →
    p ∈ turns ∨ MAX_SYNC_MUTATIONS ≤ st.upserts.length + st.deletes.length

variable {vault u state draws}

theorem DeletesDone.skip {st₀ st : PlanState} {done turns : List (ItemId × Nat)} {p : ItemId × Nat}
    (h : DeletesDone vault u state draws st₀ done turns st)
    (hp : p.1 ∉ vault.itemIds → p.1 ∉ state.conflicts →
      MAX_SYNC_MUTATIONS ≤ st.upserts.length + st.deletes.length) :
    DeletesDone vault u state draws st₀ (done ++ [p]) turns st :=
  { h with
    ids := h.ids.trans (List.sublist_append_left _ _)
    full := fun q hq hlocal hc => by
      rcases List.mem_append.mp hq with hq | hq
      · exact h.full q hq hlocal hc
      · cases List.mem_singleton.mp hq
        exact .inr (hp hlocal hc) }

theorem DeletesDone.send {st₀ st st' : PlanState} {done turns : List (ItemId × Nat)} {p : ItemId × Nat}
    (h : DeletesDone vault u state draws st₀ done turns st) (hnew : p.1 ∉ done.map Prod.fst)
    (hlocal : p.1 ∉ vault.itemIds) (hc : p.1 ∉ state.conflicts)
    (hroom : st.upserts.length + st.deletes.length < MAX_SYNC_MUTATIONS) (hups : st'.upserts = st.upserts)
    (hdels : st'.deletes = st.deletes ++ [deletionOf u state (draws p.2) p.1])
    (hnext : st'.nextPendingMutations = st.nextPendingMutations.set p.1 (deletionRecord u state draws p.2 p.1)) :
    DeletesDone vault u state draws st₀ (done ++ [p]) (turns ++ [p]) st' where
  upserts := hups.trans h.upserts
  bounded := by
    rw [hups, hdels, List.length_append, List.length_singleton]
    omega
  ids := h.ids.append (List.Sublist.refl _)
  deletes := by rw [hdels, h.deletes, List.map_append, List.map_singleton]
  absent q hq := by
    rcases List.mem_append.mp hq with hq | hq
    · exact h.absent q hq
    · cases List.mem_singleton.mp hq
      exact ⟨hlocal, hc⟩
  recorded q hq := by
    rw [hnext, Table.get?_set]
    rcases List.mem_append.mp hq with hq | hq
    · have hne : q.1 ≠ p.1 := fun he => hnew (he ▸ List.mem_map_of_mem (h.ids.subset hq))
      rw [if_neg hne]
      exact h.recorded q hq
    · cases List.mem_singleton.mp hq
      rw [if_pos rfl]
  kept x hx := by
    rw [List.map_append, List.map_singleton, List.mem_append, List.mem_singleton, not_or] at hx
    rw [hnext, Table.get?_set, if_neg hx.2]
    exact h.kept x hx.1
  full q hq hlocal hc := by
    rw [hups, hdels, List.length_append, List.mem_append]
    rcases List.mem_append.mp hq with hq | hq
    · rcases h.full q hq hlocal hc with hm | hm
      · exact .inl (.inl hm)
      · exact .inr (by omega)
    · exact .inl (.inr hq)

theorem planDeletes_done {st₀ : PlanState} (hdels : st₀.deletes = []) (hbound : st₀.upserts.length ≤ MAX_SYNC_MUTATIONS)
    {ids : List (ItemId × Nat)} (hn : (ids.map Prod.fst).Nodup) :
    ∃ turns, DeletesDone vault u state draws st₀ ids turns
      (ids.foldl (fun st p => planDelete vault.itemIds u state (draws p.2) st p.1) st₀) := by
  induction ids using List.reverseRecOn with
  | nil =>
    refine ⟨[], rfl, ?_, List.Sublist.refl _, hdels, fun _ h => absurd h List.not_mem_nil,
      fun _ h => absurd h List.not_mem_nil, fun _ _ => rfl, fun _ h => absurd h List.not_mem_nil⟩
    rw [List.foldl_nil, hdels]
    exact hbound
  | append_singleton done p ih =>
    rw [List.map_append, List.nodup_append] at hn
    obtain ⟨hdone, -, hdisjoint⟩ := hn
    have hnew : p.1 ∉ done.map Prod.fst := fun hm => hdisjoint _ hm _ (List.mem_singleton_self _) rfl
    obtain ⟨turns, hst⟩ := ih hdone
    rw [List.foldl_append, List.foldl_cons, List.foldl_nil]
    generalize done.foldl (fun st p => planDelete vault.itemIds u state (draws p.2) st p.1) st₀ = st at hst ⊢
    rcases planDelete_cases u state (draws p.2) st vault.itemIds p.1 with
      ⟨he, hwhy⟩ | ⟨hlocal, hc, hroom, h1, h2, h3⟩
    · rw [he]
      refine ⟨turns, hst.skip fun hlocal hc => ?_⟩
      rcases hwhy with h | h | h
      · exact absurd h hlocal
      · exact absurd h hc
      · exact h
    · exact ⟨turns ++ [p], hst.send hnew hlocal hc hroom h1 h2 h3⟩

end

/-! ## The plan -/

section
variable {κ : Type} (R : Runtime κ) (vault : UnlockedVault κ) (u : UserId) (state : SyncState) (draws : Nat → Draw)

/-- A plan, of which the turns `turns` of the second loop sent the deletions. -/
structure Made (built : BuiltPlan) (turns : List (ItemId × Nat)) : Prop where
  bounded : built.plan.operations.length ≤ MAX_SYNC_MUTATIONS
  upsertIds : (built.plan.upserts.map (·.id)).Sublist vault.itemIds
  upserts : ∀ up ∈ built.plan.upserts, ∃ it ∈ vault.items, ∃ i, UpsertOf R vault u state draws built.pendingMutations it i up
  deletes : built.plan.deletes = turns.map fun p => deletionOf u state (draws p.2) p.1
  deleteIds : (turns.map Prod.fst).Nodup
  gone : ∀ p ∈ turns, Gone vault state p.1
  recorded : ∀ p ∈ turns, built.pendingMutations.get? p.1 = some (deletionRecord u state draws p.2 p.1)
  kept : ∀ x, x ∉ built.plan.upserts.map (·.id) → x ∉ turns.map Prod.fst →
    built.pendingMutations.get? x = state.pending.get? x
  dirty : ∀ it ∈ vault.items, Dirty state it →
    it.id ∈ built.plan.upserts.map (·.id) ∨ MAX_SYNC_MUTATIONS ≤ built.plan.operations.length
  known : ∀ x, Gone vault state x →
    x ∈ turns.map Prod.fst ∨ MAX_SYNC_MUTATIONS ≤ built.plan.operations.length

variable {R vault u state draws} {built : BuiltPlan}

theorem length_operations (plan : ItemLevelSyncPlan) :
    plan.operations.length = plan.upserts.length + plan.deletes.length := by
  unfold ItemLevelSyncPlan.operations
  rw [List.length_append, List.length_map, List.length_map]

theorem built_made (hn : vault.itemIds.Nodup) (h : buildItemLevelSyncPlan R draws vault u state = some built) :
    ∃ turns, Made R vault u state draws built turns := by
  obtain ⟨st, st', h1, h2, rfl⟩ := built_loops h
  have hids : vault.items.zipIdx.map (·.1.id) = vault.itemIds := by
    unfold UnlockedVault.itemIds
    rw [← List.zipIdx_map_fst 0 vault.items, List.map_map, List.zipIdx_map_fst]
    rfl
  have hitems := planItems_done (hids ▸ hn) h1
  have hknown : ((state.knownIds.zipIdx vault.items.length).map Prod.fst) = state.knownIds := List.zipIdx_map_fst _ _
  obtain ⟨turns, hdone⟩ := @planDeletes_done κ vault u state draws st hitems.deletes hitems.bounded _
    (hknown ▸ knownIds_nodup state)
  rw [h2] at hdone
  have hmem : ∀ p ∈ vault.items.zipIdx, p.1 ∈ vault.items := fun p hp => by
    rw [← List.zipIdx_map_fst 0 vault.items]
    exact List.mem_map_of_mem hp
  have hsub : (turns.map Prod.fst).Sublist state.knownIds := hknown ▸ hdone.ids.map Prod.fst
  refine ⟨turns, ?_, ?_, fun up hup => ?_, hdone.deletes, hsub.nodup (knownIds_nodup state), fun p hp => ?_,
    hdone.recorded, fun x hx hx' => ?_, fun it hit hd => ?_, fun x hx => ?_⟩
  · rw [length_operations]
    exact hdone.bounded
  · rw [← hids, hdone.upserts]
    exact hitems.ids
  · rw [hdone.upserts] at hup
    obtain ⟨p, hp, hd, expected, hs, hpend⟩ := hitems.sent up hup
    refine ⟨p.1, hmem p hp, p.2, hd, expected, hs, ?_⟩
    -- the second loop leaves what the vault still has
    rw [hdone.kept, hpend]
    intro ht
    obtain ⟨q, hq, hqp⟩ := List.mem_map.mp ht
    exact (hdone.absent q hq).1 (hqp ▸ List.mem_map_of_mem (hmem p hp))
  · exact ⟨hsub.subset (List.mem_map_of_mem hp), (hdone.absent p hp).1, (hdone.absent p hp).2⟩
  · rw [hdone.kept x hx', hitems.kept x (hdone.upserts ▸ hx)]
  · rw [← List.zipIdx_map_fst 0 vault.items] at hit
    obtain ⟨p, hp, rfl⟩ := List.mem_map.mp hit
    rw [length_operations, hdone.upserts]
    rcases hitems.full p hp hd with hm | hm
    · exact .inl hm
    · exact .inr (Nat.le_trans hm (Nat.le_add_right _ _))
  · obtain ⟨hk, hlocal, hc⟩ := hx
    rw [← hknown] at hk
    obtain ⟨p, hp, rfl⟩ := List.mem_map.mp hk
    rw [length_operations]
    rcases hdone.full p hp hlocal hc with hm | hm
    · exact .inl (List.mem_map_of_mem hm)
    · exact .inr hm

/-- The operations of a plan are of different items where the deletions are. -/
theorem Made.ids {turns : List (ItemId × Nat)} (h : Made R vault u state draws built turns)
    (hown : DeletesOwn vault u state) :
    built.plan.operations.map (·.id) = built.plan.upserts.map (·.id) ++ turns.map Prod.fst := by
  have hups : (built.plan.upserts.map Operation.upsert).map (·.id) = built.plan.upserts.map (·.id) := by
    rw [List.map_map]
    rfl
  have hdels : (built.plan.deletes.map Operation.delete).map (·.id) = turns.map Prod.fst := by
    rw [h.deletes, List.map_map, List.map_map]
    exact List.map_congr_left fun p hp => hown.id (h.gone p hp) _
  unfold ItemLevelSyncPlan.operations
  rw [List.map_append, hups, hdels]

theorem Made.nodup {turns : List (ItemId × Nat)} (hn : vault.itemIds.Nodup) (h : Made R vault u state draws built turns)
    (hown : DeletesOwn vault u state) : (built.plan.operations.map (·.id)).Nodup := by
  rw [h.ids hown, List.nodup_append]
  refine ⟨h.upsertIds.nodup hn, h.deleteIds, fun x hx y hy he => ?_⟩
  obtain ⟨p, hp, rfl⟩ := List.mem_map.mp hy
  exact (h.gone p hp).2.1 (he ▸ h.upsertIds.subset hx)

theorem Made.operation {turns : List (ItemId × Nat)} (h : Made R vault u state draws built turns) {op : Operation}
    (hop : op ∈ built.plan.operations) :
    (∃ it ∈ vault.items, ∃ i up, op = .upsert up ∧ up.id = it.id ∧
        UpsertOf R vault u state draws built.pendingMutations it i up) ∨
      ∃ p ∈ turns, op = .delete (deletionOf u state (draws p.2) p.1) := by
  rcases List.mem_append.mp hop with hop | hop
  · obtain ⟨up, hup, rfl⟩ := List.mem_map.mp hop
    obtain ⟨it, hit, i, hof⟩ := h.upserts up hup
    exact .inl ⟨it, hit, i, up, rfl, hof.2.choose_spec.1.item.1, hof⟩
  · obtain ⟨d, hd, rfl⟩ := List.mem_map.mp hop
    rw [h.deletes] at hd
    obtain ⟨p, hp, rfl⟩ := List.mem_map.mp hd
    exact .inr ⟨p, hp, rfl⟩

end

/-! ## Records of the planner -/

section
variable {κ : Type} (vault : UnlockedVault κ) (u : UserId) (state : SyncState) (built : BuiltPlan)

/-- A pending mutation as the planner records it for the user: an operation that
it keeps is one of the item, under the recorded mutation id and base. An entry of
the first version keeps none. -/
structure Recorded (id : ItemId) (p : PendingItemMutation) : Prop where
  upsert : ∀ up, p.upsert = some up → p.Holds u (.upsert up) ∧ up.id = id
  delete : ∀ d, p.delete = some d → p.Holds u (.delete d) ∧ d.id = id

structure Replays : Prop where
  bounded : built.plan.operations.length ≤ MAX_SYNC_MUTATIONS
  distinct : (built.plan.operations.map (·.id)).Nodup
  conflicts : ∀ op ∈ built.plan.operations, op.id ∉ state.conflicts
  upserts : ∀ it ∈ vault.items, it.id ∉ state.conflicts → ∀ p up, state.pending.get? it.id = some p →
    p.itemUpdatedAt = it.updatedAt → p.upsert = some up →
      (.upsert up ∈ built.plan.operations ∧ p.clientMutationId = up.clientMutationId ∧
        p.baseItemRevision = some up.baseItemRevision) ∨
      MAX_SYNC_MUTATIONS ≤ built.plan.operations.length
  deletes : ∀ x, x ∉ vault.itemIds → x ∉ state.conflicts → ∀ p d, state.pending.get? x = some p → p.delete = some d →
    deletionBase state x = d.baseItemRevision →
      (.delete d ∈ built.plan.operations ∧ p.clientMutationId = d.clientMutationId ∧
        p.baseItemRevision = some d.baseItemRevision) ∨
      MAX_SYNC_MUTATIONS ≤ built.plan.operations.length
  recorded : ∀ op ∈ built.plan.operations, ∃ p, built.pendingMutations.get? op.id = some p ∧
    p.clientMutationId = op.clientMutationId ∧ p.baseItemRevision = some op.baseItemRevision
  dirty : ∀ it ∈ vault.items, Dirty state it →
    (∃ op ∈ built.plan.operations, op.id = it.id) ∨ MAX_SYNC_MUTATIONS ≤ built.plan.operations.length
  gone : ∀ x, Gone vault state x →
    (∃ op ∈ built.plan.operations, op.id = x) ∨ MAX_SYNC_MUTATIONS ≤ built.plan.operations.length

variable {R : Runtime κ} {vault u state built} {draws : Nat → Draw}

theorem deletesOwn_of_recorded (h : ∀ id p, state.pending.get? id = some p → Recorded u id p) :
    DeletesOwn vault u state := by
  intro x d _ hd
  obtain ⟨p, hp, hpd⟩ := Option.bind_eq_some_iff.mp (Option.filter_eq_some_iff.mp hd).1
  exact ((h x p hp).delete d hpd).2

/-- A recorded upsert of an unchanged item can be sent again, whatever the revision map says. -/
theorem replayed_of_recorded {it : VaultItem} {p : PendingItemMutation} {up : ItemLevelEncryptedUpsert}
    {base : Option Nat} (h : Recorded u it.id p) (hat : p.itemUpdatedAt = it.updatedAt) (hup : p.upsert = some up) :
    replayedUpsert u it (expectedBaseRevision it base (some p)) (some p) = some up := by
  obtain ⟨⟨hm, hbase, howner, -⟩, hid⟩ := h.upsert up hup
  have hexpected : expectedBaseRevision it base (some p) = up.baseItemRevision := by
    unfold expectedBaseRevision
    dsimp only
    rw [if_pos ⟨hat, Option.isSome_of_eq_some hup⟩, hbase]
    rfl
  rw [hexpected]
  exact replayedUpsert_eq.mpr ⟨p, rfl, hup, hat, hbase, hid, howner, hm.symm⟩

theorem Sends.base {it : VaultItem} {draw : Draw} {base : Option Nat} {previous : Option PendingItemMutation}
    {expected : Nat} {up : ItemLevelEncryptedUpsert} (hrec : ∀ p, previous = some p → Recorded u it.id p)
    (h : Sends R vault u it draw base previous expected up) : up.baseItemRevision = expected := by
  rcases h.2 with hr | ⟨-, hf⟩
  · obtain ⟨p, hp, hup, -, hb, -⟩ := replayedUpsert_eq.mp hr
    obtain ⟨⟨-, hbase, -⟩, -⟩ := (hrec p hp).upsert up hup
    exact Option.some.inj (hbase.symm.trans hb)
  · exact (freshUpsert_eq hf).2.2.1

theorem Made.replaysUpsert {turns : List (ItemId × Nat)} (h : Made R vault u state draws built turns)
    (hn : vault.itemIds.Nodup) {it : VaultItem} (hit : it ∈ vault.items) {p : PendingItemMutation}
    {up : ItemLevelEncryptedUpsert} (hc : it.id ∉ state.conflicts) (hp : state.pending.get? it.id = some p)
    (hrec : Recorded u it.id p) (hat : p.itemUpdatedAt = it.updatedAt) (hup : p.upsert = some up) :
    .upsert up ∈ built.plan.operations ∨ MAX_SYNC_MUTATIONS ≤ built.plan.operations.length := by
  have hd : Dirty state it := ⟨hc, fun hs => by rw [hp] at hs; cases hs.2⟩
  rcases h.dirty it hit hd with hm | hm
  · obtain ⟨up', hup', hid⟩ := List.mem_map.mp hm
    obtain ⟨it', hit', i, -, expected, hs, -⟩ := h.upserts up' hup'
    cases List.inj_on_of_nodup_map hn hit' hit (hs.item.1.symm.trans hid)
    rw [hp] at hs
    have hreplay : replayedUpsert u it (expectedBaseRevision it (state.revisions.get? it.id) (some p)) (some p) =
      some up := replayed_of_recorded hrec hat hup
    rw [← hs.1] at hreplay
    rcases hs.2 with hr | ⟨hr, -⟩
    · rw [hreplay] at hr
      cases hr
      exact .inl (List.mem_append_left _ (List.mem_map_of_mem hup'))
    · rw [hreplay] at hr
      cases hr
  · exact .inr hm

theorem Made.replaysDelete {turns : List (ItemId × Nat)} (h : Made R vault u state draws built turns) {x : ItemId}
    (hx : x ∉ vault.itemIds) (hc : x ∉ state.conflicts) {p : PendingItemMutation} {d : ItemLevelEncryptedDelete}
    (hp : state.pending.get? x = some p) (hd : p.delete = some d) (howner : d.ownerUserId = u)
    (hbase : deletionBase state x = d.baseItemRevision) :
    .delete d ∈ built.plan.operations ∨ MAX_SYNC_MUTATIONS ≤ built.plan.operations.length := by
  have hknown : x ∈ state.knownIds := mem_knownIds.mpr (.inr (by rw [hp]; exact Option.some_ne_none p))
  rcases h.known x ⟨hknown, hx, hc⟩ with hm | hm
  · obtain ⟨q, hq, rfl⟩ := List.mem_map.mp hm
    have hsame : deletionOf u state (draws q.2) q.1 = d :=
      deletionOf_pending hp hd howner (by rw [← hbase]; unfold deletionBase; rw [hp]; rfl)
    refine .inl (List.mem_append_right _ (List.mem_map_of_mem ?_))
    rw [h.deletes, ← hsame]
    exact List.mem_map_of_mem (f := fun p => deletionOf u state (draws p.2) p.1) hq
  · exact .inr hm

theorem plan_replays (hn : vault.itemIds.Nodup) (hrec : ∀ id p, state.pending.get? id = some p → Recorded u id p)
    (h : buildItemLevelSyncPlan R draws vault u state = some built) : Replays vault state built := by
  obtain ⟨turns, hmade⟩ := built_made hn h
  have hown : DeletesOwn vault u state := deletesOwn_of_recorded hrec
  have hids := hmade.ids hown
  have hsent {x : ItemId} (hx : x ∈ built.plan.operations.map (·.id)) : ∃ op ∈ built.plan.operations, op.id = x :=
    List.mem_map.mp hx
  refine ⟨hmade.bounded, hmade.nodup hn hown, fun op hop => ?_, fun it hit hc p up hp hat hup => ?_,
    fun x hx hc p d hp hd hbase => ?_, fun op hop => ?_, fun it hit hd => ?_, fun x hx => ?_⟩
  · rcases hmade.operation hop with ⟨it, -, i, up, rfl, hid, hof⟩ | ⟨p, hp, rfl⟩
    · show up.id ∉ _
      rw [hid]
      exact hof.1.1
    · show (deletionOf u state (draws p.2) p.1).id ∉ _
      rw [hown.id (hmade.gone p hp)]
      exact (hmade.gone p hp).2.2
  · obtain ⟨⟨hm, hbase, -⟩, -⟩ := (hrec _ p hp).upsert up hup
    rcases hmade.replaysUpsert hn hit hc hp (hrec _ p hp) hat hup with hin | hfull
    · exact .inl ⟨hin, hm, hbase⟩
    · exact .inr hfull
  · obtain ⟨⟨hm, hbase', howner, -⟩, -⟩ := (hrec _ p hp).delete d hd
    rcases hmade.replaysDelete hx hc hp hd howner hbase with hin | hfull
    · exact .inl ⟨hin, hm, hbase'⟩
    · exact .inr hfull
  · rcases hmade.operation hop with ⟨it, -, i, up, rfl, hid, -, expected, hs, hpend⟩ | ⟨p, hp, rfl⟩
    · refine ⟨_, (show built.pendingMutations.get? up.id = _ from hid ▸ hpend), rfl, ?_⟩
      rw [← hs.base (hrec it.id)]
      rfl
    · refine ⟨deletionRecord u state draws p.2 p.1, ?_, rfl, congrArg some (deletionOf_base (draws p.2) p.1).symm⟩
      have hid := hown.id (hmade.gone p hp) (draws p.2)
      rw [show (Operation.delete (deletionOf u state (draws p.2) p.1)).id = p.1 from hid]
      exact hmade.recorded p hp
  · rcases hmade.dirty it hit hd with hm | hm
    · exact .inl (hsent (hids ▸ List.mem_append_left _ hm))
    · exact .inr hm
  · rcases hmade.known x hx with hm | hm
    · exact .inl (hsent (hids ▸ List.mem_append_right _ hm))
    · exact .inr hm

end

section

def goneId : ItemId := "0b8f8ed0-4c1a-4e0e-9d5e-0d1c5a0a0003"

def strayId : ItemId := "0b8f8ed0-4c1a-4e0e-9d5e-0d1c5a0a0004"

def deletionBy (u : UserId) (id : ItemId) : ItemLevelEncryptedDelete :=
  ⟨id, u, 0, sampleUpsert.createdAt, "9d2f2c1e-5b1f-4a53-8a3f-0d1c5a0a0005"⟩

def recordOf (d : ItemLevelEncryptedDelete) : PendingItemMutation :=
  ⟨d.deletedAt, d.clientMutationId, some d.baseItemRevision, none, some d⟩

def noteVault : UnlockedVault Unit := ⟨(), [firstNote]⟩

/-- An upsert of the note and a deletion, recorded as they were sent. -/
def recordedState : SyncState :=
  { emptySyncState with
    pending := ((∅ : Table ItemId PendingItemMutation).set sampleId
        ⟨firstNote.updatedAt, sampleUpsert.clientMutationId, some 0, some sampleUpsert, none⟩).set goneId
      (recordOf (deletionBy sampleUser goneId)) }

theorem plan_replays_recorded : ∃ built,
    buildItemLevelSyncPlan sampleRuntime (sampleDraws 'a') noteVault sampleUser recordedState = some built ∧
      Replays noteVault recordedState built := by
  have hb : (buildItemLevelSyncPlan sampleRuntime (sampleDraws 'a') noteVault sampleUser recordedState).isSome := by
    decide +kernel
  obtain ⟨built, hb⟩ := Option.isSome_iff_exists.mp hb
  refine ⟨built, hb, plan_replays (by decide) (fun id p hp => ?_) hb⟩
  rw [recordedState, Table.get?_set, Table.get?_set] at hp
  split at hp
  · rename_i he
    cases hp
    refine ⟨fun _ hup => (by cases hup), fun d hd => ?_⟩
    cases hd
    exact ⟨⟨rfl, rfl, rfl, rfl, rfl⟩, he.symm⟩
  split at hp
  · rename_i he
    cases hp
    refine ⟨fun up hup => ?_, fun _ hd => by cases hd⟩
    cases hup
    exact ⟨⟨rfl, rfl, rfl, rfl, rfl⟩, he.symm⟩
  · cases hp

/-- A deletion of another user, and one recorded under an id that it does not name. -/
def strayState : SyncState :=
  { emptySyncState with
    conflicts := [strayId]
    pending := ((∅ : Table ItemId PendingItemMutation).set goneId (recordOf (deletionBy sampleUser strayId))).set sampleId
      (recordOf (deletionBy "another user" sampleId)) }

/-- Records that are not the planner's own for the user: one deletion is made
anew, the other is sent for an item in conflict. -/
theorem foreign_records_not_replayed : ∃ built,
    buildItemLevelSyncPlan sampleRuntime (sampleDraws 'a') ⟨(), []⟩ sampleUser strayState = some built ∧
      ¬ Replays ⟨(), []⟩ strayState built ∧
      Operation.delete (deletionBy "another user" sampleId) ∉ built.plan.operations ∧
      Operation.delete (deletionBy sampleUser strayId) ∈ built.plan.operations := by
  let built : BuiltPlan :=
    { plan := ⟨0, [], [deletionBy sampleUser strayId, ⟨sampleId, sampleUser, 0, sampleUpsert.createdAt, (sampleDraws 'a' 1).randomUUID⟩]⟩
      itemInfos := []
      pendingMutations := (strayState.pending.set goneId (recordOf (deletionBy sampleUser strayId))).set sampleId
        (recordOf ⟨sampleId, sampleUser, 0, sampleUpsert.createdAt, (sampleDraws 'a' 1).randomUUID⟩) }
  refine ⟨built, rfl, fun h => ?_, by decide +kernel, List.mem_cons_self⟩
  exact h.conflicts (.delete (deletionBy sampleUser strayId)) List.mem_cons_self List.mem_cons_self

end

end ZeroVault.Browser

import Mathlib.Tactic.Common
import ZeroVault.BrowserSync

/-!
# What a plan says of one item

`buildItemLevelSyncPlan` treats each item by itself (`built_item`): it leaves
the item's pending mutation as it is and sends nothing, or it sends one
mutation and keeps it as the pending one. The mutation ids of different items
stay different (`built_pending`).
-/

namespace ZeroVault.Browser

open Lib

def PendingItemMutation.Holds (p : PendingItemMutation) (u : UserId) (op : Operation) : Prop :=
  p.clientMutationId = op.clientMutationId ∧ p.baseItemRevision = some op.baseItemRevision ∧ op.ownerUserId = u ∧
    match op with
    | .upsert item => p.upsert = some item ∧ p.delete = none
    | .delete item => p.upsert = none ∧ p.delete = some item

/-- Each pending mutation is one of its own item, and no two share an id. -/
structure PendingOk (u : UserId) (pending : Table ItemId PendingItemMutation) : Prop where
  holds : ∀ id p, pending.get? id = some p → ∃ op, p.Holds u op ∧ op.id = id
  distinct : ∀ id id' p p', pending.get? id = some p → pending.get? id' = some p' →
    p.clientMutationId = p'.clientMutationId → id = id'

/-! ## One turn -/

section
variable {κ : Type} {R : Runtime κ} {vault : UnlockedVault κ} {u : UserId} {state : SyncState} {draw : Draw}
variable {st st' : PlanState} {it : VaultItem} {x : ItemId}

def PlanState.about (st : PlanState) (x : ItemId) :
    Option PendingItemMutation × List ItemLevelEncryptedUpsert × List ItemLevelEncryptedDelete :=
  (st.nextPendingMutations.get? x, st.upserts.filter (·.id = x), st.deletes.filter (·.id = x))

theorem replayedUpsert_eq {expected : Nat} {previous : Option PendingItemMutation} {up : ItemLevelEncryptedUpsert} :
    replayedUpsert u it expected previous = some up ↔
      ∃ p, previous = some p ∧ p.upsert = some up ∧ p.itemUpdatedAt = it.updatedAt ∧
        p.baseItemRevision = some expected ∧ up.id = it.id ∧ up.ownerUserId = u ∧
        up.clientMutationId = p.clientMutationId := by
  unfold replayedUpsert
  cases previous with
  | none => simp
  | some p =>
    cases hp : p.upsert with
    | none => simp [hp]
    | some item =>
      simp only [Option.bind_eq_bind, Option.bind_some, Option.some.injEq, exists_eq_left', hp]
      split
      · rename_i h
        obtain ⟨h1, h2, h3, h4, h5⟩ := h
        constructor
        · intro he
          cases he
          exact ⟨rfl, h1, h2, h3, h4, h5⟩
        · rintro ⟨he, -⟩
          rw [he]
      · rename_i h
        constructor
        · intro he
          cases he
        · rintro ⟨he, h1, h2, h3, h4, h5⟩
          cases he
          exact absurd ⟨h1, h2, h3, h4, h5⟩ h

theorem freshUpsert_eq {expected : Nat} {up : ItemLevelEncryptedUpsert}
    (h : freshUpsert R vault u it expected draw = some up) :
    up.id = it.id ∧ up.ownerUserId = u ∧ up.baseItemRevision = expected ∧
      up.clientMutationId = draw.randomUUID := by
  unfold freshUpsert at h
  dsimp only at h
  split at h
  · cases h
    exact ⟨rfl, rfl, rfl, rfl⟩
  · cases h

/-- How the upsert of an item was come by. -/
def Sends (R : Runtime κ) (vault : UnlockedVault κ) (u : UserId) (it : VaultItem) (draw : Draw) (base : Option Nat)
    (previous : Option PendingItemMutation) (expected : Nat) (up : ItemLevelEncryptedUpsert) : Prop :=
  expected = expectedBaseRevision it base previous ∧
    (replayedUpsert u it expected previous = some up ∨
      (replayedUpsert u it expected previous = none ∧ freshUpsert R vault u it expected draw = some up))

theorem Sends.item {base : Option Nat} {previous : Option PendingItemMutation} {expected : Nat}
    {up : ItemLevelEncryptedUpsert} (h : Sends R vault u it draw base previous expected up) :
    up.id = it.id ∧ up.ownerUserId = u := by
  rcases h.2 with hr | ⟨-, hf⟩
  · obtain ⟨p, -, -, -, -, hid, hu, -⟩ := replayedUpsert_eq.mp hr
    exact ⟨hid, hu⟩
  · exact ⟨(freshUpsert_eq hf).1, (freshUpsert_eq hf).2.1⟩

theorem planItem_cases (h : planItem R vault u state draw st it = some st') :
    (st'.upserts = st.upserts ∧ st'.deletes = st.deletes ∧ st'.nextPendingMutations = st.nextPendingMutations ∧
        (it.id ∈ state.conflicts ∨
          (state.timestamps.get? it.id = some it.updatedAt ∧ st.nextPendingMutations.get? it.id = none) ∨
          MAX_SYNC_MUTATIONS ≤ st.upserts.length)) ∨
      ∃ expected up, it.id ∉ state.conflicts ∧
        ¬ (state.timestamps.get? it.id = some it.updatedAt ∧ st.nextPendingMutations.get? it.id = none) ∧
        st.upserts.length < MAX_SYNC_MUTATIONS ∧
        Sends R vault u it draw (state.revisions.get? it.id) (st.nextPendingMutations.get? it.id) expected up ∧
        st'.upserts = st.upserts ++ [up] ∧ st'.deletes = st.deletes ∧
        st'.nextPendingMutations = st.nextPendingMutations.set it.id
          ⟨it.updatedAt, up.clientMutationId, some expected, some up, none⟩ := by
  unfold planItem at h
  dsimp only at h
  by_cases hc : it.id ∈ state.conflicts
  · rw [if_pos hc] at h
    cases h
    exact .inl ⟨rfl, rfl, rfl, .inl hc⟩
  rw [if_neg hc] at h
  by_cases hs : state.timestamps.get? it.id = some it.updatedAt ∧ (st.nextPendingMutations.get? it.id).isNone = true
  · rw [if_pos hs] at h
    cases h
    exact .inl ⟨rfl, rfl, rfl, .inr (.inl ⟨hs.1, Option.isNone_iff_eq_none.mp hs.2⟩)⟩
  rw [if_neg hs] at h
  by_cases hl : MAX_SYNC_MUTATIONS ≤ st.upserts.length
  · rw [if_pos hl] at h
    cases h
    exact .inl ⟨rfl, rfl, rfl, .inr (.inr hl)⟩
  rw [if_neg hl, Option.map_eq_some_iff] at h
  obtain ⟨up, hup, rfl⟩ := h
  rw [Option.isNone_iff_eq_none] at hs
  refine .inr ⟨_, up, hc, hs, Nat.lt_of_not_le hl, ⟨rfl, ?_⟩, rfl, rfl, rfl⟩
  rcases Option.or_eq_some_iff.mp hup with hr | ⟨hn, hf⟩
  · exact .inl hr
  · exact .inr ⟨hn, hf⟩

theorem planItem_other (h : planItem R vault u state draw st it = some st') (hx : it.id ≠ x) :
    st'.about x = st.about x := by
  unfold PlanState.about
  rcases planItem_cases h with ⟨h1, h2, h3, -⟩ | ⟨expected, up, -, -, -, hs, h1, h2, h3⟩
  · rw [h1, h2, h3]
  · have hid : up.id ≠ x := by rw [hs.item.1]; exact hx
    have hne : x ≠ it.id := fun he => hx he.symm
    rw [h1, h2, h3, List.filter_append]
    simp [hid, hne]

theorem planItem_grows (h : planItem R vault u state draw st it = some st') : st.upserts <+: st'.upserts := by
  rcases planItem_cases h with ⟨h1, -⟩ | ⟨expected, up, -, -, -, -, h1, -⟩
  · exact h1 ▸ List.prefix_rfl
  · exact h1 ▸ List.prefix_append _ _

def deletionOf (u : UserId) (state : SyncState) (draw : Draw) (id : ItemId) : ItemLevelEncryptedDelete :=
  let previous := state.pending.get? id
  let baseItemRevision := ((state.revisions.get? id).or (previous.bind (·.baseItemRevision))).getD 0
  ((previous.bind (·.delete)).filter fun d => d.ownerUserId = u && d.baseItemRevision = baseItemRevision).getD
    ⟨id, u, baseItemRevision, draw.now, draw.randomUUID⟩

variable (draw) in
theorem deletionOf_cases (hp : PendingOk u state.pending) (id : ItemId) :
    (deletionOf u state draw id).id = id ∧ (deletionOf u state draw id).ownerUserId = u ∧
      (deletionOf u state draw id).baseItemRevision =
        ((state.revisions.get? id).or ((state.pending.get? id).bind (·.baseItemRevision))).getD 0 ∧
      ((∃ p, state.pending.get? id = some p ∧ p.delete = some (deletionOf u state draw id) ∧
          (deletionOf u state draw id).clientMutationId = p.clientMutationId) ∨
        (deletionOf u state draw id).clientMutationId = draw.randomUUID) := by
  unfold deletionOf
  dsimp only
  cases hf : ((state.pending.get? id).bind (·.delete)).filter fun d =>
      d.ownerUserId = u && d.baseItemRevision =
        ((state.revisions.get? id).or ((state.pending.get? id).bind (·.baseItemRevision))).getD 0 with
  | none => exact ⟨rfl, rfl, rfl, .inr rfl⟩
  | some d =>
    rw [Option.filter_eq_some_iff] at hf
    obtain ⟨hd, hf⟩ := hf
    simp only [Bool.and_eq_true, decide_eq_true_eq] at hf
    obtain ⟨p, hpp, hpd⟩ := Option.bind_eq_some_iff.mp hd
    obtain ⟨op, hh, hid⟩ := hp.holds id p hpp
    obtain ⟨hm, -, -, hop⟩ := hh
    cases op with
    | upsert item =>
      rw [hop.2] at hpd
      cases hpd
    | delete item =>
      rw [hop.2] at hpd
      cases hpd
      exact ⟨hid, hf.1, hf.2, .inl ⟨p, hpp, hop.2, hm.symm⟩⟩

theorem deletionOf_pending {p : PendingItemMutation} {d : ItemLevelEncryptedDelete} {id : ItemId}
    (hp : state.pending.get? id = some p) (hd : p.delete = some d) (hu : d.ownerUserId = u)
    (hbase : ((state.revisions.get? id).or p.baseItemRevision).getD 0 = d.baseItemRevision) :
    deletionOf u state draw id = d := by
  unfold deletionOf
  simp [hp, hd, hu, hbase, Option.filter]

variable (u state draw st) in
theorem planDelete_cases (localIds : List ItemId) (id : ItemId) :
    (planDelete localIds u state draw st id = st ∧
        (id ∈ localIds ∨ id ∈ state.conflicts ∨ MAX_SYNC_MUTATIONS ≤ st.upserts.length + st.deletes.length)) ∨
      (id ∉ localIds ∧ id ∉ state.conflicts ∧ st.upserts.length + st.deletes.length < MAX_SYNC_MUTATIONS ∧
        (planDelete localIds u state draw st id).upserts = st.upserts ∧
        (planDelete localIds u state draw st id).deletes = st.deletes ++ [deletionOf u state draw id] ∧
        (planDelete localIds u state draw st id).nextPendingMutations = st.nextPendingMutations.set id
          ⟨(deletionOf u state draw id).deletedAt, (deletionOf u state draw id).clientMutationId,
            some (((state.revisions.get? id).or ((state.pending.get? id).bind (·.baseItemRevision))).getD 0), none,
            some (deletionOf u state draw id)⟩) := by
  unfold planDelete
  by_cases hl : id ∈ localIds ∨ id ∈ state.conflicts
  · rw [if_pos hl]
    refine .inl ⟨rfl, ?_⟩
    rcases hl with hl | hl
    · exact .inl hl
    · exact .inr (.inl hl)
  rw [if_neg hl]
  rw [not_or] at hl
  by_cases hm : MAX_SYNC_MUTATIONS ≤ st.upserts.length + st.deletes.length
  · rw [if_pos hm]
    exact .inl ⟨rfl, .inr (.inr hm)⟩
  · rw [if_neg hm]
    exact .inr ⟨hl.1, hl.2, Nat.lt_of_not_le hm, rfl, rfl, rfl⟩

theorem planDelete_other (hp : PendingOk u state.pending) (localIds : List ItemId) {id : ItemId} (hx : id ≠ x) :
    (planDelete localIds u state draw st id).about x = st.about x := by
  unfold PlanState.about
  rcases planDelete_cases u state draw st localIds id with
    ⟨he, -⟩ | ⟨-, -, -, h1, h2, h3⟩
  · rw [he]
  · have hid : (deletionOf u state draw id).id ≠ x := by rw [(deletionOf_cases draw hp id).1]; exact hx
    have hne : x ≠ id := fun he => hx he.symm
    rw [h1, h2, h3, List.filter_append]
    simp [hid, hne]

end

/-! ## The loops -/

section
variable {κ : Type} {R : Runtime κ} {vault : UnlockedVault κ} {u : UserId} {state : SyncState} {draws : Nat → Draw}
variable {st st' : PlanState} {x : ItemId}

theorem planItems_other {items : List (VaultItem × Nat)}
    (h : items.foldlM (fun st p => planItem R vault u state (draws p.2) st p.1) st = some st')
    (hx : ∀ p ∈ items, p.1.id ≠ x) : st'.about x = st.about x := by
  induction items generalizing st with
  | nil => cases h; rfl
  | cons p items ih =>
    rw [List.foldlM_cons] at h
    obtain ⟨st₁, h1, h⟩ := Option.bind_eq_some_iff.mp h
    rw [ih h fun p' hp' => hx p' (List.mem_cons_of_mem _ hp'), planItem_other h1 (hx p List.mem_cons_self)]

theorem planItems_grows {items : List (VaultItem × Nat)}
    (h : items.foldlM (fun st p => planItem R vault u state (draws p.2) st p.1) st = some st') :
    st.upserts <+: st'.upserts := by
  induction items generalizing st with
  | nil => cases h; exact List.prefix_rfl
  | cons p items ih =>
    rw [List.foldlM_cons] at h
    obtain ⟨st₁, h1, h⟩ := Option.bind_eq_some_iff.mp h
    exact (planItem_grows h1).trans (ih h)

variable (draws) in
theorem planDeletes_other (hp : PendingOk u state.pending) (localIds : List ItemId) {ids : List (ItemId × Nat)}
    (hx : ∀ p ∈ ids, p.1 ≠ x) :
    (ids.foldl (fun st p => planDelete localIds u state (draws p.2) st p.1) st).about x = st.about x := by
  induction ids generalizing st with
  | nil => rfl
  | cons p ids ih =>
    rw [List.foldl_cons, ih fun p' hp' => hx p' (List.mem_cons_of_mem _ hp'),
      planDelete_other hp _ (hx p List.mem_cons_self)]

/-- The ids that are not local are the only ones the second loop touches. -/
theorem planDeletes_local {localIds : List ItemId} {ids : List (ItemId × Nat)} (hp : PendingOk u state.pending)
    (hx : x ∈ localIds ∨ x ∈ state.conflicts) :
    (ids.foldl (fun st p => planDelete localIds u state (draws p.2) st p.1) st).about x = st.about x := by
  induction ids generalizing st with
  | nil => rfl
  | cons p ids ih =>
    rw [List.foldl_cons, ih]
    by_cases he : p.1 = x
    · unfold planDelete
      rw [he, if_pos hx]
    · exact planDelete_other hp _ he

variable (u state draws) in
theorem planDeletes_grows (localIds : List ItemId) (ids : List (ItemId × Nat)) :
    st.upserts = (ids.foldl (fun st p => planDelete localIds u state (draws p.2) st p.1) st).upserts ∧
      st.deletes <+: (ids.foldl (fun st p => planDelete localIds u state (draws p.2) st p.1) st).deletes := by
  induction ids generalizing st with
  | nil => exact ⟨rfl, List.prefix_rfl⟩
  | cons p ids ih =>
    rw [List.foldl_cons]
    rcases planDelete_cases u state (draws p.2) st localIds p.1 with
      ⟨he, -⟩ | ⟨-, -, -, h1, h2, -⟩
    · rw [he]
      exact ih
    · obtain ⟨i1, i2⟩ := @ih (planDelete localIds u state (draws p.2) st p.1)
      rw [h1] at i1
      rw [h2] at i2
      exact ⟨i1, (List.prefix_append _ _).trans i2⟩

theorem knownIds_nodup (state : SyncState) : state.knownIds.Nodup := by
  unfold SyncState.knownIds
  rw [List.nodup_append]
  refine ⟨state.revisions.nodup, state.pending.nodup.filter _, ?_⟩
  intro a ha b hb he
  subst he
  have hc : state.revisions.contains a = false := by simpa using (List.mem_filter.mp hb).2
  exact Table.get?_eq_none.mp (Table.contains_eq_false.mp hc) ha

theorem mem_knownIds : x ∈ state.knownIds ↔ state.revisions.get? x ≠ none ∨ state.pending.get? x ≠ none := by
  have hkey : ∀ {ν : Type} (t : Table ItemId ν), x ∈ t.rows.map Prod.fst ↔ t.get? x ≠ none := by
    intro ν t
    rw [ne_eq, Table.get?_eq_none, not_not]
  unfold SyncState.knownIds
  rw [List.mem_append, List.mem_filter, hkey, hkey]
  cases hr : state.revisions.get? x with
  | none => simp [Table.contains, hr]
  | some r => simp

end

/-! ## The plan -/

section
variable {κ : Type} (R : Runtime κ) (vault : UnlockedVault κ) (u : UserId) (state : SyncState) (draws : Nat → Draw)
variable (built : BuiltPlan) (x : ItemId)

/-- Nothing of the item waits to be sent. -/
structure Unchanged : Prop where
  pending : state.pending.get? x = none
  stamped : ∀ it ∈ vault.items, it.id = x → state.timestamps.get? x = some it.updatedAt
  unknown : x ∉ vault.itemIds → state.revisions.get? x = none

structure Skipped : Prop where
  pending : built.pendingMutations.get? x = state.pending.get? x
  ops : ∀ op ∈ built.plan.operations, op.id ≠ x
  why : x ∈ state.conflicts ∨ Unchanged vault state x ∨ built.plan.operations ≠ []

/-- The plan sends `op` for the item. -/
structure Sent (op : Operation) (pending : PendingItemMutation) : Prop where
  id : op.id = x
  conflicts : x ∉ state.conflicts
  pending : built.pendingMutations.get? x = some pending
  mem : op ∈ built.plan.operations
  only : ∀ op' ∈ built.plan.operations, op'.id = x → op' = op

variable {R vault u state draws built x}

theorem planned_cases {st : PlanState} {op : Operation} {base : Nat} :
    op ∈ (ItemLevelSyncPlan.mk base st.upserts st.deletes).operations ∧ op.id = x ↔
      (∃ up ∈ (st.about x).2.1, op = .upsert up) ∨ ∃ d ∈ (st.about x).2.2, op = .delete d := by
  unfold ItemLevelSyncPlan.operations PlanState.about
  simp only [List.mem_append, List.mem_map, List.mem_filter, decide_eq_true_eq]
  constructor
  · rintro ⟨⟨up, hup, rfl⟩ | ⟨d, hd, rfl⟩, hid⟩
    · exact .inl ⟨up, ⟨hup, hid⟩, rfl⟩
    · exact .inr ⟨d, ⟨hd, hid⟩, rfl⟩
  · rintro (⟨up, ⟨hup, hid⟩, rfl⟩ | ⟨d, ⟨hd, hid⟩, rfl⟩)
    · exact ⟨.inl ⟨up, hup, rfl⟩, hid⟩
    · exact ⟨.inr ⟨d, hd, rfl⟩, hid⟩

theorem skipped_of_about {st' : PlanState} {infos : List ItemSyncInfo} {base : Nat}
    (h : st'.about x = (state.pending.get? x, [], []))
    (hb : built = ⟨⟨base, st'.upserts, st'.deletes⟩, infos, st'.nextPendingMutations⟩)
    (why : x ∈ state.conflicts ∨ Unchanged vault state x ∨ built.plan.operations ≠ []) : Skipped vault state built x := by
  subst hb
  refine ⟨congrArg Prod.fst h, fun op hop hid => ?_, why⟩
  rcases planned_cases.mp ⟨hop, hid⟩ with ⟨up, hup, -⟩ | ⟨d, hd, -⟩
  · rw [h] at hup
    exact List.not_mem_nil hup
  · rw [h] at hd
    exact List.not_mem_nil hd

theorem sent_of_about {st' : PlanState} {infos : List ItemSyncInfo} {base : Nat} {op : Operation}
    {p : PendingItemMutation} (hc : x ∉ state.conflicts) (hid : op.id = x)
    (h : st'.about x = (some p, match op with
      | .upsert up => ([up], [])
      | .delete d => ([], [d]))) (hb : built = ⟨⟨base, st'.upserts, st'.deletes⟩, infos, st'.nextPendingMutations⟩) :
    Sent state built x op p := by
  subst hb
  refine ⟨hid, hc, congrArg Prod.fst h, ?_, fun op' hop' hid' => ?_⟩
  · refine (planned_cases (x := x).mpr ?_).1
    rw [h]
    cases op with
    | upsert up => exact .inl ⟨up, List.mem_singleton_self up, rfl⟩
    | delete d => exact .inr ⟨d, List.mem_singleton_self d, rfl⟩
  · have hcase := planned_cases.mp ⟨hop', hid'⟩
    rw [h] at hcase
    cases op with
    | upsert up =>
      rcases hcase with ⟨up', hup, rfl⟩ | ⟨d, hd, -⟩
      · rw [List.mem_singleton.mp hup]
      · exact absurd hd List.not_mem_nil
    | delete d =>
      rcases hcase with ⟨up', hup, -⟩ | ⟨d', hd, rfl⟩
      · exact absurd hup List.not_mem_nil
      · rw [List.mem_singleton.mp hd]

variable (hb : buildItemLevelSyncPlan R draws vault u state = some built)
include hb

theorem built_loops : ∃ st st', vault.items.zipIdx.foldlM (fun st p => planItem R vault u state (draws p.2) st p.1)
      ⟨[], [], [], state.pending⟩ = some st ∧
    (state.knownIds.zipIdx vault.items.length).foldl
      (fun st p => planDelete vault.itemIds u state (draws p.2) st p.1) st = st' ∧
    built = ⟨⟨state.serverRevision, st'.upserts, st'.deletes⟩, st'.itemInfos, st'.nextPendingMutations⟩ := by
  unfold buildItemLevelSyncPlan at hb
  obtain ⟨st, h1, h2⟩ := Option.bind_eq_some_iff.mp hb
  exact ⟨st, _, h1, rfl, (Option.some.inj h2).symm⟩

theorem built_local (hn : vault.itemIds.Nodup) (hp : PendingOk u state.pending) {it : VaultItem}
    (hit : it ∈ vault.items) :
    Skipped vault state built it.id ∨
      ∃ i expected up, (it, i) ∈ vault.items.zipIdx ∧
        ¬ (state.timestamps.get? it.id = some it.updatedAt ∧ state.pending.get? it.id = none) ∧
        Sends R vault u it (draws i) (state.revisions.get? it.id) (state.pending.get? it.id) expected up ∧
        Sent state built it.id (.upsert up) ⟨it.updatedAt, up.clientMutationId, some expected, some up, none⟩ := by
  obtain ⟨st, st', h1, h2, hbuilt⟩ := built_loops hb
  have hkeys : (vault.items.zipIdx.map fun p => p.1.id).Nodup := by
    have hids : vault.items.zipIdx.map (fun p => p.1.id) = (vault.items.zipIdx.map Prod.fst).map (·.id) := by
      rw [List.map_map]
      rfl
    rw [hids, List.zipIdx_map_fst]
    exact hn
  have hfst : it ∈ vault.items.zipIdx.map Prod.fst := by rw [List.zipIdx_map_fst]; exact hit
  obtain ⟨⟨it', i⟩, hmem, hpair⟩ := List.mem_map.mp hfst
  cases hpair
  -- the turn of the item, between those of the items before and after it
  obtain ⟨pre, post, hsplit⟩ := List.append_of_mem hmem
  rw [hsplit, List.map_append, List.map_cons, List.nodup_append, List.nodup_cons] at hkeys
  obtain ⟨-, ⟨hpost, -⟩, hpre⟩ := hkeys
  rw [hsplit, List.foldlM_append] at h1
  obtain ⟨st₁, h1, h3⟩ := Option.bind_eq_some_iff.mp h1
  rw [List.foldlM_cons] at h3
  obtain ⟨st₂, h3, h4⟩ := Option.bind_eq_some_iff.mp h3
  have hpre' : ∀ p ∈ pre, p.1.id ≠ it'.id := fun p hpm =>
    hpre p.1.id (List.mem_map_of_mem (f := fun p : VaultItem × Nat => p.1.id) hpm) it'.id List.mem_cons_self
  have hpost' : ∀ p ∈ post, p.1.id ≠ it'.id := fun p hpm he =>
    hpost (he ▸ List.mem_map_of_mem (f := fun p : VaultItem × Nat => p.1.id) hpm)
  have hlocal : it'.id ∈ vault.itemIds := List.mem_map_of_mem hit
  have ha1 : st₁.about it'.id = (state.pending.get? it'.id, [], []) := planItems_other h1 hpre'
  have ha2 : st'.about it'.id = st₂.about it'.id := by
    rw [← h2, planDeletes_local hp (.inl hlocal), planItems_other h4 hpost']
  have hnext : st₁.nextPendingMutations.get? it'.id = state.pending.get? it'.id := congrArg Prod.fst ha1
  have hups : st₁.upserts.filter (·.id = it'.id) = [] := congrArg (fun a => a.2.1) ha1
  have hdels : st₁.deletes.filter (·.id = it'.id) = [] := congrArg (fun a => a.2.2) ha1
  rcases planItem_cases h3 with ⟨e1, e2, e3, hwhy⟩ | ⟨expected, up, hc, hchanged, -, hsend, e1, e2, e3⟩
  · have hsame : st₂.about it'.id = st₁.about it'.id := by
      unfold PlanState.about
      rw [e1, e2, e3]
    refine .inl (skipped_of_about (ha2.trans (hsame.trans ha1)) hbuilt ?_)
    rcases hwhy with hc | ⟨hts, hpend⟩ | hfull
    · exact .inl hc
    · refine .inr (.inl ⟨hnext ▸ hpend, fun it hm hid => ?_, fun hno => absurd hlocal hno⟩)
      rw [List.inj_on_of_nodup_map hn hm hit hid]
      exact hts
    · refine .inr (.inr fun hnil => ?_)
      -- the upserts that filled the plan are still there
      have hgrow : st₁.upserts <+: st'.upserts := by
        rw [← h2, ← (planDeletes_grows ..).1]
        exact (planItem_grows h3).trans (planItems_grows h4)
      have hlen := hgrow.length_le
      rw [hbuilt] at hnil
      simp only [ItemLevelSyncPlan.operations, List.append_eq_nil_iff, List.map_eq_nil_iff] at hnil
      rw [hnil.1] at hlen
      exact absurd (Nat.le_trans hfull hlen) (by decide)
  · rw [hnext] at hsend hchanged
    refine .inr ⟨i, expected, up, hmem, hchanged, hsend, sent_of_about hc hsend.item.1 ?_ hbuilt⟩
    rw [ha2]
    unfold PlanState.about
    rw [e1, e2, e3, List.filter_append, hups, hdels]
    simp [hsend.item.1]

/-- What the plan says of an id that is not in the vault. -/
theorem built_absent (hp : PendingOk u state.pending) (hx : x ∉ vault.itemIds) :
    Skipped vault state built x ∨
      ∃ i, (x, i) ∈ state.knownIds.zipIdx vault.items.length ∧
        Sent state built x (.delete (deletionOf u state (draws i) x))
          ⟨(deletionOf u state (draws i) x).deletedAt, (deletionOf u state (draws i) x).clientMutationId,
            some (((state.revisions.get? x).or ((state.pending.get? x).bind (·.baseItemRevision))).getD 0), none,
            some (deletionOf u state (draws i) x)⟩ := by
  obtain ⟨st, st', h1, h2, hbuilt⟩ := built_loops hb
  have hne : ∀ p ∈ vault.items.zipIdx, p.1.id ≠ x := by
    intro p hpm he
    have hmem : p.1 ∈ vault.items := by
      have := List.mem_map_of_mem (f := Prod.fst) hpm
      rwa [List.zipIdx_map_fst] at this
    exact hx (he ▸ List.mem_map_of_mem hmem)
  have ha : st.about x = (state.pending.get? x, [], []) := planItems_other h1 hne
  -- only the loop over the known ids plans for an id without an item
  by_cases hk : x ∈ state.knownIds
  · have hfst : x ∈ (state.knownIds.zipIdx vault.items.length).map Prod.fst := by
      rw [List.zipIdx_map_fst]; exact hk
    obtain ⟨⟨x', i⟩, hmem, hpair⟩ := List.mem_map.mp hfst
    cases hpair
    have hkeys : ((state.knownIds.zipIdx vault.items.length).map Prod.fst).Nodup := by
      rw [List.zipIdx_map_fst]; exact knownIds_nodup state
    obtain ⟨pre, post, hsplit⟩ := List.append_of_mem hmem
    rw [hsplit, List.map_append, List.map_cons, List.nodup_append, List.nodup_cons] at hkeys
    obtain ⟨-, ⟨hpost, -⟩, hpre⟩ := hkeys
    have hpre' : ∀ p ∈ pre, p.1 ≠ x' := fun p hpm => hpre p.1 (List.mem_map_of_mem hpm) x' List.mem_cons_self
    have hpost' : ∀ p ∈ post, p.1 ≠ x' := fun p hpm he => hpost (List.mem_map.mpr ⟨p, hpm, he⟩)
    rw [hsplit, List.foldl_append, List.foldl_cons] at h2
    have ha1 := (planDeletes_other draws hp vault.itemIds hpre').trans ha
    have ha2 := @planDeletes_other u state draws (planDelete vault.itemIds u state (draws i)
        (pre.foldl (fun st p => planDelete vault.itemIds u state (draws p.2) st p.1) st) x') x' hp vault.itemIds post hpost'
    rw [h2] at ha2
    generalize pre.foldl (fun st p => planDelete vault.itemIds u state (draws p.2) st p.1) st = st₁ at ha1 ha2 h2
    have hups : st₁.upserts.filter (·.id = x') = [] := congrArg (fun a => a.2.1) ha1
    have hdels : st₁.deletes.filter (·.id = x') = [] := congrArg (fun a => a.2.2) ha1
    rcases planDelete_cases u state (draws i) st₁ vault.itemIds x' with
      ⟨he, hwhy⟩ | ⟨-, hc, -, e1, e2, e3⟩
    · rw [he] at ha2 h2
      refine .inl (skipped_of_about (ha2.trans ha1) hbuilt ?_)
      rcases hwhy with hl | hc | hfull
      · exact absurd hl hx
      · exact .inl hc
      · refine .inr (.inr fun hnil => ?_)
        have hgrow := @planDeletes_grows u state draws st₁ vault.itemIds post
        rw [h2] at hgrow
        have hlen := hgrow.2.length_le
        rw [hbuilt] at hnil
        simp only [ItemLevelSyncPlan.operations, List.append_eq_nil_iff, List.map_eq_nil_iff] at hnil
        rw [hnil.2] at hlen
        rw [hgrow.1, hnil.1] at hfull
        simp only [List.length_nil, Nat.zero_add] at hfull hlen
        exact absurd (Nat.le_trans hfull hlen) (by decide)
    · have hid := (deletionOf_cases (draws i) hp x').1
      refine .inr ⟨i, hmem, sent_of_about hc hid ?_ hbuilt⟩
      rw [ha2]
      unfold PlanState.about
      rw [e1, e2, e3, List.filter_append, hups, hdels]
      simp [hid]
  · have hother : ∀ p ∈ state.knownIds.zipIdx vault.items.length, p.1 ≠ x := by
      intro p hpm he
      have hfst := List.mem_map_of_mem (f := Prod.fst) hpm
      rw [List.zipIdx_map_fst, he] at hfst
      exact hk hfst
    have ha' := @planDeletes_other u state draws st x hp vault.itemIds _ hother
    rw [h2] at ha'
    refine .inl (skipped_of_about (ha'.trans ha) hbuilt (.inr (.inl ?_)))
    rw [mem_knownIds, not_or, not_not, not_not] at hk
    exact ⟨hk.2, fun it hm hid => absurd (hid ▸ List.mem_map_of_mem hm) hx, fun _ => hk.1⟩

theorem built_item (hn : vault.itemIds.Nodup) (hp : PendingOk u state.pending) (x : ItemId) :
    Skipped vault state built x ∨
      (∃ it i expected up, (it, i) ∈ vault.items.zipIdx ∧ it.id = x ∧
        ¬ (state.timestamps.get? x = some it.updatedAt ∧ state.pending.get? x = none) ∧
        Sends R vault u it (draws i) (state.revisions.get? x) (state.pending.get? x) expected up ∧
        Sent state built x (.upsert up) ⟨it.updatedAt, up.clientMutationId, some expected, some up, none⟩) ∨
      ∃ i, (x, i) ∈ state.knownIds.zipIdx vault.items.length ∧ x ∉ vault.itemIds ∧
        Sent state built x (.delete (deletionOf u state (draws i) x))
          ⟨(deletionOf u state (draws i) x).deletedAt, (deletionOf u state (draws i) x).clientMutationId,
            some (((state.revisions.get? x).or ((state.pending.get? x).bind (·.baseItemRevision))).getD 0), none,
            some (deletionOf u state (draws i) x)⟩ := by
  by_cases hx : x ∈ vault.itemIds
  · obtain ⟨it, hit, rfl⟩ := List.mem_map.mp hx
    rcases built_local hb hn hp hit with h | ⟨i, expected, up, hmem, hchanged, hsend, hsent⟩
    · exact .inl h
    · exact .inr (.inl ⟨it, i, expected, up, hmem, rfl, hchanged, hsend, hsent⟩)
  · rcases built_absent hb hp hx with h | ⟨i, hmem, hsent⟩
    · exact .inl h
    · exact .inr (.inr ⟨i, hmem, hx, hsent⟩)

omit hb in
theorem Sends.holds {it : VaultItem} {draw : Draw} {base : Option Nat} {expected : Nat} {up : ItemLevelEncryptedUpsert}
    {now : String} (hp : PendingOk u state.pending) (h : Sends R vault u it draw base (state.pending.get? x) expected up) :
    (PendingItemMutation.mk now up.clientMutationId (some expected) (some up) none).Holds u (.upsert up) := by
  refine ⟨rfl, ?_, h.item.2, rfl, rfl⟩
  rcases h.2 with hr | ⟨-, hf⟩
  · obtain ⟨p, hpx, hup, -, hbase, -⟩ := replayedUpsert_eq.mp hr
    obtain ⟨op, ⟨-, hb, -, hop⟩, -⟩ := hp.holds x p hpx
    cases op with
    | upsert item =>
      rw [hop.1] at hup
      cases hup
      exact hbase.symm.trans hb
    | delete item =>
      rw [hop.1] at hup
      cases hup
  · rw [← (freshUpsert_eq hf).2.2.1]
    rfl

omit hb in
theorem deletionOf_holds {draw : Draw} {now : String} (hp : PendingOk u state.pending) (id : ItemId) :
    (PendingItemMutation.mk now (deletionOf u state draw id).clientMutationId
      (some (((state.revisions.get? id).or ((state.pending.get? id).bind (·.baseItemRevision))).getD 0)) none
      (some (deletionOf u state draw id))).Holds u (.delete (deletionOf u state draw id)) := by
  obtain ⟨-, hu, hbase, -⟩ := deletionOf_cases draw hp id
  exact ⟨rfl, by rw [← hbase]; rfl, hu, rfl, rfl⟩

/-- Where the ids of the pending mutations come from: the item's own pending
mutation, or the draw of the item's turn. -/
theorem built_id (hn : vault.itemIds.Nodup) (hp : PendingOk u state.pending) {p : PendingItemMutation}
    (hx : built.pendingMutations.get? x = some p) :
    (∃ p₀, state.pending.get? x = some p₀ ∧ p₀.clientMutationId = p.clientMutationId) ∨
      ∃ i, p.clientMutationId = (draws i).randomUUID ∧
        ((∃ it, (it, i) ∈ vault.items.zipIdx ∧ it.id = x) ∨ (x, i) ∈ state.knownIds.zipIdx vault.items.length) := by
  rcases built_item hb hn hp x with h | ⟨it, i, expected, up, hmem, hid, -, hsend, hsent⟩ | ⟨i, hmem, -, hsent⟩
  · exact .inl ⟨p, h.pending.symm.trans hx, rfl⟩
  · rw [hsent.pending] at hx
    cases hx
    rcases hsend.2 with hr | ⟨-, hf⟩
    · obtain ⟨p₀, hp₀, -, -, -, -, -, hm⟩ := replayedUpsert_eq.mp hr
      exact .inl ⟨p₀, hp₀, hm.symm⟩
    · exact .inr ⟨i, (freshUpsert_eq hf).2.2.2, .inl ⟨it, hmem, hid⟩⟩
  · rw [hsent.pending] at hx
    cases hx
    rcases (deletionOf_cases (draws i) hp x).2.2.2 with ⟨p₀, hp₀, -, hm⟩ | hm
    · exact .inl ⟨p₀, hp₀, hm.symm⟩
    · exact .inr ⟨i, hm, .inr hmem⟩

omit hb in
theorem turn_unique (hi : ∀ i j, (draws i).randomUUID = (draws j).randomUUID → i = j) {i j : Nat} {y : ItemId}
    (he : (draws i).randomUUID = (draws j).randomUUID)
    (hx : (∃ it, (it, i) ∈ vault.items.zipIdx ∧ it.id = x) ∨ (x, i) ∈ state.knownIds.zipIdx vault.items.length)
    (hy : (∃ it, (it, j) ∈ vault.items.zipIdx ∧ it.id = y) ∨ (y, j) ∈ state.knownIds.zipIdx vault.items.length) :
    x = y := by
  cases hi i j he
  have hlow : ∀ {it : VaultItem}, (it, i) ∈ vault.items.zipIdx → i < vault.items.length := fun hm =>
    (List.getElem?_eq_some_iff.mp (List.mem_zipIdx_iff_getElem?.mp hm)).1
  have hhigh : ∀ {z : ItemId}, (z, i) ∈ state.knownIds.zipIdx vault.items.length → vault.items.length ≤ i := fun hm =>
    (List.mem_zipIdx hm).1
  rcases hx with ⟨it, hit, rfl⟩ | hx
  · rcases hy with ⟨it', hit', rfl⟩ | hy
    · rw [List.mem_zipIdx_iff_getElem?] at hit hit'
      rw [hit] at hit'
      cases hit'
      rfl
    · exact absurd (hlow hit) (Nat.not_lt.mpr (hhigh hy))
  · rcases hy with ⟨it', hit', rfl⟩ | hy
    · exact absurd (hlow hit') (Nat.not_lt.mpr (hhigh hx))
    · rw [List.mk_mem_zipIdx_iff_le_and_getElem?_sub] at hx hy
      rw [hx.2] at hy
      exact Option.some.inj hy.2

theorem built_pending (hn : vault.itemIds.Nodup) (hp : PendingOk u state.pending)
    (hi : ∀ i j, (draws i).randomUUID = (draws j).randomUUID → i = j)
    (hnew : ∀ i id p, state.pending.get? id = some p → p.clientMutationId ≠ (draws i).randomUUID) :
    PendingOk u built.pendingMutations where
  holds id p hx := by
    rcases built_item hb hn hp id with h | ⟨it, i, expected, up, -, hid, -, hsend, hsent⟩ | ⟨i, -, -, hsent⟩
    · exact hp.holds id p (h.pending.symm.trans hx)
    · rw [hsent.pending] at hx
      cases hx
      exact ⟨_, hsend.holds hp, hsent.id⟩
    · rw [hsent.pending] at hx
      cases hx
      exact ⟨_, deletionOf_holds hp id, hsent.id⟩
  distinct x y p p' hx hy he := by
    rcases built_id hb hn hp hx with ⟨p₀, h₀, hm⟩ | ⟨i, hm, hturn⟩
    · rcases built_id hb hn hp hy with ⟨p₁, h₁, hm'⟩ | ⟨j, hm', -⟩
      · exact hp.distinct x y p₀ p₁ h₀ h₁ (hm.trans (he.trans hm'.symm))
      · exact absurd (hm.trans (he.trans hm')) (hnew j x p₀ h₀)
    · rcases built_id hb hn hp hy with ⟨p₁, h₁, hm'⟩ | ⟨j, hm', hturn'⟩
      · exact absurd (hm'.trans (he.symm.trans hm)) (hnew i y p₁ h₁)
      · exact turn_unique hi (hm.symm.trans (he.trans hm')) hturn hturn'

end

end ZeroVault.Browser

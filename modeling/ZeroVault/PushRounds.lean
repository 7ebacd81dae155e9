import Mathlib.Data.List.Perm.Subperm
import ZeroVault.BrowserAnswers
import ZeroVault.PlanReplay

/-!
# The push loop ends

A round of the push loop that does not throw settles an item that waits to be
sent, by a receipt or by a conflict, and opens none (`round_settles`). So the
items that wait bound the rounds, whatever the server answers.
-/

namespace ZeroVault.Browser

open Lib

section
variable {κ : Type} (R : Runtime κ) (u : UserId)

def Locals.planned (l : Locals κ) (built : BuiltPlan) : Locals κ :=
  { l with state := { l.state with pending := built.pendingMutations } }

/-- A round of the loop that neither throws nor ends it. -/
inductive Round (l l' : Locals κ) : Prop
  | mk (draws : Nat → Draw) (built : BuiltPlan) (response : ItemLevelSyncPushResult)
      (plans : buildItemLevelSyncPlan R draws l.active u l.state = some built)
      (sends : built.plan.operations ≠ [])
      (accepts : receivePush (l.planned built) built.plan response = .ok l')

inductive Rounds : Nat → Locals κ → Locals κ → Prop
  | refl (l : Locals κ) : Rounds 0 l l
  | tail {n : Nat} {l l' l'' : Locals κ} : Rounds n l l' → Round R u l' l'' → Rounds (n + 1) l l''

def openItems (l : Locals κ) : List ItemId :=
  (l.active.items.filter (Dirty l.state)).map (·.id) ++ l.state.knownIds.filter (Gone l.active l.state)

end

section
variable {κ : Type} {R : Runtime κ} {u : UserId} {l l' : Locals κ} {x : ItemId}

theorem mem_openItems :
    x ∈ openItems l ↔ (∃ it ∈ l.active.items, Dirty l.state it ∧ it.id = x) ∨ Gone l.active l.state x := by
  unfold openItems
  simp only [List.mem_append, List.mem_map, List.mem_filter, decide_eq_true_eq, and_assoc]
  constructor
  · rintro (h | ⟨-, h⟩)
    · exact .inl h
    · exact .inr h
  · rintro (h | h)
    · exact .inl h
    · exact .inr ⟨h.1, h⟩

theorem openItems_nodup (hn : l.active.itemIds.Nodup) : (openItems l).Nodup := by
  unfold openItems
  rw [List.nodup_append]
  refine ⟨(List.filter_sublist.map _).nodup hn, (knownIds_nodup l.state).filter _, fun x hx y hy he => ?_⟩
  have hgone : Gone l.active l.state y := of_decide_eq_true (List.mem_filter.mp hy).2
  exact hgone.2.1 (he ▸ (List.filter_sublist.map _).subset hx)

/-! ## The answer -/

theorem foldl_set_some {ops : List Operation} {t : Table MutationId Operation} {m : MutationId}
    (h : (t.get? m).isSome ∨ m ∈ ops.map (·.clientMutationId)) :
    ((ops.foldl (fun t op => t.set op.clientMutationId op) t).get? m).isSome := by
  induction ops generalizing t with
  | nil =>
    rcases h with h | h
    · exact h
    · exact absurd h List.not_mem_nil
  | cons op ops ih =>
    rw [List.foldl_cons]
    apply ih
    rw [Table.get?_set]
    rw [List.map_cons, List.mem_cons] at h
    by_cases he : m = op.clientMutationId
    · rw [if_pos he]
      exact .inl rfl
    · rw [if_neg he]
      rcases h with h | h | h
      · exact .inl h
      · exact absurd h he
      · exact .inr h

theorem operationsById_length {plan : ItemLevelSyncPlan} (h : plan.operations ≠ []) :
    (operationsById plan).rows.length ≠ 0 := by
  obtain ⟨op, hop⟩ := List.exists_mem_of_ne_nil _ h
  have hsome : ((operationsById plan).get? op.clientMutationId).isSome :=
    foldl_set_some (.inr (List.mem_map_of_mem hop))
  obtain ⟨op', hget⟩ := Option.isSome_iff_exists.mp hsome
  exact fun h0 => List.not_mem_nil (List.length_eq_zero_iff.mp h0 ▸ Table.mem_rows.mpr hget)

theorem receivePush_counts {plan : ItemLevelSyncPlan} {response : ItemLevelSyncPushResult}
    (h : receivePush l plan response = .ok l') :
    response.applied.mutationReceipts.length + response.conflicts.length = (operationsById plan).rows.length := by
  unfold receivePush at h
  dsimp only at h
  split at h
  · cases h
  obtain ⟨seen, -, h⟩ := except_bind_ok h
  obtain ⟨conflicting, -, h⟩ := except_bind_ok h
  split at h
  · cases h
  rename_i hcount
  exact not_not.mp hcount

/-- What a receipt for the item makes of it. -/
def Settled (built : BuiltPlan) (l' : Locals κ) (x : ItemId) (op : Operation) : Prop :=
  op ∈ built.plan.operations ∧ op.id = x ∧
    ((op.kind = .delete ∧ l'.state.about x = (none, none, none)) ∨
      (op.kind = .upsert ∧ ∃ n p, built.pendingMutations.get? x = some p ∧
        l'.state.about x = (some n, some p.itemUpdatedAt, none)))

theorem answer_item {built : BuiltPlan} {response : ItemLevelSyncPushResult}
    (h : receivePush (l.planned built) built.plan response = .ok l')
    (hids : (built.plan.operations.map (·.id)).Nodup) (x : ItemId) :
    (∃ op, Settled built l' x op) ∨
      ((∀ r ∈ response.applied.mutationReceipts, r.itemId ≠ x) ∧ l'.state.about x = (l.planned built).state.about x) := by
  obtain ⟨-, seen, conflicting, state, h1, -, h3, rfl⟩ := receivePush_ok h
  obtain ⟨-, hn, -, hops⟩ := checkReceipts_ok h1
  by_cases hr : ∃ r ∈ response.applied.mutationReceipts, r.itemId = x
  · obtain ⟨r, hr, rfl⟩ := hr
    obtain ⟨op, hop⟩ := hops r hr
    have hone : ∀ r' ∈ response.applied.mutationReceipts, r'.itemId = r.itemId →
        r'.clientMutationId = r.clientMutationId := by
      intro r' hr' he
      obtain ⟨op', hop'⟩ := hops r' hr'
      have hsame : op' = op :=
        List.inj_on_of_nodup_map hids hop'.mem hop.mem (hop'.item.trans (he.trans hop.item.symm))
      rw [← hop'.mutation, hsame, hop.mutation]
    have hitem := applyReceipts_item h3 hr hn hone
    refine .inl ⟨op, hop.mem, hop.item, ?_⟩
    unfold receipted at hitem
    cases hk : r.operation with
    | delete =>
      rw [hk] at hitem
      exact .inl ⟨hop.kind.trans hk, (Option.some.inj hitem).symm⟩
    | upsert =>
      rw [hk] at hitem
      obtain ⟨p, hp, he⟩ := Option.map_eq_some_iff.mp hitem
      exact .inr ⟨hop.kind.trans hk, _, p, hp, he.symm⟩
  · have hno : ∀ r ∈ response.applied.mutationReceipts, r.itemId ≠ x := fun r hr' he => hr ⟨r, hr', he⟩
    have hsame := applyReceipts_other h3 hno
    exact .inr ⟨hno, hsame⟩

theorem answer_frame {built : BuiltPlan} {response : ItemLevelSyncPushResult}
    (h : receivePush (l.planned built) built.plan response = .ok l') :
    l'.active = l.active ∧
      ∀ y, y ∈ l'.state.conflicts ↔ y ∈ l.state.conflicts ∨ y ∈ response.conflicts.map (·.itemId) := by
  obtain ⟨-, seen, conflicting, state, -, -, h3, rfl⟩ := receivePush_ok h
  have hframe : state.conflicts = l.state.conflicts := congrArg (fun a => a.2.2) (applyReceipts_frame h3)
  refine ⟨rfl, fun y => ?_⟩
  show y ∈ response.conflicts.foldl noteConflict state.conflicts ↔ _
  rw [mem_noteConflicts, hframe]

theorem answer_settles {built : BuiltPlan} {response : ItemLevelSyncPushResult} (hne : built.plan.operations ≠ [])
    (h : receivePush (l.planned built) built.plan response = .ok l')
    (hids : (built.plan.operations.map (·.id)).Nodup) :
    ∃ op ∈ built.plan.operations, Settled built l' op.id op ∨ op.id ∈ l'.state.conflicts := by
  have hcount := receivePush_counts h
  have hlength := operationsById_length hne
  obtain ⟨-, seen, conflicting, state, h1, h2, -, -⟩ := receivePush_ok h
  cases hr : response.applied.mutationReceipts with
  | cons r receipts =>
    have hmem : r ∈ response.applied.mutationReceipts := hr ▸ List.mem_cons_self
    rcases answer_item h hids r.itemId with ⟨op, hop⟩ | ⟨hno, -⟩
    · exact ⟨op, hop.1, .inl (hop.2.1 ▸ hop)⟩
    · exact absurd rfl (hno r hmem)
  | nil =>
    cases hc : response.conflicts with
    | nil =>
      rw [hr, hc] at hcount
      exact absurd hcount.symm hlength
    | cons c conflicts =>
      obtain ⟨op, hop, hid, -⟩ := checkConflicts_ok h2 c (hc ▸ List.mem_cons_self)
      refine ⟨op, hop, .inr (((answer_frame h).2 op.id).mpr (.inr ?_))⟩
      rw [hid, hc]
      exact List.mem_cons_self

end

/-! ## One round -/

section
variable {κ : Type} {R : Runtime κ} {u : UserId} {l l' : Locals κ} {draws : Nat → Draw} {built : BuiltPlan}
variable {turns : List (ItemId × Nat)} {x : ItemId}

theorem Settled.closed {op : Operation} (hn : l.active.itemIds.Nodup) (hown : DeletesOwn l.active u l.state)
    (hmade : Made R l.active u l.state draws built turns) (hactive : l'.active = l.active)
    (h : Settled built l' x op) : x ∉ openItems l' := by
  obtain ⟨hop, rfl, habout⟩ := h
  have hrev : l'.state.revisions.get? op.id = (l'.state.about op.id).1 := rfl
  have hstamp : l'.state.timestamps.get? op.id = (l'.state.about op.id).2.1 := rfl
  have hpend : l'.state.pending.get? op.id = (l'.state.about op.id).2.2 := rfl
  rw [mem_openItems, hactive]
  rcases hmade.operation hop with ⟨it, hit, i, up, rfl, hid, -, expected, hs, hrecord⟩ | ⟨p, hp, rfl⟩
  · rcases habout with ⟨hk, -⟩ | ⟨-, n, p, hp, habout⟩
    · cases hk
    rw [show (Operation.upsert up).id = it.id from hid] at *
    rw [hrecord] at hp
    cases hp
    rw [habout] at hstamp hpend
    rintro (⟨it', hit', hd, hid'⟩ | hgone)
    · cases List.inj_on_of_nodup_map hn hit' hit hid'
      exact hd.2 ⟨hstamp, hpend⟩
    · exact hgone.2.1 (List.mem_map_of_mem hit)
  · have hid := hown.id (hmade.gone p hp) (draws p.2)
    rcases habout with ⟨-, habout⟩ | ⟨hk, -⟩
    · rw [habout] at hrev hpend
      rintro (⟨it, hit, -, hid'⟩ | hgone)
      · refine (hmade.gone p hp).2.1 ?_
        rw [← hid, ← show it.id = (deletionOf u l.state (draws p.2) p.1).id from hid']
        exact List.mem_map_of_mem hit
      · rcases mem_knownIds.mp hgone.1 with hk | hk
        · exact hk hrev
        · exact hk hpend
    · cases hk

/-- What waits afterwards and was not settled waited before, under the same records. -/
theorem open_of_open (hmade : Made R l.active u l.state draws built turns) (hactive : l'.active = l.active)
    (hconf : ∀ y ∈ l.state.conflicts, y ∈ l'.state.conflicts)
    (habout : l'.state.about x = (l.planned built).state.about x) (h : x ∈ openItems l') : x ∈ openItems l := by
  have hrev : l'.state.revisions.get? x = l.state.revisions.get? x := congrArg Prod.fst habout
  have hstamp : l'.state.timestamps.get? x = l.state.timestamps.get? x := congrArg (·.2.1) habout
  have hpend : l'.state.pending.get? x = built.pendingMutations.get? x := congrArg (·.2.2) habout
  rw [mem_openItems, hactive] at h
  rw [mem_openItems]
  by_cases hup : x ∈ built.plan.upserts.map (·.id)
  · obtain ⟨up, hmem, rfl⟩ := List.mem_map.mp hup
    obtain ⟨it, hit, i, hd, expected, hs, -⟩ := hmade.upserts up hmem
    exact .inl ⟨it, hit, hd, hs.item.1.symm⟩
  by_cases ht : x ∈ turns.map Prod.fst
  · obtain ⟨p, hp, rfl⟩ := List.mem_map.mp ht
    exact .inr (hmade.gone p hp)
  have hsame : l'.state.pending.get? x = l.state.pending.get? x := hpend.trans (hmade.kept x hup ht)
  rcases h with ⟨it, hit, ⟨hc, hd⟩, rfl⟩ | ⟨hk, hlocal, hc⟩
  · exact .inl ⟨it, hit, ⟨fun hm => hc (hconf _ hm), fun hs => hd (by rwa [hstamp, hsame])⟩, rfl⟩
  · refine .inr ⟨mem_knownIds.mpr ?_, hlocal, fun hm => hc (hconf _ hm)⟩
    rw [← hrev, ← hsame]
    exact mem_knownIds.mp hk

theorem ownDelete_of_open (hown : DeletesOwn l.active u l.state)
    (hmade : Made R l.active u l.state draws built turns)
    (habout : l'.state.about x = (l.planned built).state.about x) (hgone : Gone l.active l.state x)
    {d : ItemLevelEncryptedDelete} (hd : replayedDelete u l'.state x = some d) : d.id = x := by
  have hrev : l'.state.revisions.get? x = l.state.revisions.get? x := congrArg Prod.fst habout
  have hpend : l'.state.pending.get? x = built.pendingMutations.get? x := congrArg (·.2.2) habout
  by_cases ht : x ∈ turns.map Prod.fst
  · obtain ⟨p, hp, rfl⟩ := List.mem_map.mp ht
    have hrecord := (Option.filter_eq_some_iff.mp hd).1
    rw [hpend, hmade.recorded p hp] at hrecord
    cases hrecord
    exact hown.id hgone _
  have hup : x ∉ built.plan.upserts.map (·.id) := fun hm => hgone.2.1 (hmade.upsertIds.subset hm)
  refine hown x d hgone ?_
  unfold replayedDelete deletionBase at hd ⊢
  rwa [hrev, hpend, hmade.kept x hup ht] at hd

theorem round_settles (hn : l.active.itemIds.Nodup) (hown : DeletesOwn l.active u l.state) (h : Round R u l l') :
    l'.active = l.active ∧ DeletesOwn l'.active u l'.state ∧ (∀ x ∈ openItems l', x ∈ openItems l) ∧
      ∃ x ∈ openItems l, x ∉ openItems l' := by
  obtain ⟨draws, built, response, hplan, hne, haccept⟩ := h
  obtain ⟨turns, hmade⟩ := built_made hn hplan
  have hids := hmade.nodup hn hown
  obtain ⟨hactive, hconf⟩ := answer_frame haccept
  have hgrow : ∀ y ∈ l.state.conflicts, y ∈ l'.state.conflicts := fun y hy => (hconf y).mpr (.inl hy)
  have hkept : ∀ x ∈ openItems l', l'.state.about x = (l.planned built).state.about x := by
    intro x hx
    rcases answer_item haccept hids x with ⟨op, hsettled⟩ | ⟨-, habout⟩
    · exact absurd hx (hsettled.closed hn hown hmade hactive)
    · exact habout
  have hopen : ∀ x ∈ openItems l', x ∈ openItems l := fun x hx =>
    open_of_open hmade hactive hgrow (hkept x hx) hx
  refine ⟨hactive, fun x d hgone hd => ?_, hopen, ?_⟩
  · have hx : x ∈ openItems l' := mem_openItems.mpr (.inr hgone)
    refine ownDelete_of_open hown hmade (hkept x hx) ?_ hd
    rcases mem_openItems.mp (hopen x hx) with ⟨it, hit, -, rfl⟩ | h
    · exact absurd (List.mem_map_of_mem hit) (hactive ▸ hgone.2.1)
    · exact h
  · obtain ⟨op, hop, hsettled⟩ := answer_settles hne haccept hids
    refine ⟨op.id, mem_openItems.mpr ?_, ?_⟩
    · rcases hmade.operation hop with ⟨it, hit, i, up, rfl, hid, hd, -⟩ | ⟨p, hp, rfl⟩
      · exact .inl ⟨it, hit, hd, hid.symm⟩
      · exact .inr (by
          rw [show (Operation.delete (deletionOf u l.state (draws p.2) p.1)).id = p.1 from
            hown.id (hmade.gone p hp) _]
          exact hmade.gone p hp)
    · rcases hsettled with hsettled | hc
      · exact hsettled.closed hn hown hmade hactive
      · rw [mem_openItems]
        rintro (⟨it, -, hd, hid⟩ | hgone)
        · exact hd.1 (hid ▸ hc)
        · exact hgone.2.2 hc

theorem round_decreases (hn : l.active.itemIds.Nodup) (hown : DeletesOwn l.active u l.state) (h : Round R u l l') :
    (openItems l').length < (openItems l).length := by
  obtain ⟨hactive, -, hsub, y, hy, hy'⟩ := round_settles hn hown h
  have hn' : (openItems l').Nodup := openItems_nodup (hactive ▸ hn)
  have hsub' : openItems l' ⊆ (openItems l).erase y := fun x hx =>
    (List.mem_erase_of_ne fun he : x = y => hy' (he ▸ hx)).mpr (hsub x hx)
  have hle := (List.subperm_of_subset hn' hsub').length_le
  rw [List.length_erase_of_mem hy] at hle
  have hpos := List.length_pos_of_mem hy
  omega

/-! ## The loop -/

theorem rounds_keep {n : Nat} (hn : l.active.itemIds.Nodup) (hown : DeletesOwn l.active u l.state)
    (h : Rounds R u n l l') :
    l'.active.itemIds.Nodup ∧ DeletesOwn l'.active u l'.state ∧
      (openItems l').length + n ≤ (openItems l).length := by
  induction h with
  | refl l => exact ⟨hn, hown, Nat.le_refl _⟩
  | tail _ hround ih =>
    obtain ⟨hn', hown', hle⟩ := ih hn hown
    obtain ⟨hactive, hnext, -⟩ := round_settles hn' hown' hround
    have hlt := round_decreases hn' hown' hround
    exact ⟨hactive ▸ hn', hnext, by omega⟩

theorem push_loop_ends (hn : l.active.itemIds.Nodup) (hown : DeletesOwn l.active u l.state) :
    (∀ n l₁ l₂, Rounds R u n l l₁ → Round R u l₁ l₂ → (openItems l₂).length < (openItems l₁).length) ∧
      (∀ n l', Rounds R u n l l' → n ≤ (openItems l).length) ∧
      ¬ ∃ f : Nat → Locals κ, f 0 = l ∧ ∀ n, Round R u (f n) (f (n + 1)) := by
  have hbound : ∀ n l', Rounds R u n l l' → n ≤ (openItems l).length := by
    intro n l' h
    have hle := (rounds_keep hn hown h).2.2
    omega
  refine ⟨fun n l₁ l₂ h1 h2 => ?_, hbound, ?_⟩
  · obtain ⟨hn₁, hown₁, -⟩ := rounds_keep hn hown h1
    exact round_decreases hn₁ hown₁ h2
  · rintro ⟨f, hf, hround⟩
    have hruns : ∀ n, Rounds R u n l (f n) := by
      intro n
      induction n with
      | zero => exact hf ▸ .refl _
      | succ n ih => exact .tail ih (hround n)
    have := hbound _ _ (hruns ((openItems l).length + 1))
    omega

end

section

def noteLocals : Locals Unit := ⟨recordedState, noteVault, 0, []⟩

theorem push_loop_ends_note :
    ¬ ∃ f : Nat → Locals Unit, f 0 = noteLocals ∧ ∀ n, Round sampleRuntime sampleUser (f n) (f (n + 1)) := by
  refine (push_loop_ends (l := noteLocals) (by decide) fun x d _ hd => ?_).2.2
  have hrecord := (Option.filter_eq_some_iff.mp hd).1
  rw [show noteLocals.state = recordedState from rfl, recordedState, Table.get?_set, Table.get?_set] at hrecord
  split at hrecord
  · rename_i he
    cases hrecord
    exact he.symm
  split at hrecord
  · cases hrecord
  · cases hrecord

def misfiled : PendingItemMutation := recordOf (deletionBy sampleUser strayId)

def misfiledLocals (n : Nat) : Locals Unit where
  state := { emptySyncState with
    serverRevision := 1
    pending := (∅ : Table ItemId PendingItemMutation).set goneId misfiled }
  active := ⟨(), []⟩
  appliedCount := n
  conflictDetails := []

def takesDeletion : ItemLevelSyncPushResult :=
  ⟨1, ⟨[], [strayId], [⟨misfiled.clientMutationId, strayId, .delete, 1⟩]⟩, []⟩

/-- The receipt is one for another id, and the deletion is sent again in every round. -/
theorem misfiled_deletion_loops :
    ¬ ∀ (κ : Type) (R : Runtime κ) (u : UserId) (l : Locals κ), l.active.itemIds.Nodup →
      ¬ ∃ f : Nat → Locals κ, f 0 = l ∧ ∀ n, Round R u (f n) (f (n + 1)) := by
  intro h
  refine h Unit sampleRuntime sampleUser (misfiledLocals 0) List.nodup_nil ⟨misfiledLocals, rfl, fun n => ?_⟩
  exact .mk (sampleDraws 'a')
    ⟨⟨1, [], [deletionBy sampleUser strayId]⟩, [], (misfiledLocals n).state.pending⟩ takesDeletion rfl (List.cons_ne_nil _ _) rfl

end

end ZeroVault.Browser

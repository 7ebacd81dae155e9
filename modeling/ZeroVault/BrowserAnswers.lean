import ZeroVault.BrowserPlan
import ZeroVault.PushAlone

/-!
# What an answer does to one item

A client that accepts the answer of a push takes over one receipt for an item
or leaves the item as it was (`receivePush_item`); of a page of the change feed
an item sees its own entries, one after the other (`receivePull_item`).
-/

namespace ZeroVault.Browser

open Lib

theorem except_bind_ok {ε α β : Type} {a : Except ε α} {f : α → Except ε β} {b : β} (h : (a >>= f) = .ok b) :
    ∃ x, a = .ok x ∧ f x = .ok b := by
  cases a with
  | error e => cases h
  | ok x => exact ⟨x, rfl, h⟩

/-! ## The answer to a push -/

section
variable {κ : Type} {plan : ItemLevelSyncPlan} {x : ItemId}

theorem foldl_set_mem {ops : List Operation} {t : Table MutationId Operation} {m : MutationId} {op : Operation}
    (h : (ops.foldl (fun t op => t.set op.clientMutationId op) t).get? m = some op) :
    t.get? m = some op ∨ (op ∈ ops ∧ op.clientMutationId = m) := by
  induction ops generalizing t with
  | nil => exact .inl h
  | cons o ops ih =>
    rw [List.foldl_cons] at h
    rcases ih h with ht | ⟨hop, hm⟩
    · rw [Table.get?_set] at ht
      by_cases he : m = o.clientMutationId
      · rw [if_pos he] at ht
        cases ht
        exact .inr ⟨List.mem_cons_self, he.symm⟩
      · rw [if_neg he] at ht
        exact .inl ht
    · exact .inr ⟨List.mem_cons_of_mem _ hop, hm⟩

theorem operationsById_mem {m : MutationId} {op : Operation} (h : (operationsById plan).get? m = some op) :
    op ∈ plan.operations ∧ op.clientMutationId = m := by
  rcases foldl_set_mem h with ht | hm
  · cases ht
  · exact hm

structure Checked (plan : ItemLevelSyncPlan) (serverRevision : Nat) (receipt : AppliedMutationReceipt)
    (op : Operation) : Prop where
  mem : op ∈ plan.operations
  mutation : op.clientMutationId = receipt.clientMutationId
  item : op.id = receipt.itemId
  kind : op.kind = receipt.operation
  newer : op.baseItemRevision < receipt.appliedItemRevision
  bounded : receipt.appliedItemRevision ≤ serverRevision

theorem checkReceipt_ok {serverRevision : Nat} {seen seen' : List MutationId} {receipt : AppliedMutationReceipt}
    (h : checkReceipt (operationsById plan) serverRevision seen receipt = .ok seen') :
    seen' = receipt.clientMutationId :: seen ∧ receipt.clientMutationId ∉ seen ∧
      ∃ op, Checked plan serverRevision receipt op := by
  unfold checkReceipt at h
  cases hop : (operationsById plan).get? receipt.clientMutationId with
  | none =>
    rw [hop] at h
    cases h
  | some op =>
    rw [hop] at h
    dsimp only at h
    split at h
    · cases h
    · rename_i hc
      cases h
      simp only [not_or, not_not, Nat.not_le, gt_iff_lt, Nat.not_lt] at hc
      obtain ⟨hseen, hid, hk, hlt, hle⟩ := hc
      obtain ⟨hmem, hm⟩ := operationsById_mem hop
      exact ⟨rfl, hseen, op, hmem, hm, hid, hk, hlt, hle⟩

theorem checkReceipts_ok {serverRevision : Nat} {seen seen' : List MutationId}
    {receipts : List AppliedMutationReceipt}
    (h : receipts.foldlM (checkReceipt (operationsById plan) serverRevision) seen = .ok seen') :
    (∀ m, m ∈ seen' ↔ m ∈ seen ∨ m ∈ receipts.map (·.clientMutationId)) ∧
      (receipts.map (·.clientMutationId)).Nodup ∧ (∀ r ∈ receipts, r.clientMutationId ∉ seen) ∧
      ∀ r ∈ receipts, ∃ op, Checked plan serverRevision r op := by
  induction receipts generalizing seen with
  | nil =>
    cases h
    simp
  | cons r receipts ih =>
    rw [List.foldlM_cons] at h
    cases h1 : checkReceipt (operationsById plan) serverRevision seen r with
    | error e =>
      rw [h1] at h
      cases h
    | ok seen₁ =>
      rw [h1] at h
      obtain ⟨rfl, hr, hop⟩ := checkReceipt_ok h1
      obtain ⟨hmem, hn, hnew, hops⟩ := ih h
      refine ⟨fun m => ?_, ?_, fun r' hr' => ?_, fun r' hr' => ?_⟩
      · rw [hmem, List.map_cons, List.mem_cons, List.mem_cons]
        constructor
        · rintro ((h | h) | h)
          · exact .inr (.inl h)
          · exact .inl h
          · exact .inr (.inr h)
        · rintro (h | h | h)
          · exact .inl (.inr h)
          · exact .inl (.inl h)
          · exact .inr h
      · rw [List.map_cons, List.nodup_cons]
        refine ⟨fun hm => ?_, hn⟩
        obtain ⟨r', hr', he⟩ := List.mem_map.mp hm
        exact hnew r' hr' (he ▸ List.mem_cons_self)
      · rcases List.mem_cons.mp hr' with rfl | hr'
        · exact hr
        · exact fun hs => hnew r' hr' (List.mem_cons_of_mem _ hs)
      · rcases List.mem_cons.mp hr' with rfl | hr'
        · exact hop
        · exact hops r' hr'

theorem checkConflicts_ok {seen : List MutationId} {conflicting conflicting' : List ItemId}
    {conflicts : List ItemLevelSyncConflict}
    (h : conflicts.foldlM (checkConflict (operationsById plan) seen) conflicting = .ok conflicting') :
    ∀ c ∈ conflicts, ∃ op ∈ plan.operations, op.id = c.itemId ∧ op.clientMutationId ∉ seen := by
  induction conflicts generalizing conflicting with
  | nil => exact fun c hc => absurd hc List.not_mem_nil
  | cons c conflicts ih =>
    rw [List.foldlM_cons] at h
    cases h1 : checkConflict (operationsById plan) seen conflicting c with
    | error e =>
      rw [h1] at h
      cases h
    | ok conflicting₁ =>
      rw [h1] at h
      intro c' hc'
      rcases List.mem_cons.mp hc' with rfl | hc'
      · unfold checkConflict at h1
        cases hf : ((operationsById plan).rows.map Prod.snd).find? (·.id = c'.itemId) with
        | none =>
          rw [hf] at h1
          cases h1
        | some op =>
          rw [hf] at h1
          dsimp only at h1
          split at h1
          · cases h1
          · rename_i hno
            simp only [not_or, not_not] at hno
            obtain ⟨⟨m, op'⟩, hrow, rfl⟩ := List.mem_map.mp (List.mem_of_find?_eq_some hf)
            have hid := List.find?_some hf
            exact ⟨op', (operationsById_mem (Table.mem_rows.mp hrow)).1, of_decide_eq_true hid, hno.2.2.2⟩
      · exact ih h c' hc'

def SyncState.about (state : SyncState) (x : ItemId) : Option Nat × Option String × Option PendingItemMutation :=
  (state.revisions.get? x, state.timestamps.get? x, state.pending.get? x)

/-- The rest of the state, which receipts do not touch. -/
def SyncState.frame (state : SyncState) : Nat × Nat × List ItemId :=
  (state.cursor, state.serverRevision, state.conflicts)

theorem applyReceipt_ok {state state' : SyncState} {receipt : AppliedMutationReceipt}
    (h : applyReceipt state receipt = .ok state') :
    state'.frame = state.frame ∧ (∀ y, y ≠ receipt.itemId → state'.about y = state.about y) ∧
      ((receipt.operation = .delete ∧ state'.about receipt.itemId = (none, none, none)) ∨
        (receipt.operation = .upsert ∧ ∃ p, state.pending.get? receipt.itemId = some p ∧
          state'.about receipt.itemId = (some receipt.appliedItemRevision, some p.itemUpdatedAt, none))) := by
  unfold applyReceipt at h
  cases hk : receipt.operation with
  | delete =>
    rw [hk] at h
    cases h
    refine ⟨rfl, fun y hy => ?_, .inl ⟨rfl, ?_⟩⟩
    · simp [SyncState.about, hy]
    · simp [SyncState.about]
  | upsert =>
    rw [hk] at h
    dsimp only at h
    cases hp : state.pending.get? receipt.itemId with
    | none =>
      rw [hp] at h
      cases h
    | some p =>
      rw [hp] at h
      cases h
      refine ⟨rfl, fun y hy => ?_, .inr ⟨rfl, p, rfl, ?_⟩⟩
      · simp [SyncState.about, hy]
      · simp [SyncState.about]

theorem applyReceipts_frame {receipts : List AppliedMutationReceipt} {state state' : SyncState}
    (h : receipts.foldlM applyReceipt state = .ok state') : state'.frame = state.frame := by
  induction receipts generalizing state with
  | nil => cases h; rfl
  | cons r receipts ih =>
    rw [List.foldlM_cons] at h
    cases h1 : applyReceipt state r with
    | error e =>
      rw [h1] at h
      cases h
    | ok state₁ =>
      rw [h1] at h
      rw [ih h, (applyReceipt_ok h1).1]

theorem applyReceipts_other {receipts : List AppliedMutationReceipt} {state state' : SyncState}
    (h : receipts.foldlM applyReceipt state = .ok state') (hx : ∀ r ∈ receipts, r.itemId ≠ x) :
    state'.about x = state.about x := by
  induction receipts generalizing state with
  | nil => cases h; rfl
  | cons r receipts ih =>
    rw [List.foldlM_cons] at h
    cases h1 : applyReceipt state r with
    | error e =>
      rw [h1] at h
      cases h
    | ok state₁ =>
      rw [h1] at h
      rw [ih h fun r' hr' => hx r' (List.mem_cons_of_mem _ hr'),
        (applyReceipt_ok h1).2.1 x fun he => hx r List.mem_cons_self he.symm]

/-- The state after a receipt for the item, which is the only one. -/
def receipted (state : SyncState) (r : AppliedMutationReceipt) :
    Option (Option Nat × Option String × Option PendingItemMutation) :=
  match r.operation with
  | .delete => some (none, none, none)
  | .upsert => (state.pending.get? r.itemId).map fun p => (some r.appliedItemRevision, some p.itemUpdatedAt, none)

theorem applyReceipts_item {receipts : List AppliedMutationReceipt} {state state' : SyncState}
    (h : receipts.foldlM applyReceipt state = .ok state') {r : AppliedMutationReceipt} (hr : r ∈ receipts)
    (hn : (receipts.map (·.clientMutationId)).Nodup)
    (hone : ∀ r' ∈ receipts, r'.itemId = r.itemId → r'.clientMutationId = r.clientMutationId) :
    receipted state r = some (state'.about r.itemId) := by
  obtain ⟨pre, post, rfl⟩ := List.append_of_mem hr
  rw [List.map_append, List.map_cons, List.nodup_append, List.nodup_cons] at hn
  obtain ⟨-, ⟨hpost, -⟩, hpre⟩ := hn
  have h1 : ∀ r' ∈ pre, r'.itemId ≠ r.itemId := by
    intro r' hm he
    exact hpre _ (List.mem_map_of_mem hm) _ List.mem_cons_self (hone r' (List.mem_append_left _ hm) he)
  have h2 : ∀ r' ∈ post, r'.itemId ≠ r.itemId := by
    intro r' hm he
    have hsame := hone r' (List.mem_append_right _ (List.mem_cons_of_mem _ hm)) he
    exact hpost (hsame ▸ List.mem_map_of_mem hm)
  rw [List.foldlM_append] at h
  cases ha : pre.foldlM applyReceipt state with
  | error e =>
    rw [ha] at h
    cases h
  | ok state₁ =>
    rw [ha] at h
    have h : (r :: post).foldlM applyReceipt state₁ = .ok state' := h
    rw [List.foldlM_cons] at h
    cases hb : applyReceipt state₁ r with
    | error e =>
      rw [hb] at h
      cases h
    | ok state₂ =>
      rw [hb] at h
      have hpend : state₁.pending.get? r.itemId = state.pending.get? r.itemId :=
        congrArg (fun a => a.2.2) (applyReceipts_other ha h1)
      rw [applyReceipts_other h h2]
      unfold receipted
      rcases (applyReceipt_ok hb).2.2 with ⟨hk, he⟩ | ⟨hk, p, hp, he⟩
      · rw [hk, he]
      · rw [hk, he, ← hpend, hp]
        rfl

theorem mem_noteConflicts {conflicts : List ItemLevelSyncConflict} {ids : List ItemId} :
    x ∈ conflicts.foldl noteConflict ids ↔ x ∈ ids ∨ x ∈ conflicts.map (·.itemId) := by
  induction conflicts generalizing ids with
  | nil => simp
  | cons c conflicts ih =>
    rw [List.foldl_cons, ih, List.map_cons, List.mem_cons]
    unfold noteConflict
    split
    · rename_i hc
      constructor
      · rintro (h | h)
        · exact .inl h
        · exact .inr (.inr h)
      · rintro (h | rfl | h)
        · exact .inl h
        · exact .inl hc
        · exact .inr h
    · rw [List.mem_append, List.mem_singleton, or_assoc]

variable {l l' : Locals κ} {response : ItemLevelSyncPushResult}

/-- The checks that a push's answer passed, and what was made of it. -/
theorem receivePush_ok (h : receivePush l plan response = .ok l') :
    l.state.serverRevision ≤ response.serverRevision ∧
      ∃ seen conflicting state,
        response.applied.mutationReceipts.foldlM
          (checkReceipt (operationsById plan) response.serverRevision) [] = .ok seen ∧
        response.conflicts.foldlM (checkConflict (operationsById plan) seen) [] = .ok conflicting ∧
        response.applied.mutationReceipts.foldlM applyReceipt l.state = .ok state ∧
        l' = { l with
          state := { state with
            serverRevision := response.serverRevision
            conflicts := response.conflicts.foldl noteConflict state.conflicts }
          appliedCount := l.appliedCount + response.applied.mutationReceipts.length
          conflictDetails := l.conflictDetails ++ response.conflicts.map detailOf } := by
  unfold receivePush at h
  dsimp only at h
  split at h
  · cases h
  rename_i hrev
  obtain ⟨seen, h1, h⟩ := except_bind_ok h
  obtain ⟨conflicting, h2, h⟩ := except_bind_ok h
  split at h
  · cases h
  obtain ⟨state, h3, h⟩ := except_bind_ok h
  cases h
  exact ⟨Nat.not_lt.mp hrev, seen, conflicting, state, h1, h2, h3, rfl⟩

/-- What an accepted answer does to an item: it is acknowledged and reset, or
stays as it was; a conflict is reported only for an item that was sent and not
acknowledged. -/
theorem receivePush_item (h : receivePush l plan response = .ok l') (hids : (plan.operations.map (·.id)).Nodup)
    (hmids : (plan.operations.map (·.clientMutationId)).Nodup) (x : ItemId) :
    (∃ op r, r ∈ response.applied.mutationReceipts ∧ Checked plan response.serverRevision r op ∧ op.id = x ∧
        receipted l.state r = some (l'.state.about x) ∧ (x ∈ l'.state.conflicts → x ∈ l.state.conflicts) ∧
        (∀ d ∈ l'.conflictDetails, d.itemId = x → d ∈ l.conflictDetails)) ∨
      ((∀ op ∈ plan.operations, op.id = x →
          ∀ r ∈ response.applied.mutationReceipts, r.clientMutationId ≠ op.clientMutationId) ∧
        l'.state.about x = l.state.about x ∧
        ((∀ op ∈ plan.operations, op.id ≠ x) → (x ∈ l'.state.conflicts → x ∈ l.state.conflicts) ∧
          ∀ d ∈ l'.conflictDetails, d.itemId = x → d ∈ l.conflictDetails)) := by
  obtain ⟨-, seen, conflicting, state, h1, h2, h3, rfl⟩ := receivePush_ok h
  obtain ⟨hseen, hn, -, hops⟩ := checkReceipts_ok h1
  have hconf := checkConflicts_ok h2
  have hframe : state.conflicts = l.state.conflicts := congrArg (fun a => a.2.2) (applyReceipts_frame h3)
  -- without a conflict of its own the item is in no new list
  have hquiet : (∀ c ∈ response.conflicts, c.itemId ≠ x) →
      (x ∈ response.conflicts.foldl noteConflict state.conflicts → x ∈ l.state.conflicts) ∧
      ∀ d ∈ l.conflictDetails ++ response.conflicts.map detailOf, d.itemId = x → d ∈ l.conflictDetails := by
    intro hno
    refine ⟨fun hx => ?_, fun d hd hdx => ?_⟩
    · rcases mem_noteConflicts.mp hx with hx | hx
      · exact hframe ▸ hx
      · obtain ⟨c, hc, hcx⟩ := List.mem_map.mp hx
        exact absurd hcx (hno c hc)
    · rcases List.mem_append.mp hd with hd | hd
      · exact hd
      · obtain ⟨c, hc, rfl⟩ := List.mem_map.mp hd
        exact absurd hdx (hno c hc)
  by_cases hr : ∃ r ∈ response.applied.mutationReceipts, r.itemId = x
  · obtain ⟨r, hr, rfl⟩ := hr
    obtain ⟨op, hop⟩ := hops r hr
    have hone : ∀ r' ∈ response.applied.mutationReceipts, r'.itemId = r.itemId →
        r'.clientMutationId = r.clientMutationId := by
      intro r' hr' he
      obtain ⟨op', hop'⟩ := hops r' hr'
      have hsame : op' = op :=
        List.inj_on_of_nodup_map hids hop'.mem hop.mem (hop'.item.trans (he.trans hop.item.symm))
      rw [← hop'.mutation, hsame, hop.mutation]
    refine .inl ⟨op, r, hr, hop, hop.item, applyReceipts_item h3 hr hn hone, hquiet fun c hc hcx => ?_⟩
    obtain ⟨op', hop', hid, hns⟩ := hconf c hc
    have hsame : op' = op := List.inj_on_of_nodup_map hids hop' hop.mem (hid.trans (hcx.trans hop.item.symm))
    rw [hsame, hop.mutation, hseen] at hns
    exact hns (.inr (List.mem_map_of_mem hr))
  · have hno : ∀ r ∈ response.applied.mutationReceipts, r.itemId ≠ x := fun r hm he => hr ⟨r, hm, he⟩
    have habout : state.about x = l.state.about x := applyReceipts_other h3 hno
    refine .inr ⟨fun op hop hid r hm he => ?_, habout, fun hnone => hquiet fun c hc hcx => ?_⟩
    · obtain ⟨op', hop'⟩ := hops r hm
      have hsame : op' = op := List.inj_on_of_nodup_map hmids hop'.mem hop (hop'.mutation.trans he)
      exact hno r hm (by rw [← hop'.item, hsame, hid])
    · obtain ⟨op', hop', hid, -⟩ := hconf c hc
      exact hnone op' hop' (hid.trans hcx)

end

/-! ## The items of a vault -/

def UnlockedVault.find? {κ : Type} (vault : UnlockedVault κ) (x : ItemId) : Option VaultItem :=
  vault.items.find? (·.id = x)

section
variable {κ : Type} {vault : UnlockedVault κ} {x : ItemId} {it : VaultItem}

theorem find?_eq_some (hn : vault.itemIds.Nodup) : vault.find? x = some it ↔ it ∈ vault.items ∧ it.id = x := by
  unfold UnlockedVault.find?
  constructor
  · intro h
    have hid := List.find?_some h
    exact ⟨List.mem_of_find?_eq_some h, of_decide_eq_true hid⟩
  · rintro ⟨hit, rfl⟩
    cases hf : vault.items.find? (·.id = it.id) with
    | none =>
      rw [List.find?_eq_none] at hf
      simpa using hf it hit
    | some it' =>
      have hid := List.find?_some hf
      rw [List.inj_on_of_nodup_map hn (List.mem_of_find?_eq_some hf) hit (of_decide_eq_true hid)]

theorem find?_eq_none : vault.find? x = none ↔ x ∉ vault.itemIds := by
  unfold UnlockedVault.find? UnlockedVault.itemIds
  rw [List.find?_eq_none, List.mem_map]
  constructor
  · rintro h ⟨it, hit, rfl⟩
    simpa using h it hit
  · intro h it hit
    have hne : it.id ≠ x := fun he => h ⟨it, hit, he⟩
    simpa using hne

/-- The rows of an item map, under their ids. -/
def ByItemId (t : Table ItemId VaultItem) : Prop := ∀ id it, t.get? id = some it → it.id = id

theorem itemMap_fold (items : List VaultItem) (hn : (items.map (·.id)).Nodup) (t : Table ItemId VaultItem) :
    (items.foldl (fun t item => t.set item.id item) t).get? x = (items.find? (·.id = x)).or (t.get? x) := by
  induction items generalizing t with
  | nil => rfl
  | cons it items ih =>
    rw [List.map_cons, List.nodup_cons] at hn
    rw [List.foldl_cons, ih hn.2, Table.get?_set]
    by_cases hx : it.id = x
    · have hnone : items.find? (·.id = x) = none := by
        rw [List.find?_eq_none]
        intro it' hm
        have hne : it'.id ≠ x := fun he => hn.1 (hx ▸ he ▸ List.mem_map_of_mem hm)
        simpa using hne
      simp [hx, hnone]
    · have hne : x ≠ it.id := fun he => hx he.symm
      simp [hx, hne]

theorem itemMap_get? (hn : vault.itemIds.Nodup) : (itemMap vault.items).get? x = vault.find? x := by
  unfold itemMap
  rw [itemMap_fold vault.items hn, Table.get?_empty, Option.or_none]
  rfl

theorem itemMap_byItemId (items : List VaultItem) : ByItemId (itemMap items) := by
  unfold itemMap
  have hempty : ByItemId ∅ := fun id it h => by cases h
  generalize (∅ : Table ItemId VaultItem) = t at hempty
  induction items generalizing t with
  | nil => exact hempty
  | cons it items ih =>
    rw [List.foldl_cons]
    apply ih
    intro id it' h
    rw [Table.get?_set] at h
    split at h
    · rename_i he
      cases h
      exact he.symm
    · exact hempty id it' h

theorem values_ids {t : Table ItemId VaultItem} (h : ByItemId t) : (t.rows.map Prod.snd).map (·.id) = t.rows.map Prod.fst := by
  rw [List.map_map]
  apply List.map_congr_left
  intro p hp
  exact h p.1 p.2 (Table.mem_rows.mp hp)

theorem values_find? {t : Table ItemId VaultItem} (h : ByItemId t) (key : κ) :
    (UnlockedVault.mk key (t.rows.map Prod.snd)).find? x = t.get? x := by
  have hn : (UnlockedVault.mk key (t.rows.map Prod.snd)).itemIds.Nodup := by
    unfold UnlockedVault.itemIds
    rw [values_ids h]
    exact t.nodup
  apply Option.ext
  intro it
  rw [find?_eq_some hn]
  constructor
  · rintro ⟨hm, rfl⟩
    obtain ⟨⟨id, it'⟩, hp, rfl⟩ := List.mem_map.mp hm
    have hget := Table.mem_rows.mp hp
    rw [h id it' hget]
    exact hget
  · intro hget
    exact ⟨List.mem_map_of_mem (f := Prod.snd) (Table.mem_rows.mpr hget), h x it hget⟩

end

/-! ## A page of the pull -/

section
variable {κ : Type} {R : Runtime κ} {active : UnlockedVault κ} {u : UserId} {st st' : PullState}
variable {c : ItemLevelSyncChange} {x : ItemId}

theorem decrypt_id {e₁ e₂ : CiphertextEnvelope} {it : VaultItem} (h : decryptItemFromSync R active e₁ e₂ x = some it) :
    it.id = x := by
  unfold decryptItemFromSync at h
  obtain ⟨parsed, -, h⟩ := Option.bind_eq_some_iff.mp h
  obtain ⟨item, -, h⟩ := Option.bind_eq_some_iff.mp h
  split at h
  · rename_i hid
    cases h
    exact hid
  · cases h

theorem any_newer {revision : Option Nat} {n : Nat} :
    revision.any (n < ·) = true ↔ ∃ r, revision = some r ∧ n < r := by
  cases revision <;> simp

def Blocked (st : PullState) (id : ItemId) : Prop :=
  id = LOCAL_VAULT_ITEM_ID ∨ st.state.pending.contains id = true ∨ id ∈ st.state.conflicts

instance (st : PullState) (id : ItemId) : Decidable (Blocked st id) := inferInstanceAs (Decidable (_ ∨ _ ∨ _))

theorem applyChange_delete (cursor : Nat) (id : ItemId) (n : Nat) (deletedAt : String) :
    applyChange R active u st ⟨cursor, .delete id n deletedAt⟩ =
      if Blocked st id then .ok st
      else if (st.state.revisions.get? id).any (n < ·) then .ok st
      else .ok {
        state := { st.state with
          revisions := st.state.revisions.erase id
          timestamps := st.state.timestamps.erase id }
        items := st.items.erase id } := rfl

theorem applyChange_upsert (cursor : Nat) (row : VaultItemCiphertext) :
    applyChange R active u st ⟨cursor, .upsert row⟩ =
      if Blocked st row.id then .ok st
      else if row.ownerUserId ≠ u then .error .itemOwnerMismatch
      else if (st.state.revisions.get? row.id).any (row.revision < ·) then .ok st
      else match decryptItemFromSync R active row.encryptedItemKey row.encryptedPayload row.id with
        | none => .error .undecryptable
        | some plain => .ok {
            state := { st.state with
              revisions := st.state.revisions.set row.id row.revision
              timestamps := st.state.timestamps.set row.id plain.updatedAt }
            items := st.items.set row.id plain } := rfl

/-- What is passed over: an item that is pending or in conflict, and an entry
older than what the client has. -/
def PassesOver (st : PullState) (change : ItemLevelChange) : Prop :=
  Blocked st change.itemId ∨ ∃ r, st.state.revisions.get? change.itemId = some r ∧ change.revision < r

inductive Takes (R : Runtime κ) (active : UnlockedVault κ) (u : UserId) (x : ItemId) (st st' : PullState)
    (change : ItemLevelChange) : Prop
  | other (about : st'.state.about x = st.state.about x) (item : st'.items.get? x = st.items.get? x)
      (why : change.itemId ≠ x ∨ PassesOver st change)
  | delete (taken : ¬ PassesOver st change) (n : Nat) (deletedAt : String) (is : change = .delete x n deletedAt)
      (about : st'.state.about x = (none, none, none)) (item : st'.items.get? x = none)
  | upsert (taken : ¬ PassesOver st change) (row : VaultItemCiphertext) (plain : VaultItem)
      (is : change = .upsert row) (id : row.id = x) (owner : row.ownerUserId = u)
      (decrypts : decryptItemFromSync R active row.encryptedItemKey row.encryptedPayload x = some plain)
      (about : st'.state.about x = (some row.revision, some plain.updatedAt, none)) (item : st'.items.get? x = some plain)

theorem blocked_pending {id : ItemId} (h : ¬ Blocked st id) : st.state.pending.get? id = none :=
  Table.contains_eq_false.mp (Bool.not_eq_true _ ▸ fun hp => h (.inr (.inl hp)))

theorem takes_delete {cursor : Nat} {id : ItemId} {n : Nat} {deletedAt : String}
    (h : applyChange R active u st ⟨cursor, .delete id n deletedAt⟩ = .ok st') (x : ItemId) :
    st'.state.frame = st.state.frame ∧ (ByItemId st.items → ByItemId st'.items) ∧
      Takes R active u x st st' (.delete id n deletedAt) := by
  rw [applyChange_delete] at h
  by_cases hb : Blocked st id
  · rw [if_pos hb] at h
    cases h
    exact ⟨rfl, fun hk => hk, .other rfl rfl (.inr (.inl hb))⟩
  rw [if_neg hb] at h
  by_cases hany : (st.state.revisions.get? id).any (n < ·) = true
  · rw [if_pos hany] at h
    cases h
    exact ⟨rfl, fun hk => hk, .other rfl rfl (.inr (.inr (any_newer.mp hany)))⟩
  rw [if_neg hany] at h
  cases h
  refine ⟨rfl, fun hk id' it hit => ?_, ?_⟩
  · rw [Table.get?_erase] at hit
    split at hit
    · cases hit
    · exact hk id' it hit
  by_cases hx : id = x
  · subst hx
    refine .delete (not_or.mpr ⟨hb, fun hr => hany (any_newer.mpr hr)⟩) n deletedAt rfl ?_ ?_
    · simp [SyncState.about, blocked_pending hb]
    · simp
  · have hne : x ≠ id := fun he => hx he.symm
    refine .other ?_ ?_ (.inl hx)
    · simp [SyncState.about, hne]
    · simp [hne]

theorem takes_upsert {cursor : Nat} {row : VaultItemCiphertext}
    (h : applyChange R active u st ⟨cursor, .upsert row⟩ = .ok st') (x : ItemId) :
    st'.state.frame = st.state.frame ∧ (ByItemId st.items → ByItemId st'.items) ∧
      Takes R active u x st st' (.upsert row) := by
  rw [applyChange_upsert] at h
  -- an item in conflict or with a pending mutation is passed over
  by_cases hb : Blocked st row.id
  · rw [if_pos hb] at h
    cases h
    exact ⟨rfl, fun hk => hk, .other rfl rfl (.inr (.inl hb))⟩
  rw [if_neg hb] at h
  by_cases howner : row.ownerUserId ≠ u
  · rw [if_pos howner] at h
    cases h
  rw [if_neg howner] at h
  by_cases hany : (st.state.revisions.get? row.id).any (row.revision < ·) = true
  · rw [if_pos hany] at h
    cases h
    exact ⟨rfl, fun hk => hk, .other rfl rfl (.inr (.inr (any_newer.mp hany)))⟩
  rw [if_neg hany] at h
  cases hd : decryptItemFromSync R active row.encryptedItemKey row.encryptedPayload row.id with
  | none =>
    rw [hd] at h
    cases h
  | some plain =>
    rw [hd] at h
    cases h
    refine ⟨rfl, fun hk id' it hit => ?_, ?_⟩
    · rw [Table.get?_set] at hit
      split at hit
      · rename_i he
        cases hit
        rw [he]
        exact decrypt_id hd
      · exact hk id' it hit
    by_cases hx : row.id = x
    · subst hx
      refine .upsert (not_or.mpr ⟨hb, fun hr => hany (any_newer.mpr hr)⟩) row plain rfl rfl
        (Decidable.of_not_not howner) hd ?_ ?_
      · simp [SyncState.about, blocked_pending hb]
      · simp
    · have hne : x ≠ row.id := fun he => hx he.symm
      refine .other ?_ ?_ (.inl hx)
      · simp [SyncState.about, hne]
      · simp [hne]

theorem applyChange_takes (h : applyChange R active u st c = .ok st') (x : ItemId) :
    st'.state.frame = st.state.frame ∧ (ByItemId st.items → ByItemId st'.items) ∧ Takes R active u x st st' c.change := by
  obtain ⟨cursor, change⟩ := c
  cases change with
  | delete id n deletedAt => exact takes_delete h x
  | upsert row => exact takes_upsert h x

theorem applyChanges_keeps {P : PullState → Prop} {changes : List ItemLevelSyncChange}
    (hstep : ∀ c ∈ changes, ∀ st st', applyChange R active u st c = .ok st' → P st → P st')
    (h : changes.foldlM (applyChange R active u) st = .ok st') (h0 : P st) : P st' := by
  induction changes generalizing st with
  | nil => cases h; exact h0
  | cons c changes ih =>
    rw [List.foldlM_cons] at h
    obtain ⟨st₁, h1, h⟩ := except_bind_ok h
    exact ih (fun c' hc' => hstep c' (List.mem_cons_of_mem _ hc')) h (hstep c List.mem_cons_self _ _ h1 h0)

theorem receivePull_ok {l l' : Locals κ} {remote : ItemLevelSyncPullResponse} (h : receivePull R u l remote = .ok l') :
    ∃ st, remote.changes.foldlM (applyChange R l.active u) ⟨l.state, itemMap l.active.items⟩ = .ok st ∧
      l.state.cursor ≤ remote.cursor ∧ l.state.serverRevision ≤ remote.serverRevision ∧
      l' = { l with
        active := { l.active with items := st.items.rows.map Prod.snd }
        state := { st.state with serverRevision := remote.serverRevision, cursor := remote.cursor } } := by
  unfold receivePull at h
  split at h
  · cases h
  rename_i hc
  obtain ⟨st, h1, h⟩ := except_bind_ok h
  cases h
  simp only [not_or, Nat.not_lt] at hc
  exact ⟨st, h1, hc.1, hc.2.1, rfl⟩

theorem pull_run {F : Formats} {db : Db} {cursor limit : Nat} {remote : ItemLevelSyncPullResponse}
    (h : ((pullItemLevelSync F u cursor limit).run db).2 = .ok remote) :
    remote = pullResponse F (db.serverRevision u) cursor (max 1 (min limit 500))
      (db.itemSyncChanges.page u cursor (max 1 (min limit 500) + 1)) := by
  unfold pullItemLevelSync at h
  rw [Prog.query_bind, Prog.run_act] at h
  dsimp only at h
  cases hu : findUserById u db with
  | none =>
    rw [hu] at h
    cases h
  | some user =>
    have hr : user.serverRevision = db.serverRevision u := by
      unfold findUserById at hu
      unfold Db.serverRevision
      rw [hu]; rfl
    rw [hu] at h
    cases h
    rw [hr]

end

end ZeroVault.Browser

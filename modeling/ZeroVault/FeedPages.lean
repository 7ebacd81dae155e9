import ZeroVault.BrowserAnswers
import ZeroVault.PagedPull

/-!
# A page and one item

Of the entries that a page has of an item, which ascend in revision, the last
decides: it is taken over as it is, or none of them is (`page_effect`). A page of
the Worker has the item's entries up to its cursor (`pulled_entries`).
-/

namespace ZeroVault.Browser

open Lib

/-! ## Applying a page -/

section
variable {κ : Type} {R : Runtime κ} {active : UnlockedVault κ} {u : UserId} {st st' : PullState} {x : ItemId}
variable {c : ItemLevelSyncChange} {changes : List ItemLevelSyncChange}

theorem pending_page (hfold : changes.foldlM (applyChange R active u) st = .ok st') :
    st'.state.pending.get? x = st.state.pending.get? x := by
  have hstep : ∀ c ∈ changes, ∀ st₁ st₂, applyChange R active u st₁ c = .ok st₂ →
      st₁.state.pending.get? x = st.state.pending.get? x → st₂.state.pending.get? x = st.state.pending.get? x := by
    intro c _ st₁ st₂ hstep h
    rw [← h]
    obtain ⟨-, -, htakes⟩ := applyChange_takes hstep x
    cases htakes with
    | other about => exact congrArg (·.2.2) about
    | delete taken n deletedAt is about =>
      rw [is] at taken
      exact (congrArg (·.2.2) about).trans (blocked_pending fun hb => taken (.inl hb)).symm
    | upsert taken row plain is id owner decrypts about =>
      rw [is] at taken
      exact (congrArg (·.2.2) about).trans
        (blocked_pending fun hb => taken (.inl (show Blocked st₁ row.id from id ▸ hb))).symm
  exact applyChanges_keeps hstep hfold rfl

theorem frame_page (hfold : changes.foldlM (applyChange R active u) st = .ok st') : st'.state.frame = st.state.frame :=
  applyChanges_keeps (P := fun st₁ => st₁.state.frame = st.state.frame)
    (fun _ _ _ _ hstep h => (applyChange_takes hstep LOCAL_VAULT_ITEM_ID).1.trans h) hfold rfl

theorem byItemId_page (hfold : changes.foldlM (applyChange R active u) st = .ok st') (h : ByItemId st.items) :
    ByItemId st'.items :=
  applyChanges_keeps (P := fun st => ByItemId st.items)
    (fun _ _ _ _ hstep => (applyChange_takes hstep LOCAL_VAULT_ITEM_ID).2.1) hfold h

/-- What keeps the entries of an item off is not changed by a page. -/
theorem blocked_iff (hfold : changes.foldlM (applyChange R active u) st = .ok st') : Blocked st' x ↔ Blocked st x := by
  have hconflicts : st'.state.conflicts = st.state.conflicts := congrArg (·.2.2) (frame_page hfold)
  unfold Blocked Table.contains
  rw [hconflicts, pending_page hfold]

theorem blocked_step (hstep : applyChange R active u st c = .ok st') : Blocked st' x ↔ Blocked st x := by
  have hfold : [c].foldlM (applyChange R active u) st = .ok st' := by
    rw [List.foldlM_cons, hstep]
    rfl
  exact blocked_iff hfold

def entriesOf (x : ItemId) (changes : List ItemLevelSyncChange) : List ItemLevelChange :=
  (changes.map (·.change)).filter (·.itemId = x)

theorem entriesOf_snoc : entriesOf x (changes ++ [c]) =
    entriesOf x changes ++ if c.change.itemId = x then [c.change] else [] := by
  unfold entriesOf
  rw [List.map_append, List.filter_append, List.map_singleton, List.filter_singleton]
  simp

/-- What the entries of an item in a page do to it. -/
inductive PageEffect {κ : Type} (R : Runtime κ) (active : UnlockedVault κ) (x : ItemId) (st st' : PullState)
    (entries : List ItemLevelChange) : Prop
  | kept (about : st'.state.about x = st.state.about x) (item : st'.items.get? x = st.items.get? x)
      (why : ∀ e ∈ entries, Blocked st x ∨ ∃ r, st.state.revisions.get? x = some r ∧ e.revision < r)
  | deleted (free : ¬ Blocked st x) (n : Nat) (deletedAt : String) (last : entries.getLast? = some (.delete x n deletedAt))
      (newer : ∀ r, st.state.revisions.get? x = some r → r ≤ n) (about : st'.state.about x = (none, none, none))
      (item : st'.items.get? x = none)
  | stored (free : ¬ Blocked st x) (row : VaultItemCiphertext) (plain : VaultItem)
      (last : entries.getLast? = some (.upsert row)) (id : row.id = x)
      (decrypts : decryptItemFromSync R active row.encryptedItemKey row.encryptedPayload x = some plain)
      (newer : ∀ r, st.state.revisions.get? x = some r → r ≤ row.revision)
      (about : st'.state.about x = (some row.revision, some plain.updatedAt, none)) (item : st'.items.get? x = some plain)

/-- A newer entry of an unblocked item is not older than what the item was before the page. -/
theorem PageEffect.newer {st₁ : PullState} {entries : List ItemLevelChange} {e : ItemLevelChange}
    (h : PageEffect R active x st st₁ entries) (hasc : ∀ a ∈ entries, a.revision < e.revision)
    (hnow : ∀ r, st₁.state.revisions.get? x = some r → r ≤ e.revision) :
    ∀ r, st.state.revisions.get? x = some r → r ≤ e.revision := by
  intro r hr
  cases h with
  | kept about => exact hnow r ((congrArg Prod.fst about).trans hr)
  | deleted _ n deletedAt last newer =>
    exact Nat.le_trans (newer r hr) (Nat.le_of_lt (hasc _ (List.mem_of_getLast? last)))
  | stored _ row plain last id decrypts newer =>
    exact Nat.le_trans (newer r hr) (Nat.le_of_lt (hasc _ (List.mem_of_getLast? last)))

theorem not_passesOver {e : ItemLevelChange} (hid : e.itemId = x) (h : ¬ PassesOver st e) :
    ¬ Blocked st x ∧ ∀ r, st.state.revisions.get? x = some r → r ≤ e.revision := by
  refine ⟨fun hb => h (.inl (hid ▸ hb)), fun r hr => ?_⟩
  by_contra hlt
  exact h (.inr ⟨r, hid ▸ hr, Nat.lt_of_not_le hlt⟩)

theorem PageEffect.pass {st₁ : PullState} {entries : List ItemLevelChange} {e : ItemLevelChange}
    (h : PageEffect R active x st st₁ entries) (hblocked : Blocked st₁ x ↔ Blocked st x) (hid : e.itemId = x)
    (hasc : ∀ a ∈ entries, a.revision < e.revision) (hpass : PassesOver st₁ e)
    (habout : st'.state.about x = st₁.state.about x) (hitem : st'.items.get? x = st₁.items.get? x) :
    PageEffect R active x st st' (entries ++ [e]) := by
  have hwhy : Blocked st x ∨ ∃ r, st₁.state.revisions.get? x = some r ∧ e.revision < r := by
    rcases hpass with hb | hold
    · exact .inl (hblocked.mp (hid ▸ hb))
    · exact .inr (hid ▸ hold)
  cases h with
  | kept about item why =>
    refine .kept (habout.trans about) (hitem.trans item) fun a ha => ?_
    rcases List.mem_append.mp ha with ha | ha
    · exact why a ha
    · rw [List.mem_singleton.mp ha]
      exact hwhy.imp_right fun ⟨r, hr, hlt⟩ => ⟨r, (congrArg Prod.fst about).symm.trans hr, hlt⟩
  | deleted free n deletedAt last newer about item =>
    obtain ⟨r, hr, -⟩ := hwhy.resolve_left free
    rw [show st₁.state.revisions.get? x = none from congrArg Prod.fst about] at hr
    exact (nomatch hr)
  | stored free row plain last id decrypts newer about item =>
    obtain ⟨r, hr, hlt⟩ := hwhy.resolve_left free
    rw [show st₁.state.revisions.get? x = some row.revision from congrArg Prod.fst about] at hr
    cases hr
    have hnewer : row.revision < e.revision := hasc _ (List.mem_of_getLast? last)
    omega

theorem page_effect (hfold : changes.foldlM (applyChange R active u) st = .ok st')
    (hasc : (entriesOf x changes).Pairwise fun a b => a.revision < b.revision) :
    PageEffect R active x st st' (entriesOf x changes) := by
  -- by the last entry of the page
  induction changes using List.reverseRecOn generalizing st' with
  | nil =>
    cases hfold
    exact .kept rfl rfl fun e he => absurd he List.not_mem_nil
  | append_singleton changes c ih =>
    rw [List.foldlM_append] at hfold
    obtain ⟨st₁, hfirst, hfold⟩ := except_bind_ok hfold
    rw [List.foldlM_cons] at hfold
    obtain ⟨st₂, hstep, hfold⟩ := except_bind_ok hfold
    cases hfold
    rw [entriesOf_snoc] at hasc ⊢
    obtain ⟨hascPrefix, -, hascLast⟩ := List.pairwise_append.mp hasc
    have heffect := ih hfirst hascPrefix
    have hblocked : Blocked st₁ x ↔ Blocked st x := blocked_iff hfirst
    obtain ⟨-, -, htakes⟩ := applyChange_takes hstep x
    by_cases hid : c.change.itemId = x
    · rw [if_pos hid] at hascLast ⊢
      have hlast : ∀ a ∈ entriesOf x changes, a.revision < c.change.revision := fun a ha =>
        hascLast a ha _ (List.mem_singleton_self _)
      cases htakes with
      | other about item why => exact heffect.pass hblocked hid hlast (why.resolve_left fun hne => hne hid) about item
      | delete taken n deletedAt is about item =>
        obtain ⟨hfree, hnow⟩ := not_passesOver hid taken
        have hnewer := heffect.newer hlast hnow
        rw [is] at hnewer ⊢
        exact .deleted (mt hblocked.mpr hfree) n deletedAt List.getLast?_concat hnewer about item
      | upsert taken row plain is id owner decrypts about item =>
        obtain ⟨hfree, hnow⟩ := not_passesOver hid taken
        have hnewer := heffect.newer hlast hnow
        rw [is] at hnewer ⊢
        exact .stored (mt hblocked.mpr hfree) row plain List.getLast?_concat id decrypts hnewer about item
    · rw [if_neg hid, List.append_nil]
      have hsame : st'.state.about x = st₁.state.about x ∧ st'.items.get? x = st₁.items.get? x := by
        cases htakes with
        | other about item => exact ⟨about, item⟩
        | delete taken n deletedAt is => exact absurd (by rw [is]; rfl) hid
        | upsert taken row plain is id => exact absurd (by rw [is]; exact id) hid
      cases heffect with
      | kept about item why => exact .kept (hsame.1.trans about) (hsame.2.trans item) why
      | deleted free n deletedAt last newer about item =>
        exact .deleted free n deletedAt last newer (hsame.1.trans about) (hsame.2.trans item)
      | stored free row plain last id decrypts newer about item =>
        exact .stored free row plain last id decrypts newer (hsame.1.trans about) (hsame.2.trans item)

end

/-! ## A page of the Worker -/

section
variable {F : Formats} {u : UserId} {x : ItemId} {t : ItemSyncChanges} {c n serverRevision : Nat}

theorem pulled_window (ho : Ordered ItemSyncChangeRow.cursor t.rows) :
    (pullResponse F serverRevision c n (t.page u c (n + 1))).changes =
      ((window ItemSyncChangeRow.cursor (userRows t u) c
        (pullResponse F serverRevision c n (t.page u c (n + 1))).cursor).map (·.entry)).filter (itemLevelSyncChangeSchema F) := by
  have hord : Ordered ItemSyncChangeRow.cursor (userRows t u) := List.Pairwise.filter _ ho
  rw [pull_changes, pull_cursor, ← page_window hord]

theorem entriesOf_rows {rows : List ItemSyncChangeRow}
    (hvalid : ∀ r ∈ rows, r.change.itemId = x → itemLevelSyncChangeSchema F r.entry = true) :
    entriesOf x ((rows.map (·.entry)).filter (itemLevelSyncChangeSchema F)) =
      (rows.filter fun r => decide (r.change.itemId = x)).map (·.change) := by
  induction rows with
  | nil => rfl
  | cons r rows ih =>
    have hrest := ih fun r hr => hvalid r (List.mem_cons_of_mem _ hr)
    unfold entriesOf at hrest ⊢
    rw [List.map_cons, List.filter_cons, List.filter_cons]
    by_cases hid : r.change.itemId = x
    · rw [if_pos (hvalid r List.mem_cons_self hid), if_pos (decide_eq_true hid), List.map_cons, List.map_cons,
        List.filter_cons, if_pos (decide_eq_true (show r.entry.change.itemId = x from hid)), hrest]
      rfl
    · have hno : ¬ decide (r.change.itemId = x) = true := mt of_decide_eq_true hid
      rw [if_neg hno, ← hrest]
      split
      · rw [List.map_cons, List.filter_cons]
        exact if_neg hno
      · rfl

/-- The entries of an item in a page are those up to its cursor. -/
theorem pulled_entries (ho : Ordered ItemSyncChangeRow.cursor t.rows)
    (hvalid : ∀ r ∈ t.itemRows u x, itemLevelSyncChangeSchema F r.entry = true) :
    entriesOf x (pullResponse F serverRevision c n (t.page u c (n + 1))).changes =
      (window ItemSyncChangeRow.cursor (t.itemRows u x) c
        (pullResponse F serverRevision c n (t.page u c (n + 1))).cursor).map (·.change) := by
  rw [pulled_window ho]
  generalize (pullResponse F serverRevision c n (t.page u c (n + 1))).cursor = d
  have hitem : (window ItemSyncChangeRow.cursor (userRows t u) c d).filter (fun r => decide (r.change.itemId = x)) =
      window ItemSyncChangeRow.cursor (t.itemRows u x) c d := by
    unfold window userRows ItemSyncChanges.itemRows
    simp only [List.filter_filter]
    congr 1
    funext r
    simp only [Bool.and_assoc, Bool.and_comm, Bool.and_left_comm]
  rw [← hitem]
  refine entriesOf_rows fun r hr hid => hvalid r ?_
  obtain ⟨hrow, -⟩ := List.mem_filter.mp hr
  obtain ⟨hrows, hmine⟩ := List.mem_filter.mp hrow
  refine List.mem_filter.mpr ⟨hrows, ?_⟩
  rw [Bool.and_eq_true]
  exact ⟨hmine, decide_eq_true hid⟩

theorem pulled_last (ho : Ordered ItemSyncChangeRow.cursor t.rows)
    (hmore : (pullResponse F serverRevision c n (t.page u c (n + 1))).hasMore = false) :
    ∀ r ∈ t.itemRows u x, r.cursor ≤ (pullResponse F serverRevision c n (t.page u c (n + 1))).cursor := by
  intro r hr
  have hord : Ordered ItemSyncChangeRow.cursor (userRows t u) := List.Pairwise.filter _ ho
  have hrow : r ∈ userRows t u := by
    obtain ⟨hrows, hmine⟩ := List.mem_filter.mp hr
    rw [Bool.and_eq_true] at hmine
    exact List.mem_filter.mpr ⟨hrows, hmine.1⟩
  have hshort : ((userRows t u).filter fun r => c < r.cursor).length ≤ n := by
    by_contra hlt
    rw [pull_hasMore.mpr (Nat.lt_of_not_le hlt)] at hmore
    exact (nomatch hmore)
  rw [pull_cursor]
  by_contra hlt
  have hend : c ≤ pageEnd ItemSyncChangeRow.cursor c (page ItemSyncChangeRow.cursor (userRows t u) c n) := le_pageEnd
  have hafter : c < r.cursor := Nat.lt_of_le_of_lt hend (Nat.lt_of_not_le hlt)
  have hpage : r ∈ page ItemSyncChangeRow.cursor (userRows t u) c n := by
    unfold page
    rw [List.take_of_length_le hshort]
    exact List.mem_filter.mpr ⟨hrow, decide_eq_true hafter⟩
  rw [page_window hord] at hpage
  have hin := (List.mem_filter.mp hpage).2
  rw [Bool.and_eq_true] at hin
  exact hlt (of_decide_eq_true hin.2)

end

end ZeroVault.Browser

import ZeroVault.FeedPages
import ZeroVault.PlanReplay

/-!
# Acknowledged deletes

The receipt of a deletion takes the item's revision away, and with it what keeps
older entries of the feed off. A page that shows such an entry and not the
deletion behind it brings the item back (`receivePull_shows`), and no other page
does (`acknowledged_deletes`).
-/

namespace ZeroVault.Browser

open Lib

/-! ## Runs of a client -/

/-- What a run of `syncVault` is told; `none` is a request that fails. -/
inductive Heard
  | start
  | plan (draws : Nat → Draw)
  | push (answer : Option ItemLevelSyncPushResult)
  | pull (answer : Option ItemLevelSyncPullResponse)
  /-- The run has returned, or a commit of it throws. -/
  | stop

section
variable {κ : Type} (R : Runtime κ) (u : UserId)

/-- `none` where the client is not in a state for it. -/
def Client.hear (c : Client κ) (heard : Heard) : Option (Client κ) :=
  match heard, c.run with
  | .start, none => some { c with run := some (.planning ⟨c.sync, c.vault, 0, []⟩) }
  | .plan draws, some (.planning l) =>
    match buildItemLevelSyncPlan R draws l.active u l.state with
    | none => some c.stop
    | some built => some (c.planned l built)
  | .push answer, some (.pushing l plan) => some (c.pushed l plan answer)
  | .pull answer, some (.pulling l page) =>
    match answer with
    | none => some c.stop
    | some remote => some (c.pulled R u l page remote)
  | .stop, some _ => some c.stop
  | _, _ => none

def Client.hears (c : Client κ) (heard : List Heard) : Option (Client κ) := heard.foldlM (Client.hear R u) c

def Heard.page? : Heard → Option ItemLevelSyncPullResponse
  | .pull answer => answer
  | _ => none

def pages (heard : List Heard) : List ItemLevelSyncPullResponse := heard.filterMap Heard.page?

end

/-! ## One page -/

/-- An upsert of the item that no later entry of the page deletes. -/
def Shows (x : ItemId) (changes : List ItemLevelSyncChange) (row : VaultItemCiphertext) : Prop :=
  ∃ before cursor after, changes = before ++ ⟨cursor, .upsert row⟩ :: after ∧ row.id = x ∧
    ∀ c ∈ after, ∀ n deletedAt, c.change = .delete x n deletedAt → n < row.revision

section
variable {x : ItemId} {changes : List ItemLevelSyncChange} {row : VaultItemCiphertext}

theorem not_shows_nil : ¬ Shows x [] row := by
  rintro ⟨before, cursor, after, he, -⟩
  exact List.cons_ne_nil _ _ (List.append_eq_nil_iff.mp he.symm).2

theorem Shows.mem (h : Shows x changes row) : ∃ c ∈ changes, c.change = .upsert row ∧ row.id = x := by
  obtain ⟨before, cursor, after, rfl, hid, -⟩ := h
  exact ⟨_, List.mem_append_right _ List.mem_cons_self, rfl, hid⟩

theorem shows_snoc {c : ItemLevelSyncChange} :
    Shows x (changes ++ [c]) row ↔
      (Shows x changes row ∧ ∀ n deletedAt, c.change = .delete x n deletedAt → n < row.revision) ∨
        (c.change = .upsert row ∧ row.id = x) := by
  constructor
  · rintro ⟨before, cursor, after, he, hid, hlater⟩
    rcases List.eq_nil_or_concat after with rfl | ⟨after, c', rfl⟩
    · obtain ⟨-, hc⟩ := List.append_inj' he rfl
      exact .inr ⟨congrArg (·.change) (List.singleton_inj.mp hc), hid⟩
    · rw [List.concat_eq_append, ← List.cons_append, ← List.append_assoc] at he
      obtain ⟨hchanges, hc⟩ := List.append_inj' he rfl
      rw [List.concat_eq_append] at hlater
      refine .inl ⟨⟨before, cursor, after, hchanges, hid, fun c hc => hlater c (List.mem_append_left _ hc)⟩, ?_⟩
      rw [List.singleton_inj.mp hc]
      exact hlater c' (List.mem_append_right _ List.mem_cons_self)
  · rintro (⟨⟨before, cursor, after, rfl, hid, hlater⟩, hc⟩ | ⟨hc, hid⟩)
    · refine ⟨before, cursor, after ++ [c], by rw [List.append_assoc, List.cons_append], hid, fun c' hc' => ?_⟩
      rcases List.mem_append.mp hc' with hc' | hc'
      · exact hlater c' hc'
      · rw [List.mem_singleton.mp hc']
        exact hc
    · refine ⟨changes, c.cursor, [], ?_, hid, fun c' hc' => absurd hc' List.not_mem_nil⟩
      rw [← hc]

end

/-- Where an unknown item stands after some entries of a page: the newest upsert that they show. -/
inductive Shown (x : ItemId) (done : List ItemLevelSyncChange) (st : PullState) : Prop
  | absent (revision : st.state.revisions.get? x = none) (item : st.items.get? x = none)
      (hidden : ∀ row, ¬ Shows x done row)
  | present (row : VaultItemCiphertext) (shows : Shows x done row)
      (revision : st.state.revisions.get? x = some row.revision) (item : st.items.get? x ≠ none)
      (newest : ∀ row', Shows x done row' → row'.revision ≤ row.revision)

section
variable {κ : Type} {R : Runtime κ} {active : UnlockedVault κ} {u : UserId} {st st' : PullState} {x : ItemId}
variable {done : List ItemLevelSyncChange} {c : ItemLevelSyncChange}

theorem Shown.delete {n : Nat} {deletedAt : String} (hc : c.change = .delete x n deletedAt)
    (h : Shown x done st) (hrev : st'.state.revisions.get? x = none) (hitem : st'.items.get? x = none)
    (htaken : ∀ r, st.state.revisions.get? x = some r → r ≤ n) : Shown x (done ++ [c]) st' := by
  refine .absent hrev hitem fun row hshow => ?_
  rcases shows_snoc.mp hshow with ⟨hold, hlater⟩ | ⟨hup, -⟩
  · cases h with
    | absent _ _ hidden => exact hidden row hold
    | present row' _ revision _ newest =>
      have h1 := newest row hold
      have h2 := htaken _ revision
      have h3 := hlater n deletedAt hc
      omega
  · rw [hc] at hup
    exact (nomatch hup)

theorem Shown.upsert {row : VaultItemCiphertext} (hc : c.change = .upsert row) (hid : row.id = x)
    (h : Shown x done st) (hrev : st'.state.revisions.get? x = some row.revision) (hitem : st'.items.get? x ≠ none)
    (htaken : ∀ r, st.state.revisions.get? x = some r → r ≤ row.revision) : Shown x (done ++ [c]) st' := by
  refine .present row (shows_snoc.mpr (.inr ⟨hc, hid⟩)) hrev hitem fun row' hshow => ?_
  rcases shows_snoc.mp hshow with ⟨hold, -⟩ | ⟨hup, -⟩
  · cases h with
    | absent _ _ hidden => exact absurd hold (hidden row')
    | present row₁ _ revision _ newest => exact Nat.le_trans (newest row' hold) (htaken _ revision)
  · rw [hc] at hup
    cases hup
    exact Nat.le_refl _

/-- An entry that is passed over is of another item, or older than what is shown. -/
theorem Shown.other (hrev : st'.state.revisions.get? x = st.state.revisions.get? x)
    (hitem : st'.items.get? x = st.items.get? x) (h : Shown x done st)
    (hwhy : c.change.itemId ≠ x ∨ ∃ r, st.state.revisions.get? x = some r ∧ c.change.revision < r) :
    Shown x (done ++ [c]) st' := by
  have hupsert {row : VaultItemCiphertext} (hup : c.change = .upsert row) (hid : row.id = x) :
      ∃ r, st.state.revisions.get? x = some r ∧ row.revision < r := by
    rw [hup] at hwhy
    exact hwhy.resolve_left fun hne => hne hid
  cases h with
  | absent revision item hidden =>
    refine .absent (hrev.trans revision) (hitem.trans item) fun row hshow => ?_
    rcases shows_snoc.mp hshow with ⟨hold, -⟩ | ⟨hup, hid⟩
    · exact hidden row hold
    · obtain ⟨r, hr, -⟩ := hupsert hup hid
      rw [revision] at hr
      exact (nomatch hr)
  | present row shows revision item newest =>
    refine .present row (shows_snoc.mpr (.inl ⟨shows, fun n deletedAt hdel => ?_⟩)) (hrev.trans revision)
      (hitem ▸ item) fun row' hshow => ?_
    · rw [hdel, revision] at hwhy
      obtain ⟨r, hr, hlt⟩ := hwhy.resolve_left fun hne => hne rfl
      cases hr
      exact hlt
    · rcases shows_snoc.mp hshow with ⟨hold, -⟩ | ⟨hup, hid⟩
      · exact newest row' hold
      · obtain ⟨r, hr, hlt⟩ := hupsert hup hid
        rw [revision] at hr
        cases hr
        exact Nat.le_of_lt hlt

theorem Shown.step (hfree : ¬ Blocked st x) (hstep : applyChange R active u st c = .ok st') (h : Shown x done st) :
    Shown x (done ++ [c]) st' := by
  obtain ⟨-, -, htakes⟩ := applyChange_takes hstep x
  have hnewer (hnot : ¬ PassesOver st c.change) (hid : c.change.itemId = x) :
      ∀ r, st.state.revisions.get? x = some r → r ≤ c.change.revision := by
    intro r hr
    by_contra hlt
    exact hnot (.inr ⟨r, hid ▸ hr, Nat.lt_of_not_le hlt⟩)
  cases htakes with
  | other about item why =>
    refine h.other (congrArg Prod.fst about) item ?_
    by_cases hid : c.change.itemId = x
    · rcases why with hne | hb | hold
      · exact .inl hne
      · exact absurd (hid ▸ hb) hfree
      · exact .inr (hid ▸ hold)
    · exact .inl hid
  | delete taken n deletedAt is about item =>
    exact h.delete is (congrArg Prod.fst about) item fun r hr => by
      have := hnewer taken (by rw [is]; rfl) r hr
      rwa [is] at this
  | upsert taken row plain is id owner decrypts about item =>
    exact h.upsert is id (congrArg Prod.fst about) (by rw [item]; exact Option.some_ne_none _) fun r hr => by
      have := hnewer taken (by rw [is]; exact id) r hr
      rwa [is] at this

theorem Shown.page {changes : List ItemLevelSyncChange} (hfree : ¬ Blocked st x)
    (hfold : changes.foldlM (applyChange R active u) st = .ok st') (h : Shown x done st) : Shown x (done ++ changes) st' := by
  induction changes generalizing st done with
  | nil =>
    cases hfold
    rwa [List.append_nil]
  | cons c changes ih =>
    rw [List.foldlM_cons] at hfold
    obtain ⟨st₁, hstep, hfold⟩ := except_bind_ok hfold
    rw [List.append_cons]
    exact ih (mt (blocked_step hstep).mp hfree) hfold (h.step hfree hstep)

theorem blocked_page {changes : List ItemLevelSyncChange} (hb : x = LOCAL_VAULT_ITEM_ID ∨ x ∈ st.state.conflicts)
    (hfold : changes.foldlM (applyChange R active u) st = .ok st') :
    st'.state.about x = st.state.about x ∧ st'.items.get? x = st.items.get? x := by
  induction changes generalizing st with
  | nil =>
    cases hfold
    exact ⟨rfl, rfl⟩
  | cons c changes ih =>
    rw [List.foldlM_cons] at hfold
    obtain ⟨st₁, hstep, hfold⟩ := except_bind_ok hfold
    obtain ⟨hframe, -, htakes⟩ := applyChange_takes hstep x
    have hconflicts : st₁.state.conflicts = st.state.conflicts := congrArg (·.2.2) hframe
    have hblocked : Blocked st x := hb.imp_right .inr
    obtain ⟨habout, hitem⟩ := ih (hconflicts ▸ hb) hfold
    have hkept : st₁.state.about x = st.state.about x ∧ st₁.items.get? x = st.items.get? x := by
      cases htakes with
      | other about item => exact ⟨about, item⟩
      | delete taken n deletedAt is =>
        rw [is] at taken
        exact absurd (.inl hblocked) taken
      | upsert taken row plain is id =>
        rw [is] at taken
        exact absurd (.inl (show Blocked st row.id from id ▸ hblocked)) taken
    exact ⟨habout.trans hkept.1, hitem.trans hkept.2⟩

end

/-! ## Unknown items -/

structure Unknown {κ : Type} (vault : UnlockedVault κ) (state : SyncState) (x : ItemId) : Prop where
  item : x ∉ vault.itemIds
  revision : state.revisions.get? x = none
  pending : state.pending.get? x = none

section
variable {κ : Type} {R : Runtime κ} {u : UserId} {l l' : Locals κ} {x : ItemId}

/-- A page brings an unknown item in if it shows an upsert of it. -/
theorem receivePull_shows {remote : ItemLevelSyncPullResponse} (hn : l.active.itemIds.Nodup)
    (hx : Unknown l.active l.state x) (h : receivePull R u l remote = .ok l') :
    (Unknown l'.active l'.state x ∧ (x ≠ LOCAL_VAULT_ITEM_ID → x ∉ l.state.conflicts → ∀ row, ¬ Shows x remote.changes row)) ∨
      (x ∈ l'.active.itemIds ∧ ∃ row, Shows x remote.changes row) := by
  obtain ⟨st, hfold, -, -, rfl⟩ := receivePull_ok h
  have hmap : (itemMap l.active.items).get? x = none := (itemMap_get? hn).trans (find?_eq_none.mpr hx.item)
  have hby : ByItemId st.items := byItemId_page hfold (itemMap_byItemId _)
  have hitem : x ∉ (UnlockedVault.mk l.active.key (st.items.rows.map Prod.snd)).itemIds ↔ st.items.get? x = none := by
    rw [← find?_eq_none, values_find? hby]
  by_cases hb : x = LOCAL_VAULT_ITEM_ID ∨ x ∈ l.state.conflicts
  · obtain ⟨habout, hsame⟩ := blocked_page hb hfold
    refine .inl ⟨⟨hitem.mpr (hsame.trans hmap), ?_, ?_⟩, fun hlocal hconf => absurd hb (not_or.mpr ⟨hlocal, hconf⟩)⟩
    · exact (congrArg Prod.fst habout).trans hx.revision
    · exact (congrArg (·.2.2) habout).trans hx.pending
  · have hfree : ¬ Blocked (PullState.mk l.state (itemMap l.active.items)) x := by
      rintro (hlocal | hpend | hconf)
      · exact hb (.inl hlocal)
      · rw [Table.contains_eq_false.mpr hx.pending] at hpend
        exact (nomatch hpend)
      · exact hb (.inr hconf)
    have hstart : Shown x [] (PullState.mk l.state (itemMap l.active.items)) :=
      .absent hx.revision hmap fun _ => not_shows_nil
    have hfree' : ¬ Blocked st x := mt (blocked_iff hfold).mp hfree
    cases hstart.page hfree hfold with
    | absent revision item hidden =>
      exact .inl ⟨⟨hitem.mpr item, revision, blocked_pending hfree'⟩, fun _ _ => hidden⟩
    | present row shows revision item newest => exact .inr ⟨not_not.mp (mt hitem.mp item), row, shows⟩

/-- Receipts leave nothing recorded of an item of which nothing was, or of which one has the deletion. -/
theorem applyReceipts_erased {receipts : List AppliedMutationReceipt} {state state' : SyncState}
    (h : receipts.foldlM applyReceipt state = .ok state')
    (hx : (state.revisions.get? x = none ∧ state.pending.get? x = none) ∨
      ∃ r ∈ receipts, r.itemId = x ∧ r.operation = .delete) :
    state'.revisions.get? x = none ∧ state'.pending.get? x = none := by
  induction receipts generalizing state with
  | nil =>
    cases h
    exact hx.resolve_right fun ⟨r, hr, _⟩ => List.not_mem_nil hr
  | cons r receipts ih =>
    rw [List.foldlM_cons] at h
    obtain ⟨state₁, hstep, h⟩ := except_bind_ok h
    obtain ⟨-, hother, htaken⟩ := applyReceipt_ok hstep
    refine ih h ?_
    by_cases hid : x = r.itemId
    · subst hid
      rcases htaken with ⟨-, habout⟩ | ⟨hkind, p, hp, -⟩
      · exact .inl ⟨congrArg Prod.fst habout, congrArg (·.2.2) habout⟩
      · -- an upsert's receipt needs the pending mutation
        rcases hx with ⟨-, hpending⟩ | ⟨r', hr', hid, hdelete⟩
        · rw [hp] at hpending
          exact (nomatch hpending)
        · rcases List.mem_cons.mp hr' with rfl | hr'
          · rw [hkind] at hdelete
            exact (nomatch hdelete)
          · exact .inr ⟨r', hr', hid, hdelete⟩
    · have hsame := hother x hid
      rcases hx with ⟨hrevision, hpending⟩ | ⟨r', hr', rfl, hdelete⟩
      · exact .inl ⟨(congrArg Prod.fst hsame).trans hrevision, (congrArg (·.2.2) hsame).trans hpending⟩
      · rcases List.mem_cons.mp hr' with rfl | hr'
        · exact absurd rfl hid
        · exact .inr ⟨r', hr', rfl, hdelete⟩

theorem applyReceipts_pending {receipts : List AppliedMutationReceipt} {state state' : SyncState}
    (h : receipts.foldlM applyReceipt state = .ok state') {p : PendingItemMutation}
    (hp : state'.pending.get? x = some p) : state.pending.get? x = some p := by
  induction receipts generalizing state with
  | nil =>
    cases h
    exact hp
  | cons r receipts ih =>
    rw [List.foldlM_cons] at h
    obtain ⟨state₁, hstep, h⟩ := except_bind_ok h
    obtain ⟨-, hother, htaken⟩ := applyReceipt_ok hstep
    have hkept := ih h
    by_cases hid : x = r.itemId
    · subst hid
      have herased : state₁.pending.get? r.itemId = none := by
        rcases htaken with ⟨-, habout⟩ | ⟨-, p', -, habout⟩
        · exact congrArg (·.2.2) habout
        · exact congrArg (·.2.2) habout
      rw [herased] at hkept
      exact (nomatch hkept)
    · exact (congrArg (·.2.2) (hother x hid)).symm.trans hkept

theorem receivePush_unknown {plan : ItemLevelSyncPlan} {response : ItemLevelSyncPushResult}
    (h : receivePush l plan response = .ok l') (hitem : x ∉ l.active.itemIds)
    (hx : (l.state.revisions.get? x = none ∧ l.state.pending.get? x = none) ∨
      ∃ r ∈ response.applied.mutationReceipts, r.itemId = x ∧ r.operation = .delete) : Unknown l'.active l'.state x := by
  obtain ⟨-, seen, conflicting, state, -, -, hfold, rfl⟩ := receivePush_ok h
  obtain ⟨hrevision, hpending⟩ := applyReceipts_erased hfold hx
  exact ⟨hitem, hrevision, hpending⟩

theorem receivePush_deletes {plan : ItemLevelSyncPlan} {response : ItemLevelSyncPushResult}
    (h : receivePush l plan response = .ok l') {r : AppliedMutationReceipt}
    (hr : r ∈ response.applied.mutationReceipts) (hkind : r.operation = .delete) :
    ∃ d ∈ plan.deletes, d.id = r.itemId := by
  obtain ⟨-, seen, conflicting, state, hcheck, -, -, -⟩ := receivePush_ok h
  obtain ⟨-, -, -, hops⟩ := checkReceipts_ok hcheck
  obtain ⟨op, hop⟩ := hops r hr
  have hdelete := hop.kind.trans hkind
  rcases List.mem_append.mp hop.mem with hmem | hmem
  · obtain ⟨up, -, rfl⟩ := List.mem_map.mp hmem
    exact (nomatch hdelete)
  · obtain ⟨d, hd, rfl⟩ := List.mem_map.mp hmem
    exact ⟨d, hd, hop.item⟩

end

/-! ## Runs -/

/-- A recorded deletion names the item under which it is recorded. -/
def OwnDeletes (pending : Table ItemId PendingItemMutation) : Prop :=
  ∀ x p d, pending.get? x = some p → p.delete = some d → d.id = x

section
variable {κ : Type} {R : Runtime κ} {u : UserId} {vault : UnlockedVault κ} {state : SyncState} {draws : Nat → Draw}
variable {built : BuiltPlan} {turns : List (ItemId × Nat)}

theorem OwnDeletes.own (h : OwnDeletes state.pending) : DeletesOwn vault u state := by
  intro x d _ hd
  obtain ⟨p, hp, hpd⟩ := Option.bind_eq_some_iff.mp (Option.filter_eq_some_iff.mp hd).1
  exact h x p d hp hpd

theorem Made.ownDeletes (hmade : Made R vault u state draws built turns) (hown : OwnDeletes state.pending) :
    OwnDeletes built.pendingMutations := by
  intro x p d hp hd
  by_cases hup : x ∈ built.plan.upserts.map (·.id)
  · obtain ⟨up, hmem, rfl⟩ := List.mem_map.mp hup
    obtain ⟨it, -, i, -, expected, hs, hrecord⟩ := hmade.upserts up hmem
    rw [hs.item.1, hrecord] at hp
    cases hp
    exact (nomatch hd)
  by_cases hturn : x ∈ turns.map Prod.fst
  · obtain ⟨q, hq, rfl⟩ := List.mem_map.mp hturn
    rw [hmade.recorded q hq] at hp
    cases hp
    cases hd
    exact hown.own.id (hmade.gone q hq) _
  · rw [hmade.kept x hup hturn] at hp
    exact hown x p d hp hd

theorem Made.deletes_absent (hmade : Made R vault u state draws built turns) (hown : OwnDeletes state.pending)
    {d : ItemLevelEncryptedDelete} (hd : d ∈ built.plan.deletes) : d.id ∉ vault.itemIds := by
  rw [hmade.deletes] at hd
  obtain ⟨q, hq, rfl⟩ := List.mem_map.mp hd
  rw [hown.own.id (hmade.gone q hq)]
  exact (hmade.gone q hq).2.1

theorem Made.unknown (hmade : Made R vault u state draws built turns) {x : ItemId} (hx : Unknown vault state x) :
    built.pendingMutations.get? x = none := by
  have hup : x ∉ built.plan.upserts.map (·.id) := fun hm => hx.item (hmade.upsertIds.subset hm)
  have hturn : x ∉ turns.map Prod.fst := by
    intro hm
    obtain ⟨q, hq, rfl⟩ := List.mem_map.mp hm
    rcases mem_knownIds.mp (hmade.gone q hq).1 with h | h
    · exact h hx.revision
    · exact h hx.pending
  exact (hmade.kept x hup hturn).trans hx.pending

end

section
variable {κ : Type} (R : Runtime κ) (u : UserId)

inductive Hears (c : Client κ) : Heard → Client κ → Prop
  | starts : Hears c .start { c with run := some (.planning ⟨c.sync, c.vault, 0, []⟩) }
  | stops {heard : Heard} : Hears c heard c.stop
  | plans (draws : Nat → Draw) {l : Locals κ} {built : BuiltPlan} (run : c.run = some (.planning l))
      (builds : buildItemLevelSyncPlan R draws l.active u l.state = some built) : Hears c (.plan draws) (c.planned l built)
  | pushes {l l' : Locals κ} {plan : ItemLevelSyncPlan} {response : ItemLevelSyncPushResult}
      (run : c.run = some (.pushing l plan)) (accepts : receivePush l plan response = .ok l') :
      Hears c (.push (some response)) (c.commit l' (.planning l'))
  | pulls {l l' : Locals κ} {page : Nat} {remote : ItemLevelSyncPullResponse} {c' : Client κ}
      (run : c.run = some (.pulling l page)) (accepts : receivePull R u l remote = .ok l') (vault : c'.vault = l'.active)
      (sync : c'.sync = l'.state)
      (next : c'.run = none ∨ c'.run = some (.returned l') ∨ c'.run = some (.pulling l' (page + 1))) :
      Hears c (.pull (some remote)) c'

/-- Between two answers the run holds what is stored, and what it waits to delete is not in the vault. -/
structure Client.Upright (c : Client κ) : Prop where
  nodup : c.vault.itemIds.Nodup
  own : OwnDeletes c.sync.pending
  run : ∀ run, c.run = some run → run.locals.active = c.vault ∧ run.locals.state = c.sync
  deletes : ∀ l plan, c.run = some (.pushing l plan) → ∀ d ∈ plan.deletes, d.id ∉ c.vault.itemIds

end

section
variable {κ : Type} {R : Runtime κ} {u : UserId} {c c' : Client κ} {heard : Heard} {x : ItemId}

theorem Client.hear_cases (h : c.hear R u heard = some c') : Hears R u c heard c' := by
  have hstop : Hears R u c heard c.stop := .stops
  -- what the run does not wait for is not heard, and what does not check stops it
  cases hrun : c.run with
  | none =>
    cases heard <;> simp only [Client.hear, hrun, reduceCtorEq] at h
    cases h
    exact .starts
  | some run =>
    cases run with
    | planning l =>
      cases heard <;> simp only [Client.hear, hrun, reduceCtorEq] at h
      case stop => cases h; exact hstop
      case plan draws =>
        cases hbuild : buildItemLevelSyncPlan R draws l.active u l.state with
        | none =>
          rw [hbuild] at h
          cases h
          exact hstop
        | some built =>
          rw [hbuild] at h
          cases h
          exact .plans draws hrun hbuild
    | pushing l plan =>
      cases heard <;> simp only [Client.hear, hrun, reduceCtorEq] at h
      case stop => cases h; exact hstop
      case push answer =>
        cases h
        unfold Client.pushed
        cases answer with
        | none => exact hstop
        | some response =>
          dsimp only
          cases haccept : receivePush l plan response with
          | error e => exact hstop
          | ok l' => exact .pushes hrun haccept
    | pulling l page =>
      cases heard <;> simp only [Client.hear, hrun, reduceCtorEq] at h
      case stop => cases h; exact hstop
      case pull answer =>
        cases answer with
        | none => cases h; exact hstop
        | some remote =>
          cases h
          unfold Client.pulled
          cases haccept : receivePull R u l remote with
          | error e => exact hstop
          | ok l' =>
            dsimp only
            split
            · exact .pulls hrun haccept rfl rfl (.inr (.inl rfl))
            split
            · exact .pulls hrun haccept rfl rfl (.inl rfl)
            · exact .pulls hrun haccept rfl rfl (.inr (.inr rfl))
    | returned l =>
      cases heard <;> simp only [Client.hear, hrun, reduceCtorEq] at h
      cases h
      exact hstop

theorem Client.Upright.hear (h : c.Upright) (hears : Hears R u c heard c') : c'.Upright := by
  -- a run works on the stored vault and state, and every commit stores what it goes on with
  cases hears with
  | starts =>
    refine ⟨h.nodup, h.own, fun run hrun => ?_, fun l plan hrun => (nomatch hrun)⟩
    cases hrun
    exact ⟨rfl, rfl⟩
  | stops => exact ⟨h.nodup, h.own, fun _ hrun => (nomatch hrun), fun _ _ hrun => (nomatch hrun)⟩
  | plans draws run builds =>
    rename_i l built
    obtain ⟨hactive, hstate⟩ := h.run _ run
    change l.active = c.vault at hactive
    change l.state = c.sync at hstate
    rw [hactive, hstate] at builds
    obtain ⟨turns, hmade⟩ := built_made h.nodup builds
    refine ⟨h.nodup, hmade.ownDeletes h.own, fun run' hrun => ?_, fun l' plan hrun => ?_⟩
    · have hrun := Option.some.inj hrun
      rw [← hrun]
      split
      · exact ⟨hactive, rfl⟩
      · exact ⟨hactive, rfl⟩
    · have hrun := Option.some.inj hrun
      split at hrun
      · exact (nomatch hrun)
      · cases hrun
        exact fun d hd => hmade.deletes_absent h.own hd
  | pushes run accepts =>
    rename_i l l' plan response
    obtain ⟨hactive, hstate⟩ := h.run _ run
    obtain ⟨-, seen, conflicting, state, -, -, hfold, rfl⟩ := receivePush_ok accepts
    refine ⟨h.nodup, ?_, fun run' hrun => ?_, fun l' plan hrun => (nomatch hrun)⟩
    · change l.state = c.sync at hstate
      rw [hstate] at hfold
      exact fun x p d hp hd => h.own x p d (applyReceipts_pending hfold hp) hd
    · cases hrun
      exact ⟨hactive, rfl⟩
  | pulls run accepts vault sync next =>
    rename_i l l' page remote
    obtain ⟨hactive, hstate⟩ := h.run _ run
    have hlocals : ∀ run', c'.run = some run' → run'.locals = l' ∧ ∀ l plan, run' ≠ .pushing l plan := by
      intro run' hrun
      rcases next with next | next | next
      · rw [next] at hrun
        exact (nomatch hrun)
      · rw [next] at hrun
        cases hrun
        exact ⟨rfl, fun _ _ he => (nomatch he)⟩
      · rw [next] at hrun
        cases hrun
        exact ⟨rfl, fun _ _ he => (nomatch he)⟩
    obtain ⟨st, hfold, -, -, rfl⟩ := receivePull_ok accepts
    refine ⟨?_, ?_, fun run' hrun => ?_, fun l plan hrun => absurd rfl ((hlocals _ hrun).2 l plan)⟩
    · rw [vault]
      unfold UnlockedVault.itemIds
      rw [values_ids (byItemId_page hfold (itemMap_byItemId _))]
      exact st.items.nodup
    · change l.state = c.sync at hstate
      rw [sync]
      intro x p d hp hd
      have hkept := pending_page (x := x) hfold
      refine h.own x p d ?_ hd
      rw [← hstate]
      exact hkept.symm.trans hp
    · rw [(hlocals _ hrun).1, vault, sync]
      exact ⟨rfl, rfl⟩

/-- What a page may have brought back. -/
def BroughtBack (x : ItemId) (r : Nat) (remotes : List ItemLevelSyncPullResponse) : Prop :=
  ∃ page ∈ remotes, ∃ c ∈ page.changes, ∃ row, c.change = .upsert row ∧ row.id = x ∧ r < row.revision

/-- One step from a state in which nothing is held of the item. -/
theorem Unknown.hear (hc : c.Upright) (hx : Unknown c.vault c.sync x) (hears : Hears R u c heard c') {r : Nat}
    (hpage : ∀ page, heard.page? = some page → ∀ row, Shows x page.changes row → r < row.revision) :
    Unknown c'.vault c'.sync x ∨ BroughtBack x r (pages [heard]) := by
  cases hears with
  | starts => exact .inl hx
  | stops => exact .inl hx
  | plans draws run builds =>
    obtain ⟨hactive, hstate⟩ := hc.run _ run
    rename_i l built
    change l.active = c.vault at hactive
    change l.state = c.sync at hstate
    rw [hactive, hstate] at builds
    obtain ⟨turns, hmade⟩ := built_made hc.nodup builds
    exact .inl ⟨hx.item, (congrArg (·.revisions.get? x) hstate).trans hx.revision, hmade.unknown hx⟩
  | pushes run accepts =>
    obtain ⟨hactive, hstate⟩ := hc.run _ run
    rename_i l l' plan response
    change l.active = c.vault at hactive
    change l.state = c.sync at hstate
    have hunknown := receivePush_unknown (x := x) accepts (hactive ▸ hx.item) (.inl (hstate ▸ ⟨hx.revision, hx.pending⟩))
    have hsame : l'.active = c.vault := by
      obtain ⟨-, _, _, _, -, -, -, rfl⟩ := receivePush_ok accepts
      exact hactive
    exact .inl (hsame ▸ hunknown)
  | pulls run accepts vault sync next =>
    obtain ⟨hactive, hstate⟩ := hc.run _ run
    rename_i l l' page remote
    change l.active = c.vault at hactive
    change l.state = c.sync at hstate
    rw [vault, sync]
    rcases receivePull_shows (by rw [hactive]; exact hc.nodup) (by rw [hactive, hstate]; exact hx) accepts with
      ⟨h, -⟩ | ⟨-, row, hshows⟩
    · exact .inl h
    · obtain ⟨change, hmem, hup, hid⟩ := hshows.mem
      exact .inr ⟨remote, List.mem_singleton_self _, change, hmem, row, hup, hid, hpage remote rfl row hshows⟩

theorem hears_cons {told : List Heard} :
    c.hears R u (heard :: told) = some c' ↔ ∃ c₁, Client.hear R u c heard = some c₁ ∧ c₁.hears R u told = some c' := by
  unfold Client.hears
  rw [List.foldlM_cons]
  exact Option.bind_eq_some_iff

theorem Client.Upright.hears {told : List Heard} (h : c.Upright) (hrun : c.hears R u told = some c') : c'.Upright := by
  induction told generalizing c with
  | nil =>
    cases hrun
    exact h
  | cons heard told ih =>
    obtain ⟨c₁, hstep, hrun⟩ := hears_cons.mp hrun
    exact ih (h.hear (Client.hear_cases hstep)) hrun

theorem Unknown.hears {told : List Heard} {r : Nat} (hc : c.Upright) (hx : Unknown c.vault c.sync x)
    (hrun : c.hears R u told = some c')
    (hpages : ∀ page ∈ pages told, ∀ row, Shows x page.changes row → r < row.revision) :
    x ∉ c'.vault.itemIds ∨ BroughtBack x r (pages told) := by
  induction told generalizing c with
  | nil =>
    cases hrun
    exact .inl hx.item
  | cons heard told ih =>
    obtain ⟨c₁, hstep, hrun⟩ := hears_cons.mp hrun
    have hsplit : pages (heard :: told) = pages [heard] ++ pages told := by
      unfold pages
      rw [← List.filterMap_append, List.singleton_append]
    rw [hsplit] at hpages ⊢
    have hfirst : ∀ page, heard.page? = some page → ∀ row, Shows x page.changes row → r < row.revision := by
      refine fun page hpage => hpages page (List.mem_append_left _ (List.mem_filterMap.mpr ⟨heard, ?_, hpage⟩))
      exact List.mem_singleton_self _
    have hears := Client.hear_cases hstep
    rcases hx.hear hc hears hfirst with hx₁ | ⟨page, hmem, hback⟩
    · refine (ih (hc.hear hears) hx₁ hrun fun page hmem => hpages page (List.mem_append_right _ hmem)).imp_right ?_
      rintro ⟨page, hmem, hback⟩
      exact ⟨page, List.mem_append_right _ hmem, hback⟩
    · exact .inr ⟨page, List.mem_append_left _ hmem, hback⟩

theorem Client.Upright.acknowledged {response : ItemLevelSyncPushResult} (h : c.Upright)
    (hstep : Client.hear R u c (.push (some response)) = some c') (haccepted : c'.run ≠ none) {receipt : AppliedMutationReceipt}
    (hmem : receipt ∈ response.applied.mutationReceipts) (hdelete : receipt.operation = .delete) :
    Unknown c'.vault c'.sync receipt.itemId := by
  cases Client.hear_cases hstep with
  | stops => exact absurd rfl haccepted
  | pushes run accepts =>
    rename_i l l' plan
    obtain ⟨hactive, -⟩ := h.run _ run
    change l.active = c.vault at hactive
    obtain ⟨d, hd, hid⟩ := receivePush_deletes accepts hmem hdelete
    have hlocal : receipt.itemId ∉ c.vault.itemIds := hid ▸ h.deletes l plan run d hd
    have hunknown := receivePush_unknown accepts (hactive ▸ hlocal) (.inr ⟨receipt, hmem, rfl, hdelete⟩)
    exact ⟨hlocal, hunknown.revision, hunknown.pending⟩

theorem acknowledged_deletes {c₀ c₁ c₂ c₃ : Client κ} {before after : List Heard} {response : ItemLevelSyncPushResult}
    {receipt : AppliedMutationReceipt} (hn : c₀.vault.itemIds.Nodup) (hown : OwnDeletes c₀.sync.pending)
    (hidle : c₀.run = none) (hbefore : c₀.hears R u before = some c₁)
    (hstep : c₁.hear R u (.push (some response)) = some c₂) (haccepted : c₂.run ≠ none)
    (hmem : receipt ∈ response.applied.mutationReceipts) (hdelete : receipt.operation = .delete)
    (hafter : c₂.hears R u after = some c₃)
    (hpages : ∀ page ∈ pages after, ∀ row, Shows receipt.itemId page.changes row → receipt.appliedItemRevision < row.revision) :
    receipt.itemId ∉ c₃.vault.itemIds ∨
      ∃ page ∈ pages after, ∃ c ∈ page.changes, ∃ row, c.change = .upsert row ∧ row.id = receipt.itemId ∧
        receipt.appliedItemRevision < row.revision := by
  have hstart : c₀.Upright := by
    refine ⟨hn, hown, fun run hrun => ?_, fun l plan hrun => ?_⟩
    · rw [hidle] at hrun
      exact (nomatch hrun)
    · rw [hidle] at hrun
      exact (nomatch hrun)
  have hupright := hstart.hears hbefore
  exact (hupright.acknowledged hstep haccepted hmem hdelete).hears (hupright.hear (Client.hear_cases hstep)) hafter hpages

end

section

def deletingClient : Client Unit where
  vault := ⟨(), []⟩
  sync := { emptySyncState with serverRevision := 1, revisions := (∅ : Table ItemId Nat).set sampleId 1 }
  run := none

def deletionApplied : ItemLevelSyncPushResult :=
  ⟨2, ⟨[], [sampleId], [⟨(sampleDraws 'a' 0).randomUUID, sampleId, .delete, 2⟩]⟩, []⟩

def upsertEntry : ItemLevelSyncChange := ⟨1, .upsert { sampleUpsert.toVaultItemCiphertext with
  revision := 1
  encryptedItemKey := (sampleBundle firstNote).encryptedItemKey
  encryptedPayload := (sampleBundle firstNote).encryptedPayload }⟩

def deleteEntry : ItemLevelSyncChange := ⟨2, .delete sampleId 2 sampleUpsert.createdAt⟩

def feedPage (cursor : Nat) (hasMore : Bool) (changes : List ItemLevelSyncChange) : ItemLevelSyncPullResponse :=
  ⟨2, cursor, hasMore, changes, [], [], []⟩

def deletingRun : List Heard := [.start, .plan (sampleDraws 'a')]

/-- The feed in one page, or in two of which the second is not answered. -/
def wholeFeed : List Heard := [.plan (sampleDraws 'b'), .pull (some (feedPage 2 false [upsertEntry, deleteEntry]))]

def cutFeed : List Heard := [.plan (sampleDraws 'b'), .pull (some (feedPage 1 true [upsertEntry])), .pull none]

def heardAfter (told : List Heard) : Option (Client Unit) := do
  let c ← deletingClient.hears sampleRuntime sampleUser deletingRun
  let c ← c.hear sampleRuntime sampleUser (.push (some deletionApplied))
  c.hears sampleRuntime sampleUser told

theorem heardAfter_some {draws : Nat → Draw} {told : List Heard} {c : Client Unit}
    (h : heardAfter (.plan draws :: told) = some c) :
    ∃ c₁ c₂, deletingClient.hears sampleRuntime sampleUser deletingRun = some c₁ ∧
      c₁.hear sampleRuntime sampleUser (.push (some deletionApplied)) = some c₂ ∧ c₂.run ≠ none ∧
      c₂.hears sampleRuntime sampleUser (.plan draws :: told) = some c := by
  unfold heardAfter at h
  obtain ⟨c₁, hbefore, h⟩ := Option.bind_eq_some_iff.mp h
  obtain ⟨c₂, hstep, hafter⟩ := Option.bind_eq_some_iff.mp h
  refine ⟨c₁, c₂, hbefore, hstep, fun hnone => ?_, hafter⟩
  obtain ⟨c₃, hplan, -⟩ := hears_cons.mp hafter
  unfold Client.hear at hplan
  rw [hnone] at hplan
  exact (nomatch hplan)

theorem deletingClient_own : OwnDeletes deletingClient.sync.pending := fun _ _ _ hp => (nomatch hp)

theorem acknowledged_deletes_whole_feed : ∃ c, heardAfter wholeFeed = some c ∧ sampleId ∉ c.vault.itemIds := by
  obtain ⟨c, hc⟩ := Option.isSome_iff_exists.mp (show (heardAfter wholeFeed).isSome = true by decide +kernel)
  obtain ⟨c₁, c₂, hbefore, hstep, haccepted, hafter⟩ := heardAfter_some hc
  have hpages : ∀ page ∈ pages wholeFeed, ∀ row, ¬ Shows sampleId page.changes row := by
    intro page hpage row hshows
    rw [List.mem_singleton.mp (show page ∈ [feedPage 2 false [upsertEntry, deleteEntry]] from hpage)] at hshows
    have hshows : Shows sampleId ([upsertEntry] ++ [deleteEntry]) row := hshows
    rcases shows_snoc.mp hshows with ⟨hold, hlater⟩ | ⟨hup, -⟩
    · obtain ⟨c, hmem, hup, -⟩ := hold.mem
      rw [List.mem_singleton.mp hmem] at hup
      cases hup
      exact absurd (hlater 2 _ rfl) (by decide)
    · exact (nomatch hup)
  have hmem : (⟨(sampleDraws 'a' 0).randomUUID, sampleId, .delete, 2⟩ : AppliedMutationReceipt) ∈
      deletionApplied.applied.mutationReceipts := List.mem_singleton_self _
  refine ⟨c, hc, ?_⟩
  have hitems : deletingClient.vault.itemIds.Nodup := List.nodup_nil
  rcases acknowledged_deletes hitems deletingClient_own rfl hbefore hstep haccepted hmem rfl hafter
    fun page hpage row hshows => absurd hshows (hpages page hpage row) with h | ⟨page, hpage, c, hc, row, hup, -, hnewer⟩
  · exact h
  · rw [List.mem_singleton.mp (show page ∈ [feedPage 2 false [upsertEntry, deleteEntry]] from hpage)] at hc
    rcases List.mem_cons.mp hc with rfl | hc
    · cases hup
      exact absurd hnewer (by decide)
    · rw [List.mem_singleton.mp hc] at hup
      exact (nomatch hup)

/-- The second page, with the deletion, is not answered: the client keeps what the first one brought back. -/
theorem deleted_item_returns :
    ¬ ∀ (c₀ c₁ c₂ c₃ : Client Unit) (before after : List Heard) (response : ItemLevelSyncPushResult)
      (receipt : AppliedMutationReceipt), c₀.vault.itemIds.Nodup → OwnDeletes c₀.sync.pending → c₀.run = none →
      c₀.hears sampleRuntime sampleUser before = some c₁ →
      c₁.hear sampleRuntime sampleUser (.push (some response)) = some c₂ → c₂.run ≠ none →
      receipt ∈ response.applied.mutationReceipts → receipt.operation = .delete →
      c₂.hears sampleRuntime sampleUser after = some c₃ →
      receipt.itemId ∉ c₃.vault.itemIds ∨
        ∃ page ∈ pages after, ∃ c ∈ page.changes, ∃ row, c.change = .upsert row ∧ row.id = receipt.itemId ∧
          receipt.appliedItemRevision < row.revision := by
  intro h
  have hback : (heardAfter cutFeed).any (fun c => c.vault.itemIds.contains sampleId) = true := by decide +kernel
  obtain ⟨c, hc, hcontains⟩ := (Option.any_eq_true _ _).mp hback
  obtain ⟨c₁, c₂, hbefore, hstep, haccepted, hafter⟩ := heardAfter_some hc
  rcases h deletingClient c₁ c₂ c _ _ _ _ List.nodup_nil deletingClient_own rfl hbefore hstep haccepted
    (List.mem_singleton_self _) rfl hafter with hgone | ⟨page, hpage, change, hchange, row, hup, -, hnewer⟩
  · exact hgone (List.contains_iff_mem.mp hcontains)
  · rw [List.mem_singleton.mp (show page ∈ [feedPage 1 true [upsertEntry]] from hpage)] at hchange
    rw [List.mem_singleton.mp hchange] at hup
    cases hup
    exact absurd hnewer (by decide)

end

end ZeroVault.Browser

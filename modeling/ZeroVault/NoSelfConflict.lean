import Mathlib.Logic.Relation
import ZeroVault.BrowserAnswers

/-!
# A browser client and itself

One client edits and synchronizes while nobody else writes one of its items.
`Standing` is where the item can be between the client's changes, its pending
mutations and the server's row; every step keeps it, as long as the item is not
changed again before an answer that was lost has been asked for once more
(`no_self_conflict`).
-/

namespace ZeroVault.Browser

open Lib

/-! ## The system -/

structure World (κ : Type) where
  server : Db
  client : Client κ

inductive Act
  | client (event : ClientEvent)
  | other (call : SyncCall)

section
variable {κ : Type} (R : Runtime κ) (u : UserId) (x : ItemId)

def World.step (act : Act) (w : World κ) : Option (World κ) :=
  match act with
  | .client event => (w.client.step R u event w.server).map fun p => ⟨p.1, p.2⟩
  | .other call => some ⟨(call.code.run w.server).1, w.client⟩

def World.Allows (w : World κ) : Act → Prop
  | .client (.add _ id _) =>
    id ∉ w.client.vault.itemIds ∧ w.client.sync.about id = (none, none, none) ∧ w.server.vaultItems.get? id = none
  | .client (.plan draws) =>
    (∀ i j, (draws i).randomUUID = (draws j).randomUUID → i = j) ∧
      (∀ i id p, w.client.sync.pending.get? id = some p → p.clientMutationId ≠ (draws i).randomUUID) ∧
      ∀ i, w.server.itemSyncMutations.get? (u, (draws i).randomUUID) = none
  | .other call =>
    x ∉ call.itemIds ∧
      ∀ id p, w.client.sync.pending.get? id = some p → p.clientMutationId ∉ call.mutationIds
  | _ => True

def NotDeleted (db : Db) (x : ItemId) : Prop := ∀ row, db.vaultItems.get? x = some row → row.deletedAt = none

/-- The server has applied no pending mutation of the item, and deleted it at
no time. -/
def World.Settled (w : World κ) : Prop :=
  NotDeleted w.server x ∧ ∀ p, w.client.sync.pending.get? x = some p →
    w.server.itemSyncMutations.get? (u, p.clientMutationId) = none

/-- The item is changed when it is settled, and deleted only when a pending
mutation of it finds a row. -/
def World.Careful (w : World κ) : Act → Prop
  | .client (.update id _ _) => id = x → x ∈ w.client.vault.itemIds → w.Settled u x
  | .client (.delete id) =>
    id = x → x ∈ w.client.vault.itemIds →
      w.Settled u x ∧ (w.client.sync.pending.get? x ≠ none → w.server.vaultItems.get? x ≠ none)
  | _ => True

def Run.locals : Run κ → Locals κ
  | .planning l => l
  | .pushing l _ => l
  | .pulling l _ => l
  | .returned l => l

/-- A run reports a conflict for the item, or a former one did. -/
def World.Conflicts (w : World κ) : Prop :=
  x ∈ w.client.sync.conflicts ∨ ∃ run, w.client.run = some run ∧ ∃ d ∈ run.locals.conflicts, d.itemId = x

/-! ## Where the item stands -/

/-- The item's row, and its entries in the user's feed. -/
structure ServerItem (db : Db) : Prop where
  owned : ∀ row, db.vaultItems.get? x = some row →
    row.userId = u ∧ 0 < row.revision ∧ row.revision ≤ db.serverRevision u
  entries : ∀ r ∈ db.itemSyncChanges.itemRows u x, ∃ row, db.vaultItems.get? x = some row ∧
    match r.change with
    | .upsert item => item.revision ≤ row.revision
    | .delete _ n _ => n = row.revision ∧ row.deletedAt ≠ none

/-- Where the item can be, by what the sync state says of it and by the item of
the vault. -/
inductive Standing (db : Db) (about : Option Nat × Option String × Option PendingItemMutation)
    (item : Option VaultItem) : Prop
  /-- A mutation waits that the server has not seen. -/
  | waiting (p : PendingItemMutation) (op : Operation) (pending : about.2.2 = some p) (holds : p.Holds u op)
      (unseen : db.itemSyncMutations.get? (u, p.clientMutationId) = none) (live : NotDeleted db x)
      (base : op.baseItemRevision = db.itemRevision x) (known : about.1.getD 0 = db.itemRevision x)
      (delete : op.kind = .delete → item = none) (row : item = none → db.vaultItems.get? x ≠ none)
  /-- A mutation waits that the server has applied. -/
  | applied (p : PendingItemMutation) (op : Operation) (row : VaultItemRow) (pending : about.2.2 = some p)
      (holds : p.Holds u op) (stored : db.vaultItems.get? x = some row)
      (seen : db.itemSyncMutations.get? (u, p.clientMutationId) =
        some ⟨op.requestFingerprint, .applied op.kind x row.revision⟩)
      (kind : match op.kind with
        | .upsert => row.deletedAt = none ∧ ∃ it, item = some it ∧ p.itemUpdatedAt = it.updatedAt
        | .delete => row.deletedAt ≠ none ∧ item = none ∧
          (about.1.or (some op.baseItemRevision)).getD 0 = op.baseItemRevision)
  /-- The item is held as of the server's revision, changed or not. -/
  | held (it : VaultItem) (pending : about.2.2 = none) (is : item = some it) (live : NotDeleted db x)
      (known : about.1.getD 0 = db.itemRevision x)
  /-- An old feed entry has brought the item back. -/
  | revived (it : VaultItem) (row : VaultItemRow) (pending : about.2.2 = none) (is : item = some it)
      (stamped : about.2.1 = some it.updatedAt) (stored : db.vaultItems.get? x = some row)
      (deleted : row.deletedAt ≠ none)
  /-- The item is deleted here, and nothing is pending yet. -/
  | removed (row : VaultItemRow) (pending : about.2.2 = none) (is : item = none)
      (stored : db.vaultItems.get? x = some row) (live : row.deletedAt = none) (known : about.1 = some row.revision)
  | gone (pending : about.2.2 = none) (is : item = none) (unknown : about.1 = none)
      (deleted : ∀ row, db.vaultItems.get? x = some row → row.deletedAt ≠ none)

/-- What a client's sync state keeps of the item and of the server. -/
structure SyncOk (db : Db) (sync : SyncState) : Prop where
  pending : PendingOk u sync.pending
  quiet : x ∉ sync.conflicts
  behind : sync.serverRevision ≤ db.serverRevision u
  revisions : ∀ r, sync.revisions.get? x = some r → ∃ row, db.vaultItems.get? x = some row ∧ r ≤ row.revision

/-- An upsert is of the item in the vault, a deletion of one that is not there. -/
def PlannedFrom (vault : UnlockedVault κ) (p : PendingItemMutation) (op : Operation) : Prop :=
  match op.kind with
  | .upsert => ∃ it, vault.find? op.id = some it ∧ p.itemUpdatedAt = it.updatedAt
  | .delete => vault.find? op.id = none

/-- A plan on its way is what is pending. -/
def PlanOk (c : Client κ) (plan : ItemLevelSyncPlan) : Prop :=
  plan.baseRevision ≤ c.sync.serverRevision ∧
    ∀ op ∈ plan.operations, ∃ p, c.sync.pending.get? op.id = some p ∧ p.Holds u op ∧ PlannedFrom c.vault p op

structure RunOk (c : Client κ) (run : Run κ) : Prop where
  state : run.locals.state = c.sync
  vault : run.locals.active = c.vault
  details : ∀ d ∈ run.locals.conflictDetails, d.itemId ≠ x
  plan : ∀ l plan, run = .pushing l plan → PlanOk u c plan

structure World.Ok (w : World κ) : Prop where
  server : ServerItem u x w.server
  items : w.client.vault.itemIds.Nodup
  sync : SyncOk u x w.server w.client.sync
  standing : Standing u x w.server (w.client.sync.about x) (w.client.vault.find? x)
  run : ∀ run, w.client.run = some run → RunOk u x w.client run

end

/-! ## Requests of others -/

section
variable {κ : Type} {R : Runtime κ} {u : UserId} {x : ItemId} {db db' : Db} {w w' : World κ}
variable {about : Option Nat × Option String × Option PendingItemMutation} {item : Option VaultItem}

theorem untouched_itemRevision {named : List MutationId} (h : Untouched u x named db db') :
    db'.itemRevision x = db.itemRevision x := by
  unfold Db.itemRevision
  rw [h.row]

theorem ServerItem.untouched {named : List MutationId} (hs : ServerItem u x db) (h : Untouched u x named db db') :
    ServerItem u x db' where
  owned row hrow := by
    obtain ⟨hu, hpos, hle⟩ := hs.owned row (h.row ▸ hrow)
    exact ⟨hu, hpos, Nat.le_trans hle h.revision⟩
  entries r hr := by
    rw [h.row]
    exact hs.entries r (h.feed ▸ hr)

theorem SyncOk.untouched {named : List MutationId} {sync : SyncState} (hs : SyncOk u x db sync)
    (h : Untouched u x named db db') : SyncOk u x db' sync where
  pending := hs.pending
  quiet := hs.quiet
  behind := Nat.le_trans hs.behind h.revision
  revisions r hr := by
    rw [h.row]
    exact hs.revisions r hr

theorem Standing.untouched {named : List MutationId} (hs : Standing u x db about item) (h : Untouched u x named db db')
    (hm : ∀ p, about.2.2 = some p → p.clientMutationId ∉ named) : Standing u x db' about item := by
  have hlive : NotDeleted db x → NotDeleted db' x := fun hl row hrow => hl row (h.row ▸ hrow)
  cases hs with
  | waiting p op pending holds unseen live base known delete row =>
    rw [← untouched_itemRevision h] at base known
    exact .waiting p op pending holds (h.receipts _ (hm p pending) ▸ unseen) (hlive live) base known delete
      fun hi => h.row ▸ row hi
  | applied p op row pending holds stored seen kind =>
    exact .applied p op row pending holds (h.row ▸ stored) (h.receipts _ (hm p pending) ▸ seen) kind
  | held it pending is live known =>
    exact .held it pending is (hlive live) (untouched_itemRevision h ▸ known)
  | revived it row pending is stamped stored deleted =>
    exact .revived it row pending is stamped (h.row ▸ stored) deleted
  | removed row pending is stored live known =>
    exact .removed row pending is (h.row ▸ stored) live known
  | gone pending is unknown deleted =>
    exact .gone pending is unknown fun row hrow => deleted row (h.row ▸ hrow)

end

/-! ## Local changes -/

section
variable {κ : Type} {R : Runtime κ} {u : UserId} {x : ItemId} {db : Db} {vault : UnlockedVault κ}
variable {about : Option Nat × Option String × Option PendingItemMutation} {item : Option VaultItem}

theorem find?_addItem (input : ItemInput) (id : ItemId) (now : String) :
    (addItem vault input id now).find? x =
      if id = x then some { input with id := id, createdAt := now, updatedAt := now } else vault.find? x := by
  unfold addItem UnlockedVault.find?
  by_cases h : id = x
  · simp [h]
  · simp [h]

theorem find?_updateItem (id : ItemId) (updates : ItemInput → ItemInput) (now : String) :
    (updateItem vault id updates now).find? x =
      if id = x then (vault.find? x).map (·.update updates now) else vault.find? x := by
  unfold updateItem UnlockedVault.find?
  have hid : ∀ it : VaultItem, (if it.id = id then it.update updates now else it).id = it.id := by
    intro it
    split <;> rfl
  rw [List.find?_map]
  have hp : ((fun it : VaultItem => decide (it.id = x)) ∘
      fun it => if it.id = id then it.update updates now else it) = fun it => decide (it.id = x) := by
    funext it
    simp only [Function.comp, hid]
  rw [hp]
  by_cases h : id = x
  · subst h
    rw [if_pos rfl]
    cases hf : vault.items.find? (fun it => decide (it.id = id)) with
    | none => rfl
    | some it =>
      have he : it.id = id := by simpa using List.find?_some hf
      simp [he]
  · rw [if_neg h]
    cases hf : vault.items.find? (fun it => decide (it.id = x)) with
    | none => rfl
    | some it =>
      have he : it.id = x := by simpa using List.find?_some hf
      have hne : it.id ≠ id := fun he' => h (he'.symm.trans he)
      simp [hne]

theorem itemIds_updateItem (id : ItemId) (updates : ItemInput → ItemInput) (now : String) :
    (updateItem vault id updates now).itemIds = vault.itemIds := by
  unfold updateItem UnlockedVault.itemIds
  rw [List.map_map]
  apply List.map_congr_left
  intro it _
  simp only [Function.comp]
  split <;> rfl

theorem find?_deleteItem (id : ItemId) :
    (deleteItem vault id).find? x = if id = x then none else vault.find? x := by
  unfold deleteItem UnlockedVault.find?
  by_cases h : id = x
  · subst h
    rw [if_pos rfl, List.find?_eq_none]
    intro it hit
    simpa using (List.mem_filter.mp hit).2
  · rw [if_neg h, List.find?_filter]
    congr 1
    funext it
    by_cases hx : it.id = x
    · have hne : x ≠ id := fun he => h he.symm
      simp [hx, hne]
    · simp [hx]

theorem standing_add (it : VaultItem) (hrow : db.vaultItems.get? x = none) :
    Standing u x db (none, none, none) (some it) := by
  refine .held it rfl rfl (fun row hr => ?_) ?_
  · rw [hrow] at hr
    cases hr
  · unfold Db.itemRevision
    rw [hrow]
    rfl

theorem standing_update {it : VaultItem} (hs : Standing u x db about (some it)) (hlive : NotDeleted db x)
    (hunseen : ∀ p, about.2.2 = some p → db.itemSyncMutations.get? (u, p.clientMutationId) = none) (it' : VaultItem) :
    Standing u x db about (some it') := by
  cases hs with
  | waiting p op pending holds unseen live base known delete row =>
    exact .waiting p op pending holds unseen live base known (fun hk => by cases delete hk) nofun
  | applied p op row pending holds stored seen kind =>
    rw [hunseen p pending] at seen
    cases seen
  | held it₀ pending is live known => exact .held it' pending rfl live known
  | revived it₀ row pending is stamped stored deleted => exact absurd (hlive row stored) deleted
  | removed row pending is stored live known => cases is
  | gone pending is unknown deleted => cases is

theorem standing_delete (hserver : ServerItem u x db) {it : VaultItem} (hs : Standing u x db about (some it))
    (hrev : ∀ r, about.1 = some r → ∃ row, db.vaultItems.get? x = some row ∧ r ≤ row.revision)
    (hlive : NotDeleted db x)
    (hunseen : ∀ p, about.2.2 = some p → db.itemSyncMutations.get? (u, p.clientMutationId) = none)
    (hrow : about.2.2 ≠ none → db.vaultItems.get? x ≠ none) : Standing u x db about none := by
  cases hs with
  | waiting p op pending holds unseen live base known delete row =>
    exact .waiting p op pending holds unseen live base known (fun _ => rfl) fun _ => hrow (pending ▸ nofun)
  | applied p op row pending holds stored seen kind =>
    rw [hunseen p pending] at seen
    cases seen
  | held it₀ pending is live known =>
    cases hr : db.vaultItems.get? x with
    | none =>
      refine .gone pending rfl ?_ fun row h => ?_
      · cases h1 : about.1 with
        | none => rfl
        | some r =>
          obtain ⟨row, h, -⟩ := hrev r h1
          rw [hr] at h
          cases h
      · rw [hr] at h
        cases h
    | some row =>
      refine .removed row pending rfl hr (live row hr) ?_
      have hrevision : db.itemRevision x = row.revision := by
        unfold Db.itemRevision
        rw [hr]
        rfl
      rw [hrevision] at known
      cases h1 : about.1 with
      | none =>
        rw [h1] at known
        have hpos := (hserver.owned row hr).2.1
        rw [← known] at hpos
        exact absurd hpos (Nat.lt_irrefl 0)
      | some r =>
        rw [h1] at known
        exact congrArg some known
  | revived it₀ row pending is stamped stored deleted => exact absurd (hlive row stored) deleted
  | removed row pending is stored live known => cases is
  | gone pending is unknown deleted => cases is

end

/-! ## Planning -/

section
variable {κ : Type} {R : Runtime κ} {u : UserId} {x : ItemId} {db : Db} {vault : UnlockedVault κ}
variable {state : SyncState} {draws : Nat → Draw} {built : BuiltPlan}

theorem holds_unique {p : PendingItemMutation} {op op' : Operation} (h : p.Holds u op) (h' : p.Holds u op') : op = op' := by
  obtain ⟨-, -, -, hop⟩ := h
  obtain ⟨-, -, -, hop'⟩ := h'
  cases op with
  | upsert item =>
    cases op' with
    | upsert item' => rw [Option.some.inj (hop.1.symm.trans hop'.1)]
    | delete item' => exact absurd (hop.1.symm.trans hop'.1) nofun
  | delete item =>
    cases op' with
    | upsert item' => exact absurd (hop.1.symm.trans hop'.1) nofun
    | delete item' => rw [Option.some.inj (hop.2.symm.trans hop'.2)]

theorem built_ops (hb : buildItemLevelSyncPlan R draws vault u state = some built) (hn : vault.itemIds.Nodup)
    (hp : PendingOk u state.pending) {op : Operation} (hop : op ∈ built.plan.operations) :
    op.id ∉ state.conflicts ∧
      ∃ p, built.pendingMutations.get? op.id = some p ∧ p.Holds u op ∧ PlannedFrom vault p op := by
  obtain ⟨x, hx⟩ : ∃ x, op.id = x := ⟨_, rfl⟩
  rw [hx]
  rcases built_item hb hn hp x with h | ⟨it, i, expected, up, hmem, hid, -, hsend, hsent⟩ | ⟨i, -, habsent, hsent⟩
  · exact absurd hx (h.ops op hop)
  · have hit : it ∈ vault.items := by
      have hm := List.mem_map_of_mem (f := Prod.fst) hmem
      rwa [List.zipIdx_map_fst] at hm
    refine ⟨hsent.conflicts, _, hsent.pending, ?_⟩
    cases hsent.only op hop hx
    exact ⟨hsend.holds hp, it, (find?_eq_some hn).mpr ⟨hit, hid.trans hx.symm⟩, rfl⟩
  · refine ⟨hsent.conflicts, _, hsent.pending, ?_⟩
    cases hsent.only op hop hx
    exact ⟨deletionOf_holds hp _, find?_eq_none.mpr (by rw [hx]; exact habsent)⟩

theorem expectedBase_eq {it : VaultItem} {revision : Option Nat} {previous : Option PendingItemMutation} {n : Nat}
    (hrev : revision.getD 0 = n) (hp : ∀ p, previous = some p → p.baseItemRevision = some n) :
    expectedBaseRevision it revision previous = n := by
  unfold expectedBaseRevision
  cases previous with
  | none => exact hrev
  | some p =>
    dsimp only
    split
    · rw [hp p rfl]
      rfl
    · exact hrev

/-- An upsert is planned for an item that the server has as the client knows it. -/
theorem standing_upsert {it : VaultItem} {draw : Draw} {expected : Nat} {up : ItemLevelEncryptedUpsert}
    {about : Option Nat × Option String × Option PendingItemMutation}
    (hpx : ∀ p op, about.2.2 = some p → p.Holds u op → op.id = x) (hid : it.id = x)
    (hnew : db.itemSyncMutations.get? (u, draw.randomUUID) = none)
    (hchanged : ¬ (about.2.1 = some it.updatedAt ∧ about.2.2 = none))
    (hsend : Sends R vault u it draw about.1 about.2.2 expected up)
    (hholds : (PendingItemMutation.mk it.updatedAt up.clientMutationId (some expected) (some up) none).Holds u
      (.upsert up)) (hs : Standing u x db about (some it)) :
    Standing u x db (about.1, about.2.1, some ⟨it.updatedAt, up.clientMutationId, some expected, some up, none⟩)
      (some it) := by
  have hbase : up.baseItemRevision = expected := (Option.some.inj hholds.2.1).symm
  obtain ⟨hexp, hup⟩ := hsend
  -- what waits is sent under its old id or a fresh one; what was applied is sent again as it was
  cases hs with
  | waiting p op pending holds unseen live base known delete row =>
    have hexp : expected = db.itemRevision x := by
      rw [hexp]
      refine expectedBase_eq known fun p' hp' => ?_
      rw [pending] at hp'
      cases hp'
      rw [holds.2.1, base]
    refine .waiting _ (.upsert up) rfl hholds ?_ live (hbase.trans hexp) known nofun nofun
    rcases hup with hr | ⟨-, hf⟩
    · obtain ⟨p', hp', -, -, -, -, -, hm⟩ := replayedUpsert_eq.mp hr
      rw [pending] at hp'
      cases hp'
      dsimp only
      rw [hm]
      exact unseen
    · dsimp only
      rw [(freshUpsert_eq hf).2.2.2]
      exact hnew
  | applied p op row pending holds stored seen kind =>
    cases op with
    | delete d => exact absurd kind.2.1 nofun
    | upsert up₀ =>
      obtain ⟨hlive, it', hit', hsame⟩ := kind
      cases hit'
      have hupid : up₀.id = it.id := (hpx p _ pending holds).trans hid.symm
      have hexp' : expected = up₀.baseItemRevision := by
        rw [hexp, pending]
        unfold expectedBaseRevision
        dsimp only
        rw [if_pos ⟨hsame, by rw [holds.2.2.2.1]; rfl⟩, holds.2.1]
        rfl
      have hreplay : replayedUpsert u it expected about.2.2 = some up₀ :=
        replayedUpsert_eq.mpr ⟨p, pending, holds.2.2.2.1, hsame, hexp' ▸ holds.2.1, hupid, holds.2.2.1, holds.1.symm⟩
      have hsame' : up = up₀ := by
        rcases hup with hr | ⟨hr, -⟩
        · exact Option.some.inj (hr.symm.trans hreplay)
        · rw [hreplay] at hr
          cases hr
      subst hsame'
      refine .applied _ (.upsert up) row rfl hholds stored ?_ ⟨hlive, it, rfl, rfl⟩
      have hm : p.clientMutationId = up.clientMutationId := holds.1
      rw [hm] at seen
      exact seen
  | held it₀ pending is live known =>
    have hexp : expected = db.itemRevision x := by
      rw [hexp]
      refine expectedBase_eq known fun p' hp' => ?_
      rw [pending] at hp'
      cases hp'
    refine .waiting _ (.upsert up) rfl hholds ?_ live (hbase.trans hexp) known nofun nofun
    rcases hup with hr | ⟨-, hf⟩
    · obtain ⟨p', hp', -⟩ := replayedUpsert_eq.mp hr
      rw [pending] at hp'
      cases hp'
    · dsimp only
      rw [(freshUpsert_eq hf).2.2.2]
      exact hnew
  | revived it₀ row pending is stamped stored deleted =>
    cases is
    exact absurd ⟨stamped, pending⟩ hchanged
  | removed row pending is stored live known => cases is
  | gone pending is unknown deleted => cases is

theorem standing_deletion {draw : Draw} (hp : PendingOk u state.pending) (hk : x ∈ state.knownIds)
    (hnew : db.itemSyncMutations.get? (u, draw.randomUUID) = none) (hs : Standing u x db (state.about x) none) :
    Standing u x db (state.revisions.get? x, state.timestamps.get? x,
      some ⟨(deletionOf u state draw x).deletedAt, (deletionOf u state draw x).clientMutationId,
        some (((state.revisions.get? x).or ((state.pending.get? x).bind (·.baseItemRevision))).getD 0), none,
        some (deletionOf u state draw x)⟩) none := by
  obtain ⟨-, -, hbase, hm⟩ := deletionOf_cases draw hp x
  have hholds := @deletionOf_holds u state draw (deletionOf u state draw x).deletedAt hp x
  -- a deletion is planned for what the vault has not, and sent again where it was applied
  cases hs with
  | waiting p op pending holds unseen live base known delete row =>
    have pending : state.pending.get? x = some p := pending
    have known : (state.revisions.get? x).getD 0 = db.itemRevision x := known
    refine .waiting _ (.delete (deletionOf u state draw x)) rfl hholds ?_ live (hbase.trans ?_) known
      (fun _ => rfl) row
    · dsimp only
      rcases hm with ⟨p', hp', -, hm⟩ | hm
      · rw [pending] at hp'
        cases hp'
        rw [hm]
        exact unseen
      · rw [hm]
        exact hnew
    · rw [pending, Option.bind_some, holds.2.1, base]
      cases hr : state.revisions.get? x with
      | none => rfl
      | some r =>
        rw [hr] at known
        exact known
  | applied p op row pending holds stored seen kind =>
    have pending : state.pending.get? x = some p := pending
    cases op with
    | upsert up =>
      obtain ⟨-, it, hit, -⟩ := kind
      cases hit
    | delete d =>
      obtain ⟨hdead, -, hsame⟩ := kind
      have hsame : ((state.revisions.get? x).or (some d.baseItemRevision)).getD 0 = d.baseItemRevision := hsame
      have hpb : p.baseItemRevision = some d.baseItemRevision := holds.2.1
      have hd : deletionOf u state draw x = d :=
        deletionOf_pending pending holds.2.2.2.2 holds.2.2.1 (hpb ▸ hsame)
      rw [hd] at hholds ⊢
      refine .applied _ (.delete d) row rfl hholds stored ?_ ⟨hdead, rfl, hsame⟩
      have hm : p.clientMutationId = d.clientMutationId := holds.1
      rw [hm] at seen
      exact seen
  | held it₀ pending is live known => cases is
  | revived it₀ row pending is stamped stored deleted => cases is
  | removed row pending is stored live known =>
    have pending : state.pending.get? x = none := pending
    have known : state.revisions.get? x = some row.revision := known
    have hrevision : db.itemRevision x = row.revision := by
      unfold Db.itemRevision
      rw [stored]
      rfl
    have hlive : NotDeleted db x := by
      intro row' hrow'
      rw [stored] at hrow'
      cases hrow'
      exact live
    refine .waiting _ (.delete (deletionOf u state draw x)) rfl hholds ?_ hlive (hbase.trans ?_) ?_ (fun _ => rfl)
      fun _ => by rw [stored]; exact nofun
    · dsimp only
      rcases hm with ⟨p', hp', -⟩ | hm
      · rw [pending] at hp'
        cases hp'
      · rw [hm]
        exact hnew
    · rw [known, hrevision]
      rfl
    · dsimp only
      rw [known, hrevision]
      rfl
  | gone pending is unknown deleted =>
    have pending : state.pending.get? x = none := pending
    have unknown : state.revisions.get? x = none := unknown
    rcases mem_knownIds.mp hk with h | h
    · exact absurd unknown h
    · exact absurd pending h

/-- A plan leaves the item where it is, with what it made pending. -/
theorem standing_plan (hb : buildItemLevelSyncPlan R draws vault u state = some built) (hn : vault.itemIds.Nodup)
    (hp : PendingOk u state.pending) (hnew : ∀ i, db.itemSyncMutations.get? (u, (draws i).randomUUID) = none)
    (hs : Standing u x db (state.about x) (vault.find? x)) :
    Standing u x db (state.revisions.get? x, state.timestamps.get? x, built.pendingMutations.get? x)
      (vault.find? x) := by
  rcases built_item hb hn hp x with h | ⟨it, i, expected, up, hmem, hid, hchanged, hsend, hsent⟩ | ⟨i, hmem, habsent, hsent⟩
  · rw [h.pending]
    exact hs
  · have hit : it ∈ vault.items := by
      have hm := List.mem_map_of_mem (f := Prod.fst) hmem
      rwa [List.zipIdx_map_fst] at hm
    have hfind : vault.find? x = some it := (find?_eq_some hn).mpr ⟨hit, hid⟩
    rw [hsent.pending, hfind]
    rw [hfind] at hs
    refine standing_upsert (fun p op hpp hh => ?_) hid (hnew i) hchanged hsend
      (hsend.holds hp) hs
    obtain ⟨op', hh', hid'⟩ := hp.holds x p hpp
    rw [holds_unique hh hh']
    exact hid'
  · have hnone : vault.find? x = none := find?_eq_none.mpr habsent
    rw [hsent.pending, hnone]
    rw [hnone] at hs
    have hk : x ∈ state.knownIds := by
      have hm := List.mem_map_of_mem (f := Prod.fst) hmem
      rwa [List.zipIdx_map_fst] at hm
    exact standing_deletion hp hk (hnew i) hs

end

/-! ## A push at the server -/

section
variable {κ : Type} {F : Formats} {u : UserId} {x : ItemId} {env : Env} {plan : ItemLevelSyncPlan} {st : PushState}
variable {db db' : Db} {result : ItemLevelSyncPushResult} {c : Client κ} {op : Operation}

/-- The server has the operation's item as the operation leaves it, and tells so
in the one receipt it gives for it. -/
def Served (db' : Db) (result : ItemLevelSyncPushResult) (op : Operation) : Prop :=
  ∃ row, db'.vaultItems.get? op.id = some row ∧ (op.kind = .upsert ↔ row.deletedAt = none) ∧
    (∃ r ∈ result.applied.mutationReceipts, r.clientMutationId = op.clientMutationId) ∧
    ∀ r ∈ result.applied.mutationReceipts, r.clientMutationId = op.clientMutationId →
      r = ⟨op.clientMutationId, op.id, op.kind, row.revision⟩

theorem served_of_answer (h : PushRun env u plan st db db' result)
    (hmids : (plan.operations.map (·.clientMutationId)).Nodup) (hop : op ∈ plan.operations) {row : VaultItemRow}
    (hrow : db'.vaultItems.get? op.id = some row) (hkind : op.kind = .upsert ↔ row.deletedAt = none)
    (hans : answer (pushViewAt u plan db db db) result.serverRevision op =
      .receipt ⟨op.clientMutationId, op.id, op.kind, row.revision⟩) : Served db' result op := by
  refine ⟨row, hrow, hkind, ⟨_, h.receipt_iff.mpr ⟨op, hop, hans⟩, rfl⟩, fun r hr hm => ?_⟩
  obtain ⟨op', hop', hans'⟩ := h.receipt_iff.mp hr
  have hsame : op' = op := List.inj_on_of_nodup_map hmids hop' hop ((answer_mutation hans').symm.trans hm)
  rw [hsame, hans] at hans'
  cases hans'
  rfl

theorem push_absent (h : PushRun env u plan st db db' result) (hno : ∀ op ∈ plan.operations, op.id ≠ x) :
    Untouched u x plan.mutationIds db db' where
  row := h.row_other fun op hop _ => hno op hop
  feed := h.feed_other (fun op hop _ => hno op hop) u
  revision := by rw [h.revision.1]; exact h.revision.2
  receipts m hm := h.receipts_other hm u

theorem push_again (h : PushRun env u plan st db db' result) (hids : (plan.operations.map (·.id)).Nodup)
    (hop : op ∈ plan.operations) {previous : ItemSyncMutationRow}
    (hseen : db.itemSyncMutations.get? (u, op.clientMutationId) = some previous) :
    Untouched u op.id plan.mutationIds db db' ∧
      db'.itemSyncMutations.get? (u, op.clientMutationId) = some previous := by
  have hno : ∀ op' ∈ plan.operations, Applies (pushViewAt u plan db db db) op' → op'.id ≠ op.id := by
    intro op' hop' ha he
    have hsame : op' = op := List.inj_on_of_nodup_map hids hop' hop he
    have hnone := ha.1
    rw [hsame, pushView_receipt hop, hseen] at hnone
    cases hnone
  refine ⟨⟨h.row_other hno, h.feed_other hno u, ?_, fun m hm => h.receipts_other hm u⟩, batch_receipts h.batch _ _ hseen⟩
  rw [h.revision.1]
  exact h.revision.2

theorem push_row (h : PushRun env u plan st db db' result) (hids : (plan.operations.map (·.id)).Nodup)
    (hop : op ∈ plan.operations) (ha : Applies (pushViewAt u plan db db db) op) :
    ∃ row, db'.vaultItems.get? op.id = some row ∧ row.userId = u ∧ row.revision = db.serverRevision u + 1 ∧
      (op.kind = .upsert ↔ row.deletedAt = none) := by
  cases op with
  | upsert item =>
    refine ⟨_, h.row_upsert hids hop ha, rfl, rfl, ?_⟩
    exact ⟨fun _ => rfl, fun _ => rfl⟩
  | delete item =>
    obtain ⟨row, hrow, hrow'⟩ := h.row_delete hids hop ha
    have hown : row.userId = u := (applies_found ha).2.1 row ((pushView_row hop).trans hrow)
    refine ⟨_, hrow', hown, rfl, ?_⟩
    exact ⟨nofun, nofun⟩

/-- The server's side of the item after a mutation of it was applied. -/
theorem push_serverItem (h : PushRun env u plan st db db' result) (hids : (plan.operations.map (·.id)).Nodup)
    (hop : op ∈ plan.operations) (ha : Applies (pushViewAt u plan db db db) op) (hs : ServerItem u op.id db)
    (hlive : NotDeleted db op.id) (hrev : db'.serverRevision u = db.serverRevision u + 1) : ServerItem u op.id db' := by
  obtain ⟨row, hrow, hu, hr, hkind⟩ := push_row h hids hop ha
  constructor
  · intro row' hrow'
    rw [hrow] at hrow'
    cases hrow'
    rw [hrev, hr]
    exact ⟨hu, Nat.succ_pos _, Nat.le_refl _⟩
  · intro e he
    refine ⟨row, hrow, ?_⟩
    obtain ⟨cursor, -, -, hfeed⟩ := h.feed hids hop ha
    rw [hfeed] at he
    rcases List.mem_append.mp he with he | he
    · obtain ⟨old, hold, hentry⟩ := hs.entries e he
      have hle := (hs.owned old hold).2.2
      cases hc : e.change with
      | upsert item =>
        rw [hc] at hentry
        have hentry : item.revision ≤ old.revision := hentry
        show item.revision ≤ row.revision
        omega
      | delete id n deletedAt =>
        rw [hc] at hentry
        exact absurd (hlive old hold) hentry.2
    · rw [List.mem_singleton.mp he]
      cases op with
      | upsert item =>
        show (nextItem (pushViewAt u plan db db db) item).revision ≤ row.revision
        rw [hr]
        exact Nat.le_refl _
      | delete item =>
        refine ⟨hr.symm, fun hd => ?_⟩
        have hk := hkind.mpr hd
        cases hk

theorem push_new (h : PushRun env u plan st db db' result) (hids : (plan.operations.map (·.id)).Nodup)
    (hmids : (plan.operations.map (·.clientMutationId)).Nodup) (hop : op ∈ plan.operations)
    {p : PendingItemMutation} {about : Option Nat × Option String × Option PendingItemMutation}
    (hs : ServerItem u op.id db) (hrev : plan.baseRevision ≤ db.serverRevision u) (pending : about.2.2 = some p)
    (holds : p.Holds u op) (planned : PlannedFrom c.vault p op)
    (unseen : db.itemSyncMutations.get? (u, p.clientMutationId) = none) (live : NotDeleted db op.id)
    (base : op.baseItemRevision = db.itemRevision op.id) (known : about.1.getD 0 = db.itemRevision op.id)
    (row : c.vault.find? op.id = none → db.vaultItems.get? op.id ≠ none) :
    ServerItem u op.id db' ∧ Standing u op.id db' about (c.vault.find? op.id) ∧ Served db' result op ∧
      db.serverRevision u < db'.serverRevision u ∧ ∀ r, (∃ row, db.vaultItems.get? op.id = some row ∧ r ≤ row.revision) →
        ∃ row, db'.vaultItems.get? op.id = some row ∧ r ≤ row.revision := by
  have hm : p.clientMutationId = op.clientMutationId := holds.1
  have ha : Applies (pushViewAt u plan db db db) op := by
    refine applies_of ?_ hrev ?_ ?_ ?_
    · rw [pushView_receipt hop, ← hm]
      exact unseen
    · intro row' hrow'
      rw [pushView_row hop] at hrow'
      exact (hs.owned row' hrow').1
    · intro hk
      rw [pushView_row hop]
      unfold PlannedFrom at planned
      rw [hk] at planned
      exact row planned
    · rw [pushView_row hop]
      exact base
  obtain ⟨hrevision, hreceipt⟩ := h.applied hmids hop ha
  have hdb' : db'.serverRevision u = db.serverRevision u + 1 := h.revision.1.trans hrevision
  obtain ⟨row', hrow', hu, hr, hkind⟩ := push_row h hids hop ha
  have hresult : result.serverRevision = row'.revision := hrevision.trans hr.symm
  -- the receipt is on its way now, so the item stands as applied
  refine ⟨push_serverItem h hids hop ha hs live hdb', ?_, ?_, hdb' ▸ Nat.lt_succ_self _, ?_⟩
  · refine .applied p op row' pending holds hrow' (by rw [hm, hreceipt, hresult]) ?_
    unfold PlannedFrom at planned
    cases hk : op.kind with
    | upsert =>
      rw [hk] at planned
      exact ⟨hkind.mp hk, planned⟩
    | delete =>
      rw [hk] at planned
      refine ⟨fun hd => ?_, planned, ?_⟩
      · have hk' := hkind.mpr hd
        rw [hk] at hk'
        cases hk'
      · rw [base]
        cases h1 : about.1 with
        | none => rfl
        | some r =>
          rw [h1] at known
          exact known
  · refine served_of_answer h hmids hop hrow' hkind ?_
    rw [answer_applies ha, hresult]
  · rintro r ⟨old, hold, hle⟩
    have := (hs.owned old hold).2.2
    exact ⟨row', hrow', by omega⟩

/-- A push keeps where the item stands, and serves what it sends of it. -/
theorem push_standing (h : PushRun env u plan st db db' result) (hids : (plan.operations.map (·.id)).Nodup)
    (hmids : (plan.operations.map (·.clientMutationId)).Nodup) (hplan : PlanOk u c plan) (hs : ServerItem u x db)
    (hsync : SyncOk u x db c.sync) (hstand : Standing u x db (c.sync.about x) (c.vault.find? x)) :
    ServerItem u x db' ∧ SyncOk u x db' c.sync ∧ Standing u x db' (c.sync.about x) (c.vault.find? x) ∧
      ∀ op ∈ plan.operations, op.id = x → Served db' result op := by
  -- a plan without the item changes nothing about it
  by_cases hex : ∃ op ∈ plan.operations, op.id = x
  · obtain ⟨op, hop, rfl⟩ := hex
    obtain ⟨p, hp, holds, planned⟩ := hplan.2 op hop
    have hone : ∀ op' ∈ plan.operations, op'.id = op.id → op' = op := fun op' hop' he =>
      List.inj_on_of_nodup_map hids hop' hop he
    have hpend : (c.sync.about op.id).2.2 = some p := hp
    cases hstand with
    | waiting p' op' pending holds' unseen live base known delete row =>
      rw [hpend] at pending
      cases pending
      cases holds_unique holds holds'
      obtain ⟨h1, h2, h3, h4, h5⟩ := push_new h hids hmids hop hs (Nat.le_trans hplan.1 hsync.behind) hpend holds
        planned unseen live base known row
      exact ⟨h1, ⟨hsync.pending, hsync.quiet, Nat.le_of_lt (Nat.lt_of_le_of_lt hsync.behind h4),
        fun r hr => h5 r (hsync.revisions r hr)⟩, h2, fun op' hop' he => hone op' hop' he ▸ h3⟩
    | applied p' op' row pending holds' stored seen kind =>
      rw [hpend] at pending
      cases pending
      cases holds_unique holds holds'
      have hm : p.clientMutationId = op.clientMutationId := holds.1
      rw [hm] at seen
      obtain ⟨hun, hseen⟩ := push_again h hids hop seen
      have hrow : db'.vaultItems.get? op.id = some row := hun.row.trans stored
      refine ⟨hs.untouched hun, hsync.untouched hun, .applied p op row hpend holds hrow (by rw [hm]; exact hseen) kind,
        fun op' hop' he => ?_⟩
      rw [hone op' hop' he]
      refine served_of_answer h hmids hop hrow ?_ (answer_seen (by rw [pushView_receipt hop]; exact seen))
      cases hk : op.kind with
      | upsert =>
        rw [hk] at kind
        exact ⟨fun _ => kind.1, fun _ => rfl⟩
      | delete =>
        rw [hk] at kind
        exact ⟨nofun, fun hd => absurd hd kind.1⟩
    | held it pending is live known => exact absurd (hpend.symm.trans pending) nofun
    | revived it row pending is stamped stored deleted => exact absurd (hpend.symm.trans pending) nofun
    | removed row pending is stored live known => exact absurd (hpend.symm.trans pending) nofun
    | gone pending is unknown deleted => exact absurd (hpend.symm.trans pending) nofun
  · have hno : ∀ op ∈ plan.operations, op.id ≠ x := fun op hop he => hex ⟨op, hop, he⟩
    have hun := push_absent h hno
    refine ⟨hs.untouched hun, hsync.untouched hun, hstand.untouched hun fun p hp hm => ?_, fun op hop he => absurd he (hno op hop)⟩
    rw [← operations_mutationIds] at hm
    obtain ⟨op, hop, he⟩ := List.mem_map.mp hm
    obtain ⟨p', hp', holds, -⟩ := hplan.2 op hop
    exact hno op hop (hsync.pending.distinct _ _ p' p hp' hp (holds.1.trans he))

end

/-! ## An answer at the client -/

section
variable {κ : Type} {R : Runtime κ} {u : UserId} {x : ItemId} {plan : ItemLevelSyncPlan} {db : Db}
variable {result : ItemLevelSyncPushResult} {c : Client κ} {l l' : Locals κ}

theorem PendingOk.mono {pending pending' : Table ItemId PendingItemMutation} (h : PendingOk u pending)
    (hsub : ∀ id p, pending'.get? id = some p → pending.get? id = some p) : PendingOk u pending' where
  holds id p hp := h.holds id p (hsub id p hp)
  distinct id id' p p' hp hp' := h.distinct id id' p p' (hsub id p hp) (hsub id' p' hp')

theorem receipted_pending {state : SyncState} {r : AppliedMutationReceipt}
    {about : Option Nat × Option String × Option PendingItemMutation} (h : receipted state r = some about) :
    about.2.2 = none := by
  unfold receipted at h
  cases hk : r.operation with
  | delete =>
    rw [hk] at h
    cases h
    rfl
  | upsert =>
    rw [hk] at h
    obtain ⟨p, -, rfl⟩ := Option.map_eq_some_iff.mp h
    rfl

theorem receivePush_pending (h : receivePush l plan result = .ok l') (hids : (plan.operations.map (·.id)).Nodup)
    (hmids : (plan.operations.map (·.clientMutationId)).Nodup) {id : ItemId} {p : PendingItemMutation}
    (hp : l'.state.pending.get? id = some p) : l.state.pending.get? id = some p := by
  rcases receivePush_item h hids hmids id with ⟨op, r, -, -, -, hr, -⟩ | ⟨-, habout, -⟩
  · have hnone : l'.state.pending.get? id = none := receipted_pending hr
    rw [hnone] at hp
    cases hp
  · have hsame : l'.state.pending.get? id = l.state.pending.get? id := congrArg (fun a => a.2.2) habout
    exact hsame.symm.trans hp

variable (u) in
/-- The receipt of a mutation of the item leaves it held or gone. -/
theorem standing_receipt (state : SyncState) {op : Operation} {r : AppliedMutationReceipt} {p : PendingItemMutation}
    {about : Option Nat × Option String × Option PendingItemMutation} (hserved : Served db result op)
    (hr : r ∈ result.applied.mutationReceipts) (hm : op.clientMutationId = r.clientMutationId)
    (hp : state.pending.get? op.id = some p) (hplanned : PlannedFrom c.vault p op)
    (habout : receipted state r = some about) :
    Standing u op.id db about (c.vault.find? op.id) ∧
      ∀ n, about.1 = some n → ∃ row, db.vaultItems.get? op.id = some row ∧ n ≤ row.revision := by
  obtain ⟨row, hrow, hkind, -, hone⟩ := hserved
  have hr := hone r hr hm.symm
  rw [hr] at habout
  unfold receipted at habout
  unfold PlannedFrom at hplanned
  have hrevision : db.itemRevision op.id = row.revision := by
    unfold Db.itemRevision
    rw [hrow]
    rfl
  cases hk : op.kind with
  | upsert =>
    rw [hk] at habout hplanned hkind
    dsimp only at habout
    rw [hp] at habout
    cases habout
    obtain ⟨it, hit, -⟩ := hplanned
    have hlive : row.deletedAt = none := hkind.mp rfl
    refine ⟨.held it rfl hit (fun row' hrow' => ?_) hrevision.symm, fun n hn => ⟨row, hrow, ?_⟩⟩
    · rw [hrow] at hrow'
      cases hrow'
      exact hlive
    · cases hn
      exact Nat.le_refl _
  | delete =>
    rw [hk] at habout hplanned hkind
    cases habout
    refine ⟨.gone rfl hplanned rfl fun row' hrow' hd => ?_, nofun⟩
    rw [hrow] at hrow'
    cases hrow'
    cases hkind.mpr hd

theorem receivePush_standing (h : receivePush l plan result = .ok l') (hids : (plan.operations.map (·.id)).Nodup)
    (hmids : (plan.operations.map (·.clientMutationId)).Nodup) (hplan : PlanOk u c plan) (hstate : l.state = c.sync)
    (hserved : ∀ op ∈ plan.operations, op.id = x → Served db result op)
    (hrev : db.serverRevision u = result.serverRevision) (hsync : SyncOk u x db c.sync)
    (hstand : Standing u x db (c.sync.about x) (c.vault.find? x)) (hdetails : ∀ d ∈ l.conflictDetails, d.itemId ≠ x) :
    SyncOk u x db l'.state ∧ Standing u x db (l'.state.about x) (c.vault.find? x) ∧
      ∀ d ∈ l'.conflictDetails, d.itemId ≠ x := by
  have hpending : PendingOk u l'.state.pending :=
    hsync.pending.mono fun id p hp => hstate ▸ receivePush_pending h hids hmids hp
  have hbehind : l'.state.serverRevision ≤ db.serverRevision u := by
    obtain ⟨-, seen, conflicting, state, -, -, -, rfl⟩ := receivePush_ok h
    exact Nat.le_of_eq hrev.symm
  rcases receivePush_item h hids hmids x with ⟨op, r, hr, hchecked, hid, habout, hconf, hdet⟩ | ⟨hno, habout, hquiet⟩
  · obtain ⟨p, hp, -, hplanned⟩ := hplan.2 op hchecked.mem
    subst hid
    obtain ⟨hs, hle⟩ := standing_receipt u l.state (hserved op hchecked.mem rfl) hr hchecked.mutation
      (by rw [hstate]; exact hp) hplanned habout
    refine ⟨⟨hpending, fun hx => ?_, hbehind, hle⟩, hs, fun d hd hdx => hdetails d (hdet d hd hdx) hdx⟩
    have hx := hconf hx
    rw [hstate] at hx
    exact hsync.quiet hx
  · have hnone : ∀ op ∈ plan.operations, op.id ≠ x := by
      intro op hop hid
      obtain ⟨row, -, -, ⟨r, hr, hm⟩, -⟩ := hserved op hop hid
      exact hno op hop hid r hr hm
    obtain ⟨hconf, hdet⟩ := hquiet hnone
    rw [hstate] at habout
    refine ⟨⟨hpending, fun hx => ?_, hbehind, fun n hn => ?_⟩, by rw [habout]; exact hstand,
      fun d hd hdx => hdetails d (hdet d hd hdx) hdx⟩
    · have hx := hconf hx
      rw [hstate] at hx
      exact hsync.quiet hx
    · have hsame : l'.state.revisions.get? x = c.sync.revisions.get? x := congrArg Prod.fst habout
      exact hsync.revisions n (hsame.symm.trans hn)

end

/-! ## A page at the client -/

section
variable {κ : Type} {R : Runtime κ} {u : UserId} {x : ItemId} {db : Db} {active : UnlockedVault κ}
variable {st st' : PullState} {change : ItemLevelChange} {c : Client κ} {l l' : Locals κ}

theorem Takes.pending (h : Takes R active u x st st' change) (hid : ¬ PassesOver st change → change.itemId = x →
    st.state.pending.get? x = none) : st'.state.pending.get? x = st.state.pending.get? x := by
  cases h with
  | other about item why => exact congrArg (fun a => a.2.2) about
  | delete taken n deletedAt is about item =>
    have hnone : st'.state.pending.get? x = none := congrArg (fun a => a.2.2) about
    rw [hnone, hid taken (by rw [is]; rfl)]
  | upsert taken row plain is id owner decrypts about item =>
    have hnone : st'.state.pending.get? x = none := congrArg (fun a => a.2.2) about
    rw [hnone, hid taken (by rw [is]; exact id)]

theorem notOver_pending (h : ¬ PassesOver st change) (hid : change.itemId = x) : st.state.pending.get? x = none := by
  subst hid
  exact blocked_pending fun hb => h (.inl hb)

/-- An entry of the item's feed that is not older than what the client has. -/
theorem standing_entry (hs : ServerItem u x db) {r : ItemSyncChangeRow} (hr : r ∈ db.itemSyncChanges.itemRows u x)
    (hstand : Standing u x db (st.state.about x) (st.items.get? x))
    (hle : ∀ n, st.state.revisions.get? x = some n → ∃ row, db.vaultItems.get? x = some row ∧ n ≤ row.revision)
    (ht : Takes R active u x st st' r.change) :
    Standing u x db (st'.state.about x) (st'.items.get? x) ∧
      ∀ n, st'.state.revisions.get? x = some n → ∃ row, db.vaultItems.get? x = some row ∧ n ≤ row.revision := by
  obtain ⟨row, hrow, hentry⟩ := hs.entries r hr
  have hrevision : db.itemRevision x = row.revision := by
    unfold Db.itemRevision
    rw [hrow]
    rfl
  -- an entry is passed over, deletes the item, or brings a version of it
  cases ht with
  | other about item why =>
    rw [about, item]
    have hsame : st'.state.revisions.get? x = st.state.revisions.get? x := congrArg Prod.fst about
    exact ⟨hstand, fun n hn => hle n (hsame.symm.trans hn)⟩
  | delete taken n deletedAt is about item =>
    rw [is] at hentry
    rw [about, item]
    have hnone : st'.state.revisions.get? x = none := congrArg Prod.fst about
    refine ⟨.gone rfl rfl rfl fun row' hrow' => ?_, fun m hm => ?_⟩
    · rw [hrow] at hrow'
      cases hrow'
      exact hentry.2
    · rw [hnone] at hm
      cases hm
  | upsert taken item plain is id owner decrypts about hitem =>
    rw [is] at hentry taken
    have hentry : item.revision ≤ row.revision := hentry
    have hpending : (st.state.about x).2.2 = none := notOver_pending taken id
    have hnewer : ∀ n, st.state.revisions.get? x = some n → n ≤ item.revision := by
      intro n hn
      by_contra hlt
      refine taken (.inr ⟨n, ?_, Nat.not_le.mp hlt⟩)
      have hid : (ItemLevelChange.upsert item).itemId = x := id
      rw [hid]
      exact hn
    rw [about, hitem]
    have hsome : st'.state.revisions.get? x = some item.revision := congrArg Prod.fst about
    refine ⟨?_, fun n hn => ⟨row, hrow, ?_⟩⟩
    · by_cases hlive : row.deletedAt = none
      · have hsame : some row.revision = st.state.revisions.get? x := by
          cases hstand with
          | waiting p op pending => exact absurd (pending.symm.trans hpending) nofun
          | applied p op row' pending => exact absurd (pending.symm.trans hpending) nofun
          | held it pending is' live known =>
            have known : (st.state.revisions.get? x).getD 0 = db.itemRevision x := known
            rw [hrevision] at known
            cases h1 : st.state.revisions.get? x with
            | none =>
              rw [h1] at known
              have hpos := (hs.owned row hrow).2.1
              rw [← known] at hpos
              exact absurd hpos (Nat.lt_irrefl 0)
            | some n =>
              rw [h1] at known
              exact congrArg some known.symm
          | revived it row' pending is' stamped stored deleted =>
            rw [hrow] at stored
            cases stored
            exact absurd hlive deleted
          | removed row' pending is' stored live known =>
            rw [hrow] at stored
            cases stored
            exact known.symm
          | gone pending is' unknown deleted => exact absurd hlive (deleted row hrow)
        have hge := hnewer row.revision hsame.symm
        refine .held plain rfl rfl (fun row' hrow' => ?_) ?_
        · rw [hrow] at hrow'
          cases hrow'
          exact hlive
        · rw [hrevision]
          exact Nat.le_antisymm hentry hge
      · exact .revived plain row rfl rfl rfl hrow hlive
    · rw [hsome] at hn
      cases hn
      exact hentry

theorem pull_entry {F : Formats} {n cursor limit : Nat} {change : ItemLevelSyncChange}
    (h : change ∈ (pullResponse F n cursor limit (db.itemSyncChanges.page u cursor (limit + 1))).changes)
    (hid : change.change.itemId = x) : ∃ r ∈ db.itemSyncChanges.itemRows u x, r.change = change.change := by
  have hm := (List.mem_filter.mp h).1
  obtain ⟨r, hr, rfl⟩ := List.mem_map.mp hm
  have hr := List.mem_of_mem_take (List.mem_of_mem_take hr)
  obtain ⟨hrows, hmine⟩ := List.mem_filter.mp hr
  refine ⟨r, List.mem_filter.mpr ⟨hrows, ?_⟩, rfl⟩
  simp only [Bool.and_eq_true, decide_eq_true_eq] at hmine ⊢
  exact ⟨hmine.1, hid⟩

structure PageOk (u : UserId) (x : ItemId) (db : Db) (state : SyncState) (st : PullState) : Prop where
  frame : st.state.frame = state.frame
  items : ByItemId st.items
  pending : ∀ id, st.state.pending.get? id = state.pending.get? id
  standing : Standing u x db (st.state.about x) (st.items.get? x)
  revisions : ∀ n, st.state.revisions.get? x = some n → ∃ row, db.vaultItems.get? x = some row ∧ n ≤ row.revision

theorem PageOk.step {state : SyncState} {sc : ItemLevelSyncChange} (h : PageOk u x db state st) (hs : ServerItem u x db)
    (hfeed : sc.change.itemId = x → ∃ r ∈ db.itemSyncChanges.itemRows u x, r.change = sc.change)
    (happ : applyChange R active u st sc = .ok st') : PageOk u x db state st' := by
  obtain ⟨hframe, hitems, htakes⟩ := applyChange_takes happ x
  have hpending : ∀ id, st'.state.pending.get? id = st.state.pending.get? id := fun id =>
    (applyChange_takes happ id).2.2.pending notOver_pending
  have hx : Standing u x db (st'.state.about x) (st'.items.get? x) ∧
      ∀ n, st'.state.revisions.get? x = some n → ∃ row, db.vaultItems.get? x = some row ∧ n ≤ row.revision := by
    by_cases hid : sc.change.itemId = x
    · obtain ⟨r, hr, hsame⟩ := hfeed hid
      rw [← hsame] at htakes
      exact standing_entry hs hr h.standing h.revisions htakes
    · cases htakes with
      | other about item why =>
        have hsame : st'.state.revisions.get? x = st.state.revisions.get? x := congrArg Prod.fst about
        exact ⟨by rw [about, item]; exact h.standing, fun n hn => h.revisions n (hsame.symm.trans hn)⟩
      | delete taken n deletedAt is => exact absurd (by rw [is]; rfl) hid
      | upsert taken row plain is id => exact absurd (by rw [is]; exact id) hid
  exact ⟨hframe.trans h.frame, hitems h.items, fun id => (hpending id).trans (h.pending id), hx.1, hx.2⟩

theorem receivePull_standing {F : Formats} {n limit : Nat} {remote : ItemLevelSyncPullResponse}
    (hremote : remote = pullResponse F n l.state.cursor limit (db.itemSyncChanges.page u l.state.cursor (limit + 1)))
    (hn : n = db.serverRevision u) (h : receivePull R u l remote = .ok l') (hs : ServerItem u x db)
    (hnodup : l.active.itemIds.Nodup) (hsync : SyncOk u x db l.state)
    (hstand : Standing u x db (l.state.about x) (l.active.find? x)) :
    l'.active.itemIds.Nodup ∧ SyncOk u x db l'.state ∧ Standing u x db (l'.state.about x) (l'.active.find? x) ∧
      l'.conflictDetails = l.conflictDetails := by
  obtain ⟨st, hst, -, -, rfl⟩ := receivePull_ok h
  have h0 : PageOk u x db l.state ⟨l.state, itemMap l.active.items⟩ := by
    refine ⟨rfl, itemMap_byItemId _, fun _ => rfl, ?_, hsync.revisions⟩
    rw [itemMap_get? hnodup]
    exact hstand
  have hpage : PageOk u x db l.state st := by
    refine applyChanges_keeps (fun sc hsc st₁ st₂ happ hok => hok.step hs (fun hid => ?_) happ) hst h0
    rw [hremote] at hsc
    exact pull_entry hsc hid
  refine ⟨?_, ⟨?_, ?_, ?_, hpage.revisions⟩, ?_, rfl⟩
  · unfold UnlockedVault.itemIds
    rw [values_ids hpage.items]
    exact st.items.nodup
  · exact hsync.pending.mono fun id p hp => (hpage.pending id).symm.trans hp
  · have hsame : st.state.conflicts = l.state.conflicts := congrArg (fun a => a.2.2) hpage.frame
    exact fun hx => hsync.quiet (hsame ▸ hx)
  · rw [hremote, ← hn]
    exact Nat.le_refl _
  · have hfind : ({ l.active with items := st.items.rows.map Prod.snd } : UnlockedVault κ).find? x = st.items.get? x :=
      values_find? hpage.items l.active.key
    rw [hfind]
    exact hpage.standing

end

/-! ## Runs -/

section
variable {κ : Type} {R : Runtime κ} {u : UserId} {x : ItemId} {db : Db} {c c' : Client κ} {l : Locals κ} {w w' : World κ}

theorem RunOk.planned {l : Locals κ} {built : BuiltPlan} {draws : Nat → Draw} (h : RunOk u x c (.planning l))
    (hb : buildItemLevelSyncPlan R draws l.active u l.state = some built) (hn : c.vault.itemIds.Nodup)
    (hp : PendingOk u c.sync.pending) : ∀ run, (c.planned l built).run = some run → RunOk u x (c.planned l built) run := by
  have hstate : l.state = c.sync := h.state
  have hvault : l.active = c.vault := h.vault
  rw [hvault, hstate] at hb
  have hplan : PlanOk u (c.planned l built) built.plan := by
    obtain ⟨st, st', -, -, hbuilt⟩ := built_loops hb
    refine ⟨?_, fun op hop => (built_ops hb hn hp hop).2⟩
    have hbase : built.plan.baseRevision = c.sync.serverRevision := by rw [hbuilt]
    have hsync : (c.planned l built).sync.serverRevision = c.sync.serverRevision := by
      rw [← hstate]
      rfl
    exact Nat.le_of_eq (hbase.trans hsync.symm)
  intro run hrun
  have hrun : run = if built.plan.operations.isEmpty then
      .pulling { l with state := { l.state with pending := built.pendingMutations } } 0
      else .pushing { l with state := { l.state with pending := built.pendingMutations } } built.plan :=
    (Option.some.inj hrun).symm
  by_cases he : built.plan.operations.isEmpty = true
  · rw [if_pos he] at hrun
    subst hrun
    exact ⟨rfl, hvault, h.details, nofun⟩
  · rw [if_neg he] at hrun
    subst hrun
    refine ⟨rfl, hvault, h.details, fun l' plan hrun => ?_⟩
    cases hrun
    exact hplan

theorem World.Ok.stop (h : World.Ok u x (⟨db, c⟩ : World κ)) : World.Ok u x (⟨db, c.stop⟩ : World κ) :=
  ⟨h.server, h.items, h.sync, h.standing, nofun⟩

theorem World.Ok.plan {draws : Nat → Draw} {built : BuiltPlan} (h : World.Ok u x (⟨db, c⟩ : World κ))
    (hrun : c.run = some (.planning l)) (hb : buildItemLevelSyncPlan R draws l.active u l.state = some built)
    (hi : ∀ i j, (draws i).randomUUID = (draws j).randomUUID → i = j)
    (hnew : ∀ i id p, c.sync.pending.get? id = some p → p.clientMutationId ≠ (draws i).randomUUID)
    (hunseen : ∀ i, db.itemSyncMutations.get? (u, (draws i).randomUUID) = none) :
    World.Ok u x (⟨db, c.planned l built⟩ : World κ) := by
  have hok := h.run _ hrun
  have hplanned := hok.planned hb h.items h.sync.pending
  have hstate : l.state = c.sync := hok.state
  have hvault : l.active = c.vault := hok.vault
  rw [hvault, hstate] at hb
  have hstand := standing_plan hb h.items h.sync.pending hunseen h.standing
  have hsync : (c.planned l built).sync = { c.sync with pending := built.pendingMutations } := by
    rw [← hstate]
    rfl
  refine ⟨h.server, h.items, ?_, ?_, hplanned⟩
  · show SyncOk u x db (c.planned l built).sync
    rw [hsync]
    exact ⟨built_pending hb h.items h.sync.pending hi hnew, h.sync.quiet, h.sync.behind, h.sync.revisions⟩
  · show Standing u x db ((c.planned l built).sync.about x) (c.vault.find? x)
    rw [hsync]
    exact hstand

/-- A push is answered, and the client takes the answer or does not get one. -/
theorem World.Ok.push {plan : ItemLevelSyncPlan} (env : Nat → Env) (delivered : Bool)
    (h : World.Ok u x (⟨db, c⟩ : World κ)) (hrun : c.run = some (.pushing l plan))
    (hschema : itemLevelSyncPlanSchema R.formats plan = true) :
    World.Ok u x (⟨((pushItemLevelSync env u plan).run db).1, c.pushed l plan
      (if delivered then ((pushItemLevelSync env u plan).run db).2.toOption else none)⟩ : World κ) := by
  obtain ⟨hids, hmids⟩ := schema_nodup hschema
  have hok := h.run _ hrun
  rcases pushItemLevelSync_run env u plan db with ⟨e, he⟩ | ⟨n, st, db', result, hpush, he⟩
  · rw [he]
    have hnone : (if delivered then (Except.error e : Except SyncError ItemLevelSyncPushResult).toOption else none) = none := by
      cases delivered <;> rfl
    rw [hnone]
    exact h.stop
  · rw [he]
    obtain ⟨hserver, hsync, hstand, hserved⟩ :=
      push_standing hpush hids hmids (hok.plan l plan rfl) h.server h.sync h.standing
    have hlost : World.Ok u x (⟨db', c.stop⟩ : World κ) := ⟨hserver, h.items, hsync, hstand, nofun⟩
    cases delivered with
    | false => exact hlost
    | true =>
      show World.Ok u x (⟨db', c.pushed l plan (some result)⟩ : World κ)
      unfold Client.pushed
      dsimp only
      cases hr : receivePush l plan result with
      | error e => exact hlost
      | ok l' =>
        obtain ⟨hsync', hstand', hdetails⟩ := receivePush_standing hr hids hmids (hok.plan l plan rfl) hok.state
          hserved hpush.revision.1 hsync hstand hok.details
        refine ⟨hserver, h.items, hsync', hstand', fun run hrun => ?_⟩
        cases hrun
        refine ⟨rfl, ?_, hdetails, nofun⟩
        obtain ⟨-, seen, conflicting, state, -, -, -, rfl⟩ := receivePush_ok hr
        exact hok.vault

theorem World.Ok.pull {page : Nat} {remote : ItemLevelSyncPullResponse} (h : World.Ok u x (⟨db, c⟩ : World κ))
    (hrun : c.run = some (.pulling l page))
    (hremote : ((pullItemLevelSync R.formats u l.state.cursor DEFAULT_PULL_LIMIT).run db).2 = .ok remote) :
    World.Ok u x (⟨db, c.pulled R u l page remote⟩ : World κ) := by
  have hok := h.run _ hrun
  have hstate : l.state = c.sync := hok.state
  have hvault : l.active = c.vault := hok.vault
  unfold Client.pulled
  cases hr : receivePull R u l remote with
  | error e => exact h.stop
  | ok l' =>
    obtain ⟨hn, hsync, hstand, hdet⟩ := receivePull_standing (pull_run hremote) rfl hr h.server
      (by rw [hvault]; exact h.items) (by rw [hstate]; exact h.sync) (by rw [hstate, hvault]; exact h.standing)
    have hdetails : ∀ d ∈ l'.conflictDetails, d.itemId ≠ x := by
      rw [hdet]
      exact hok.details
    have hcommit : ∀ next : Run κ, next.locals = l' → (∀ l'' plan, next ≠ .pushing l'' plan) →
        World.Ok u x (⟨db, ({ c with vault := l'.active } : Client κ).commit l' next⟩ : World κ) := by
      intro next hnext hno
      refine ⟨h.server, hn, hsync, hstand, fun run hrun => ?_⟩
      cases hrun
      exact ⟨by rw [hnext]; rfl, by rw [hnext]; rfl, by rw [hnext]; exact hdetails, fun l'' plan he => absurd he (hno l'' plan)⟩
    dsimp only
    split
    · exact hcommit (.returned l') rfl nofun
    split
    · exact (hcommit (.returned l') rfl nofun).stop
    · exact hcommit (.pulling l' (page + 1)) rfl nofun

end

section
variable {κ : Type} {R : Runtime κ} {u : UserId} {x : ItemId} {w w' : World κ}

theorem World.Ok.change {vault : UnlockedVault κ} (h : w.Ok u x) (hn : vault.itemIds.Nodup)
    (hstand : Standing u x w.server (w.client.sync.about x) (vault.find? x)) (hrun : w.client.run = none) :
    World.Ok u x (⟨w.server, { w.client with vault := vault }⟩ : World κ) := by
  refine ⟨h.server, hn, h.sync, hstand, fun run hr => ?_⟩
  rw [hrun] at hr
  cases hr

theorem World.Ok.add {item : ItemInput} {id : ItemId} {now : String} (h : w.Ok u x) (hrun : w.client.run = none)
    (hallows : w.Allows u x (.client (.add item id now))) :
    World.Ok u x (⟨w.server, { w.client with vault := addItem w.client.vault item id now }⟩ : World κ) := by
  obtain ⟨hid, habout, hrow⟩ := hallows
  refine h.change (List.nodup_cons.mpr ⟨hid, h.items⟩) ?_ hrun
  rw [find?_addItem]
  by_cases hx : id = x
  · rw [if_pos hx]
    subst hx
    rw [habout]
    exact standing_add _ hrow
  · rw [if_neg hx]
    exact h.standing

theorem World.Ok.update {id : ItemId} {updates : ItemInput → ItemInput} {now : String} (h : w.Ok u x)
    (hrun : w.client.run = none) (hcareful : w.Careful u x (.client (.update id updates now))) :
    World.Ok u x (⟨w.server, { w.client with vault := updateItem w.client.vault id updates now }⟩ : World κ) := by
  refine h.change (by rw [itemIds_updateItem]; exact h.items) ?_ hrun
  rw [find?_updateItem]
  by_cases hx : id = x
  · rw [if_pos hx]
    have hstand := h.standing
    cases hf : w.client.vault.find? x with
    | none =>
      rw [hf] at hstand
      exact hstand
    | some it =>
      rw [hf] at hstand
      have hmem : x ∈ w.client.vault.itemIds := by
        by_contra hno
        rw [find?_eq_none.mpr hno] at hf
        cases hf
      obtain ⟨hlive, hunseen⟩ := hcareful hx hmem
      exact standing_update hstand hlive hunseen _
  · rw [if_neg hx]
    exact h.standing

theorem World.Ok.delete {id : ItemId} (h : w.Ok u x) (hrun : w.client.run = none)
    (hcareful : w.Careful u x (.client (.delete id))) :
    World.Ok u x (⟨w.server, { w.client with vault := deleteItem w.client.vault id }⟩ : World κ) := by
  refine h.change ?_ ?_ hrun
  · have hsub : (deleteItem w.client.vault id).itemIds.Sublist w.client.vault.itemIds :=
      List.filter_sublist.map _
    exact hsub.nodup h.items
  · rw [find?_deleteItem]
    by_cases hx : id = x
    · rw [if_pos hx]
      have hstand := h.standing
      cases hf : w.client.vault.find? x with
      | none =>
        rw [hf] at hstand
        exact hstand
      | some it =>
        rw [hf] at hstand
        have hmem : x ∈ w.client.vault.itemIds := by
          by_contra hno
          rw [find?_eq_none.mpr hno] at hf
          cases hf
        obtain ⟨⟨hlive, hunseen⟩, hrow⟩ := hcareful hx hmem
        exact standing_delete h.server hstand h.sync.revisions hlive hunseen hrow
    · rw [if_neg hx]
      exact h.standing

theorem World.Ok.start (h : w.Ok u x) :
    World.Ok u x (⟨w.server, { w.client with run := some (.planning ⟨w.client.sync, w.client.vault, 0, []⟩) }⟩ : World κ) := by
  refine ⟨h.server, h.items, h.sync, h.standing, fun run hrun => ?_⟩
  cases hrun
  exact ⟨rfl, rfl, nofun, nofun⟩

theorem World.Ok.other {call : SyncCall} (h : w.Ok u x) (hallows : w.Allows u x (.other call)) :
    World.Ok u x (⟨(call.code.run w.server).1, w.client⟩ : World κ) := by
  have hun := call.untouched hallows.1 u w.server
  exact ⟨h.server.untouched hun, h.items, h.sync.untouched hun,
    h.standing.untouched hun fun p hp => hallows.2 x p hp, h.run⟩

theorem World.Ok.event {event : ClientEvent} (h : w.Ok u x) (hallows : w.Allows u x (.client event))
    (hcareful : w.Careful u x (.client event)) {p : Db × Client κ}
    (hstep : w.client.step R u event w.server = some p) : World.Ok u x (⟨p.1, p.2⟩ : World κ) := by
  have h' : World.Ok u x (⟨w.server, w.client⟩ : World κ) := h
  unfold Client.step at hstep
  -- one case per event and state of the run
  split at hstep
  · rename_i hrun
    cases hstep
    exact h.add hrun hallows
  · rename_i hrun
    cases hstep
    exact h.update hrun hcareful
  · rename_i hrun
    cases hstep
    exact h.delete hrun hcareful
  · cases hstep
    exact h.start
  · rename_i draws l hrun
    split at hstep
    · cases hstep
      exact h'.stop
    · rename_i built hb
      cases hstep
      exact h'.plan hrun hb hallows.1 hallows.2.1 hallows.2.2
  · rename_i env delivered l plan hrun
    split at hstep
    · cases hstep
      exact h'.stop
    · rename_i hschema
      cases hstep
      exact h'.push env delivered hrun (by simpa using hschema)
  · rename_i l page hrun
    split at hstep
    · cases hstep
      exact h'.stop
    · rename_i remote hremote
      cases hstep
      exact h'.pull hrun hremote
  · cases hstep
    exact h'.stop
  · cases hstep

theorem World.Ok.step {act : Act} (h : w.Ok u x) (hallows : w.Allows u x act) (hcareful : w.Careful u x act)
    (hstep : w.step R u act = some w') : w'.Ok u x := by
  cases act with
  | client event =>
    obtain ⟨p, hp, rfl⟩ := Option.map_eq_some_iff.mp hstep
    exact h.event hallows hcareful hp
  | other call =>
    cases hstep
    exact h.other hallows

theorem mem_conflicts {l : Locals κ} {d : ConflictDetail} (h : d ∈ l.conflicts) :
    d ∈ l.conflictDetails ∨ d.itemId ∈ l.state.conflicts := by
  have hfold : ∀ (ids : List ItemId) (details : List ConflictDetail), d ∈ ids.foldl (fun details id =>
      if details.any (·.itemId = id) then details
      else details ++ [⟨id, none, l.state.revisions.get? id, none⟩]) details → d ∈ details ∨ d.itemId ∈ ids := by
    intro ids
    induction ids with
    | nil => exact fun details hd => .inl hd
    | cons id ids ih =>
      intro details hd
      rw [List.foldl_cons] at hd
      rcases ih _ hd with hd | hd
      · split at hd
        · exact .inl hd
        · rcases List.mem_append.mp hd with hd | hd
          · exact .inl hd
          · rw [List.mem_singleton.mp hd]
            exact .inr List.mem_cons_self
      · exact .inr (List.mem_cons_of_mem _ hd)
  exact hfold _ _ h

theorem World.Ok.quiet (h : w.Ok u x) : ¬ w.Conflicts x := by
  rintro (hx | ⟨run, hrun, d, hd, hdx⟩)
  · exact h.sync.quiet hx
  · have hok := h.run run hrun
    rcases mem_conflicts hd with hd | hd
    · exact hok.details d hd hdx
    · rw [hdx, hok.state] at hd
      exact h.sync.quiet hd

/-- A client that has never synchronized, at a server that has never seen the
item. -/
structure World.Fresh (u : UserId) (x : ItemId) (w : World κ) : Prop where
  client : w.client = ⟨⟨w.client.vault.key, []⟩, emptySyncState, none⟩
  row : w.server.vaultItems.get? x = none
  feed : w.server.itemSyncChanges.itemRows u x = []

theorem syncOk_empty {db : Db} : SyncOk u x db emptySyncState := by
  have hpending : ∀ id p, emptySyncState.pending.get? id ≠ some p := fun id p h => by
    rw [show emptySyncState.pending.get? id = none from Table.get?_empty _] at h
    cases h
  refine ⟨⟨fun id p h => absurd h (hpending id p), fun id _ p _ h => absurd h (hpending id p)⟩, List.not_mem_nil,
    Nat.zero_le _, fun r hr => ?_⟩
  rw [show emptySyncState.revisions.get? x = none from Table.get?_empty _] at hr
  cases hr

theorem World.Fresh.ok (h : w.Fresh u x) : w.Ok u x := by
  obtain ⟨db, c⟩ := w
  obtain ⟨hclient, hrow, hfeed⟩ := h
  have hrow : db.vaultItems.get? x = none := hrow
  have hfeed : db.itemSyncChanges.itemRows u x = [] := hfeed
  have hclient : c = ⟨⟨c.vault.key, []⟩, emptySyncState, none⟩ := hclient
  rw [hclient]
  have hno : ∀ row, db.vaultItems.get? x ≠ some row := fun row hr => by
    rw [hrow] at hr
    cases hr
  constructor
  · constructor
    · exact fun row hr => absurd hr (hno row)
    · intro r hr
      have hr : r ∈ db.itemSyncChanges.itemRows u x := hr
      rw [hfeed] at hr
      cases hr
  · exact List.nodup_nil
  · exact syncOk_empty
  · exact .gone rfl rfl rfl fun row hr => absurd hr (hno row)
  · intro run hrun
    cases hrun

/-- A run of one client and of whoever else uses the server; each step may have
to meet a condition of its own. -/
def World.Runs (R : Runtime κ) (u : UserId) (x : ItemId) (Cond : World κ → Act → Prop) : World κ → World κ → Prop :=
  Relation.ReflTransGen fun w w' => ∃ act, w.Allows u x act ∧ Cond w act ∧ w.step R u act = some w'

/-- A client that is the only writer of an item, and changes it only while it
is settled, is never told of a conflict for it. -/
theorem no_self_conflict (h0 : w.Fresh u x) (hr : World.Runs R u x (World.Careful u x) w w') : ¬ w'.Conflicts x := by
  have hok : w'.Ok u x := by
    induction hr with
    | refl => exact h0.ok
    | tail _ hstep ih =>
      obtain ⟨act, hallows, hcareful, hstep⟩ := hstep
      exact ih.step hallows hcareful hstep
  exact hok.quiet

end

/-! ## Sample runs -/

section

def sampleId : ItemId := sampleUpsert.id

def sampleNote (title updatedAt : String) : VaultItem :=
  { title, folder := "", notes := "", customFields := [], body := .secureNote "", id := sampleId,
    createdAt := sampleUpsert.createdAt, updatedAt }

def sampleBundle (item : VaultItem) : ItemBundle where
  encryptedItemKey := sampleEnvelope
  encryptedPayload :=
    { sampleEnvelope with
      ciphertext := if item.title = "a" then "AAAAAAAAAAAAAAAAAAAAAA" else "BBBBBBBBBBBBBBBBBBBBBB" }

def firstNote : VaultItem := sampleNote "a" sampleUpsert.createdAt

def secondNote : VaultItem := sampleNote "b" "2024-03-03T00:00:00.000Z"

def sampleRuntime : Runtime Unit where
  formats := sampleFormats
  hostname _ := none
  toLowerCase := id
  hmacSha256Hex _ term := term
  encryptItem _ item _ := sampleBundle item
  decryptItem _ bundle id :=
    [firstNote, secondNote].find? fun item => item.id = id && sampleBundle item = bundle

def sampleDraws (round : Char) (i : Nat) : Draw where
  randomUUID := String.ofList (round :: (List.replicate 35 '0' ++ List.replicate i '0'))
  nonces := ""
  now := sampleUpsert.createdAt

inductive SampleMove
  | add
  | update
  | delete
  | start
  | plan (round : Char)
  | push (delivered : Bool)
  | pull
  | abort

def SampleMove.act : SampleMove → Act
  | add => .client (.add firstNote.toItemInput sampleId firstNote.createdAt)
  | update => .client (.update sampleId (fun _ => secondNote.toItemInput) secondNote.updatedAt)
  | delete => .client (.delete sampleId)
  | start => .client .start
  | plan round => .client (.plan (sampleDraws round))
  | push delivered => .client (.push (fun _ => ⟨fun _ => sampleUpsert.createdAt, id⟩) delivered)
  | pull => .client .pull
  | abort => .client .abort

def startsWith (round : Char) (id : MutationId) : Bool := id.toList.head? == some round

def SampleMove.allowed (w : World Unit) : SampleMove → Bool
  | add =>
    !w.client.vault.itemIds.contains sampleId && w.client.sync.about sampleId == (none, none, none) &&
      (w.server.vaultItems.get? sampleId).isNone
  | plan round =>
    (w.client.sync.pending.rows.all fun r => !startsWith round r.2.clientMutationId) &&
      w.server.itemSyncMutations.rows.all fun r => !startsWith round r.1.2
  | _ => true

def settled (w : World Unit) : Bool :=
  (w.server.vaultItems.get? sampleId).all (·.deletedAt.isNone) &&
    (w.client.sync.pending.get? sampleId).all fun p =>
      !w.server.itemSyncMutations.contains (sampleUser, p.clientMutationId)

def SampleMove.careful (w : World Unit) : SampleMove → Bool
  | update => settled w
  | delete =>
    settled w && ((w.client.sync.pending.get? sampleId).isNone || (w.server.vaultItems.get? sampleId).isSome)
  | _ => true

def sampleRun (ok : World Unit → SampleMove → Bool) : List SampleMove → World Unit → Option (World Unit)
  | [], w => some w
  | m :: moves, w => if ok w m then (w.step sampleRuntime sampleUser m.act).bind (sampleRun ok moves) else none

theorem startsWith_draw (round : Char) (i : Nat) : startsWith round (sampleDraws round i).randomUUID = true := by
  unfold startsWith sampleDraws
  simp

theorem SampleMove.allows {w : World Unit} {m : SampleMove} (h : m.allowed w = true) :
    w.Allows sampleUser sampleId m.act := by
  cases m with
  | add =>
    simp only [SampleMove.allowed, Bool.and_eq_true, Bool.not_eq_true', beq_iff_eq, Option.isNone_iff_eq_none] at h
    refine ⟨fun hm => ?_, h.1.2, h.2⟩
    have hc := List.contains_iff_mem.mpr hm
    rw [h.1.1] at hc
    cases hc
  | plan round =>
    simp only [SampleMove.allowed, Bool.and_eq_true, List.all_eq_true] at h
    refine ⟨fun i j he => ?_, fun i id p hp he => ?_, fun i => ?_⟩
    · have hlen := congrArg (fun s : String => s.toList.length) he
      simpa [sampleDraws] using hlen
    · have hr := h.1 _ (Table.mem_rows.mpr hp)
      rw [show p.clientMutationId = (sampleDraws round i).randomUUID from he, startsWith_draw] at hr
      cases hr
    · apply Table.get?_eq_none.mpr
      intro hm
      obtain ⟨r, hr, he⟩ := List.mem_map.mp hm
      have hno := h.2 r hr
      rw [he, startsWith_draw] at hno
      cases hno
  | _ => exact trivial

theorem settled_sound {w : World Unit} (h : settled w = true) : w.Settled sampleUser sampleId := by
  simp only [settled, Bool.and_eq_true] at h
  constructor
  · intro row hrow
    have hall := h.1
    rw [hrow] at hall
    exact Option.isNone_iff_eq_none.mp hall
  · intro p hp
    have hall := h.2
    rw [hp] at hall
    exact Table.contains_eq_false.mp (by simpa using hall)

theorem SampleMove.careful_sound {w : World Unit} {m : SampleMove} (h : m.careful w = true) :
    w.Careful sampleUser sampleId m.act := by
  cases m with
  | update => exact fun _ _ => settled_sound h
  | delete =>
    simp only [SampleMove.careful, Bool.and_eq_true, Bool.or_eq_true] at h
    refine fun _ _ => ⟨settled_sound h.1, fun hp => ?_⟩
    rcases h.2 with hn | hs
    · exact absurd (Option.isNone_iff_eq_none.mp hn) hp
    · intro hnone
      rw [hnone] at hs
      cases hs
  | _ => exact trivial

theorem sampleRun_runs {ok : World Unit → SampleMove → Bool} {Cond : World Unit → Act → Prop} {moves : List SampleMove}
    (hok : ∀ w m, ok w m = true → w.Allows sampleUser sampleId m.act ∧ Cond w m.act) {w w' : World Unit}
    (h : sampleRun ok moves w = some w') : World.Runs sampleRuntime sampleUser sampleId Cond w w' := by
  induction moves generalizing w with
  | nil =>
    cases h
    exact .refl
  | cons m moves ih =>
    unfold sampleRun at h
    by_cases hm : ok w m = true
    · rw [if_pos hm] at h
      obtain ⟨w₁, h1, h2⟩ := Option.bind_eq_some_iff.mp h
      exact .head ⟨m.act, (hok w m hm).1, (hok w m hm).2, h1⟩ (ih h2)
    · rw [if_neg hm] at h
      cases h

def freshWorld : World Unit := ⟨sampleStore, ⟨⟨(), []⟩, emptySyncState, none⟩⟩

theorem freshWorld_fresh : freshWorld.Fresh sampleUser sampleId := ⟨rfl, rfl, rfl⟩

/-- A lost answer is asked for again, then the item is edited and sent once more. -/
def carefulMoves : List SampleMove :=
  [.add, .start, .plan 'a', .push false, .start, .plan 'b', .push true, .abort, .update, .start, .plan 'c', .push true,
    .plan 'd', .pull]

/-- `no_self_conflict` at a client that is careful. -/
theorem no_self_conflict_careful :
    ∃ w, World.Runs sampleRuntime sampleUser sampleId (World.Careful sampleUser sampleId) freshWorld w ∧
      w.client.sync.about sampleId = (some 2, some secondNote.updatedAt, none) ∧ ¬ w.Conflicts sampleId := by
  have h : (sampleRun (fun w m => m.allowed w && m.careful w) carefulMoves freshWorld).any (fun w =>
      w.client.sync.about sampleId == (some 2, some secondNote.updatedAt, none)) = true := by decide +kernel
  obtain ⟨w, hw, ha⟩ := (Option.any_eq_true ..).mp h
  have hr : World.Runs sampleRuntime sampleUser sampleId (World.Careful sampleUser sampleId) freshWorld w := by
    refine sampleRun_runs (fun w m hm => ?_) hw
    rw [Bool.and_eq_true] at hm
    exact ⟨SampleMove.allows hm.1, SampleMove.careful_sound hm.2⟩
  exact ⟨w, hr, by simpa using ha, no_self_conflict freshWorld_fresh hr⟩

def hastyMoves : List SampleMove :=
  [.add, .start, .plan 'a', .push false, .update, .start, .plan 'b', .push true]

theorem self_conflict : ¬ ∀ (κ : Type) (R : Runtime κ) (u : UserId) (x : ItemId) (w w' : World κ), w.Fresh u x →
    World.Runs R u x (fun _ _ => True) w w' → ¬ w'.Conflicts x := by
  intro hall
  have h : (sampleRun (fun w m => m.allowed w) hastyMoves freshWorld).any (fun w =>
      w.client.sync.conflicts.contains sampleId) = true := by decide +kernel
  obtain ⟨w, hw, hc⟩ := (Option.any_eq_true ..).mp h
  have hr : World.Runs sampleRuntime sampleUser sampleId (fun _ _ => True) freshWorld w :=
    sampleRun_runs (fun w m hm => ⟨SampleMove.allows hm, trivial⟩) hw
  exact hall Unit sampleRuntime sampleUser sampleId freshWorld w freshWorld_fresh hr (.inl (List.contains_iff_mem.mp hc))

end

end ZeroVault.Browser

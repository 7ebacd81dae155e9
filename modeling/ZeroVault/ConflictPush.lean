import ZeroVault.ConflictChoices
import ZeroVault.PlanReplay

/-!
# A run that pushes one item

While a run pushes, an item that it has to send is sent once, at the base that
the server has (`Progress.step`), and an item with nothing to send stays as it
is on both sides (`Rested.step`).
-/

namespace ZeroVault.Browser

open Lib

/-! ## Steps of one run -/

section
variable {κ : Type} (R : Runtime κ) (u : UserId)

/-- What goes on during a run: random ids are new, and nobody else writes the items `named`. -/
def World.SyncAllows (named : List ItemId) (w : World κ) : Act → Prop
  | .client (.plan draws) =>
    (∀ i j, (draws i).randomUUID = (draws j).randomUUID → i = j) ∧
      (∀ i id p, w.client.sync.pending.get? id = some p → p.clientMutationId ≠ (draws i).randomUUID) ∧
      ∀ i, w.server.itemSyncMutations.get? (u, (draws i).randomUUID) = none
  | .client (.push ..) | .client .pull | .client .abort => True
  | .client _ => False
  | .other call =>
    (∀ x ∈ named, x ∉ call.itemIds) ∧
      ∀ id p, w.client.sync.pending.get? id = some p → p.clientMutationId ∉ call.mutationIds

def World.Syncs (named : List ItemId) : World κ → World κ → Prop :=
  Relation.ReflTransGen fun w w' => ∃ act, w.SyncAllows u named act ∧ w.step R u act = some w'

inductive Advances (named : List ItemId) (w : World κ) : World κ → Prop
  | other (call : SyncCall) (others : ∀ x ∈ named, x ∉ call.itemIds)
      (fresh : ∀ id p, w.client.sync.pending.get? id = some p → p.clientMutationId ∉ call.mutationIds) :
      Advances named w ⟨(call.code.run w.server).1, w.client⟩
  | stops {w' : World κ} (run : w'.client.run = none) : Advances named w w'
  | plans {l : Locals κ} {draws : Nat → Draw} {built : BuiltPlan} (run : w.client.run = some (.planning l))
      (distinct : ∀ i j, (draws i).randomUUID = (draws j).randomUUID → i = j)
      (fresh : ∀ i id p, w.client.sync.pending.get? id = some p → p.clientMutationId ≠ (draws i).randomUUID)
      (unseen : ∀ i, w.server.itemSyncMutations.get? (u, (draws i).randomUUID) = none)
      (builds : buildItemLevelSyncPlan R draws l.active u l.state = some built) :
      Advances named w ⟨w.server, w.client.planned l built⟩
  | pushes {l l' : Locals κ} {plan : ItemLevelSyncPlan} {env : Env} {st : PushState} {db' : Db}
      {result : ItemLevelSyncPushResult} (run : w.client.run = some (.pushing l plan))
      (ids : (plan.operations.map (·.id)).Nodup) (mutations : (plan.operations.map (·.clientMutationId)).Nodup)
      (push : PushRun env u plan st w.server db' result) (accepts : receivePush l plan result = .ok l') :
      Advances named w ⟨db', w.client.commit l' (.planning l')⟩
  | pulls {l l' : Locals κ} {page : Nat} {remote : ItemLevelSyncPullResponse} {c' : Client κ}
      (run : w.client.run = some (.pulling l page))
      (answers : ((pullItemLevelSync R.formats u l.state.cursor DEFAULT_PULL_LIMIT).run w.server).2 = .ok remote)
      (accepts : receivePull R u l remote = .ok l') (vault : c'.vault = l'.active) (sync : c'.sync = l'.state)
      (next : (remote.hasMore = false ∧ c'.run = some (.returned l')) ∨ c'.run = some (.pulling l' (page + 1))) :
      Advances named w ⟨w.server, c'⟩

end

section
variable {κ : Type} {R : Runtime κ} {u : UserId} {named : List ItemId} {w w' : World κ}

theorem World.advances {act : Act} (hallows : w.SyncAllows u named act) (hstep : w.step R u act = some w') :
    Advances R u named w w' := by
  -- what fails a check stops the run
  cases act with
  | other call =>
    cases hstep
    exact .other call hallows.1 hallows.2
  | client event =>
    obtain ⟨p, hp, rfl⟩ := Option.map_eq_some_iff.mp hstep
    unfold Client.step at hp
    split at hp
    · exact absurd hallows id
    · exact absurd hallows id
    · exact absurd hallows id
    · exact absurd hallows id
    · rename_i draws l hrun
      split at hp
      · cases hp
        exact .stops rfl
      · rename_i built hb
        cases hp
        exact .plans hrun hallows.1 hallows.2.1 hallows.2.2 hb
    · rename_i env delivered l plan hrun
      split at hp
      · cases hp
        exact .stops rfl
      · rename_i hschema
        have hvalid : itemLevelSyncPlanSchema R.formats plan = true := by simpa using hschema
        obtain ⟨hids, hmids⟩ := schema_nodup hvalid
        cases hp
        rcases pushItemLevelSync_run env u plan w.server with ⟨e, he⟩ | ⟨n, st, db', result, hpush, he⟩
        · rw [he]
          exact .stops (by cases delivered <;> rfl)
        · rw [he]
          cases delivered with
          | false => exact .stops rfl
          | true =>
            show Advances R u named w ⟨db', w.client.pushed l plan (some result)⟩
            unfold Client.pushed
            dsimp only
            cases hr : receivePush l plan result with
            | error e => exact .stops rfl
            | ok l' => exact .pushes hrun hids hmids hpush hr
    · rename_i l page hrun
      split at hp
      · cases hp
        exact .stops rfl
      · rename_i remote hremote
        cases hp
        show Advances R u named w ⟨w.server, w.client.pulled R u l page remote⟩
        unfold Client.pulled
        cases hr : receivePull R u l remote with
        | error e => exact .stops rfl
        | ok l' =>
          dsimp only
          split
          · rename_i hmore
            exact .pulls hrun hremote hr rfl rfl (.inl ⟨by simpa using hmore, rfl⟩)
          split
          · exact .stops rfl
          · exact .pulls hrun hremote hr rfl rfl (.inr rfl)
    · cases hp
      exact .stops rfl
    · exact (nomatch hp)

theorem Advances.running (h : Advances R u named w w') (hrun : w'.client.run ≠ none) : w.client.run ≠ none := by
  cases h with
  | other => exact hrun
  | stops run => exact absurd run hrun
  | plans run => exact run ▸ Option.some_ne_none _
  | pushes run => exact run ▸ Option.some_ne_none _
  | pulls run => exact run ▸ Option.some_ne_none _

theorem World.Syncs.keeps {P : World κ → Prop} (hr : w.Syncs R u named w') (hrun : w'.client.run ≠ none) (h0 : P w)
    (hstep : ∀ w₁ w₂, Advances R u named w₁ w₂ → w₂.client.run ≠ none → P w₁ → P w₂) : P w' := by
  induction hr with
  | refl => exact h0
  | tail _ hlast ih =>
    obtain ⟨act, hallows, hact⟩ := hlast
    have hadvance := World.advances hallows hact
    exact hstep _ _ hadvance hrun (ih (hadvance.running hrun))

end

/-! ## Where an item stands while a run pushes -/

section
variable {κ : Type} (R : Runtime κ) (u : UserId) (z : ItemId)

def World.Early (w : World κ) : Prop :=
  ∃ run, w.client.run = some run ∧ (∀ l page, run = .pulling l page → page = 0) ∧ ∀ l, run ≠ .returned l

/-- The client is sound, and knows of no conflict of the item. -/
structure World.Ready (w : World κ) : Prop where
  items : w.client.vault.itemIds.Nodup
  pending : PendingOk u w.client.sync.pending
  quiet : z ∉ w.client.sync.conflicts
  behind : w.client.sync.serverRevision ≤ w.server.serverRevision u
  run : ∀ run, w.client.run = some run → RunOk u z w.client run

def Encrypts (vault : UnlockedVault κ) (it : VaultItem) (encryptedItemKey encryptedPayload : CiphertextEnvelope) : Prop :=
  ∃ nonces, encryptItemForSync R vault it nonces = ⟨encryptedItemKey, encryptedPayload⟩

/-- The client has its version of the item to send, and the server's revision for a base. -/
structure Unsent (db : Db) (c : Client κ) : Prop where
  pending : c.sync.pending.get? z = none
  dirty : ∀ it, c.vault.find? z = some it → c.sync.timestamps.get? z ≠ some it.updatedAt
  gone : c.vault.find? z = none → c.sync.revisions.get? z ≠ none ∧ db.vaultItems.get? z ≠ none
  known : (c.sync.revisions.get? z).getD 0 = db.itemRevision z
  owned : ∀ row, db.vaultItems.get? z = some row → row.userId = u

/-- An operation on its way that the server will take. -/
structure Underway (db : Db) (c : Client κ) (op : Operation) : Prop where
  id : op.id = z
  unseen : db.itemSyncMutations.get? (u, op.clientMutationId) = none
  base : op.baseItemRevision = db.itemRevision z
  owned : ∀ row, db.vaultItems.get? z = some row → row.userId = u
  content : match op with
    | .upsert item => ∃ it p, c.vault.find? z = some it ∧ c.sync.pending.get? z = some p ∧
      p.itemUpdatedAt = it.updatedAt ∧ Encrypts R c.vault it item.encryptedItemKey item.encryptedPayload
    | .delete _ => c.vault.find? z = none ∧ db.vaultItems.get? z ≠ none

def Uploaded (db : Db) (c : Client κ) : Prop :=
  match c.vault.find? z with
  | some it => ∃ row, db.vaultItems.get? z = some row ∧ row.deletedAt = none ∧
    Encrypts R c.vault it row.encryptedItemKey row.encryptedPayload
  | none => ∀ row, db.vaultItems.get? z = some row → row.deletedAt ≠ none

/-- The client has nothing to send of the item. -/
structure Rested (w : World κ) : Prop where
  unchanged : Unchanged w.client.vault w.client.sync z
  absent : ∀ l plan, w.client.run = some (.pushing l plan) → ∀ op ∈ plan.operations, op.id ≠ z

inductive Progress (w : World κ) : Prop
  | waiting (unsent : Unsent u z w.server w.client)
      (pushes : ∀ run, w.client.run = some run →
        (∃ l, run = .planning l) ∨ ∃ l plan, run = .pushing l plan ∧ ∀ op ∈ plan.operations, op.id ≠ z)
  | underway {l : Locals κ} {plan : ItemLevelSyncPlan} {op : Operation} (run : w.client.run = some (.pushing l plan))
      (mem : op ∈ plan.operations) (is : Underway R u z w.server w.client op)
  | done (rested : Rested z w) (uploaded : Uploaded R z w.server w.client)

/-- Nobody has touched the item. -/
structure Still (w w' : World κ) : Prop where
  row : w'.server.vaultItems.get? z = w.server.vaultItems.get? z
  feed : w'.server.itemSyncChanges.itemRows u z = w.server.itemSyncChanges.itemRows u z
  vault : w'.client.vault = w.client.vault
  about : w'.client.sync.about z = w.client.sync.about z

end

section
variable {κ : Type} {R : Runtime κ} {u : UserId} {z : ItemId} {named : List ItemId} {w w' w'' : World κ}
variable {l l' : Locals κ} {db db' : Db} {c : Client κ}

theorem Still.refl (w : World κ) : Still u z w w := ⟨rfl, rfl, rfl, rfl⟩

theorem Still.trans (h : Still u z w w') (h' : Still u z w' w'') : Still u z w w'' :=
  ⟨h'.row.trans h.row, h'.feed.trans h.feed, h'.vault.trans h.vault, h'.about.trans h.about⟩

theorem Still.uploaded (h : Still u z w w') (hup : Uploaded R z w.server w.client) : Uploaded R z w'.server w'.client := by
  unfold Uploaded at hup ⊢
  rw [h.row, h.vault]
  exact hup

theorem World.Early.not_pulls {page : Nat} {hasMore : Bool} (hearly : w'.Early)
    (hnext : (hasMore = false ∧ w'.client.run = some (.returned l')) ∨ w'.client.run = some (.pulling l' (page + 1))) :
    False := by
  obtain ⟨run, hrun, hpage, hreturned⟩ := hearly
  rcases hnext with ⟨-, hnext⟩ | hnext
  · rw [hnext] at hrun
    cases hrun
    exact hreturned l' rfl
  · rw [hnext] at hrun
    cases hrun
    exact absurd (hpage l' _ rfl) (Nat.succ_ne_zero page)

theorem planned_sync (hstate : l.state = c.sync) (built : BuiltPlan) :
    (c.planned l built).sync = { c.sync with pending := built.pendingMutations } := by
  rw [← hstate]
  rfl

theorem planned_run (built : BuiltPlan) {run : Run κ} (h : (c.planned l built).run = some run) :
    (∃ l', run = .pulling l' 0 ∧ built.plan.operations = []) ∨
      ∃ l', run = .pushing l' built.plan ∧ built.plan.operations ≠ [] := by
  have hrun := Option.some.inj h
  split at hrun
  · rename_i hempty
    exact .inl ⟨_, hrun.symm, List.isEmpty_iff.mp hempty⟩
  · rename_i hempty
    exact .inr ⟨_, hrun.symm, mt List.isEmpty_iff.mpr hempty⟩

/-! ## Steps that leave the item alone -/

theorem World.Ready.other (h : World.Ready u z (⟨db, c⟩ : World κ)) {named' : List MutationId}
    (hun : Untouched u z named' db db') : World.Ready u z (⟨db', c⟩ : World κ) :=
  ⟨h.items, h.pending, h.quiet, Nat.le_trans h.behind hun.revision, h.run⟩

theorem World.Ready.plans (h : w.Ready u z) (hrun : w.client.run = some (.planning l)) {draws : Nat → Draw}
    {built : BuiltPlan} (hb : buildItemLevelSyncPlan R draws w.client.vault u w.client.sync = some built)
    (hi : ∀ i j, (draws i).randomUUID = (draws j).randomUUID → i = j)
    (hnew : ∀ i id p, w.client.sync.pending.get? id = some p → p.clientMutationId ≠ (draws i).randomUUID) :
    World.Ready u z (⟨w.server, w.client.planned l built⟩ : World κ) := by
  have hok := h.run _ hrun
  have hsync := planned_sync (l := l) (c := w.client) hok.state built
  have hplanned := hok.planned (by rw [show l.active = _ from hok.vault, show l.state = _ from hok.state]; exact hb)
    h.items h.pending
  refine ⟨h.items, ?_, ?_, ?_, hplanned⟩
  · show PendingOk u (w.client.planned l built).sync.pending
    rw [hsync]
    exact built_pending hb h.items h.pending hi hnew
  · show z ∉ (w.client.planned l built).sync.conflicts
    rw [hsync]
    exact h.quiet
  · show (w.client.planned l built).sync.serverRevision ≤ _
    rw [hsync]
    exact h.behind

theorem World.Ready.pushes (h : w.Ready u z) {plan : ItemLevelSyncPlan} {env : Env} {st : PushState}
    {result : ItemLevelSyncPushResult} (hrun : w.client.run = some (.pushing l plan))
    (hids : (plan.operations.map (·.id)).Nodup) (hmids : (plan.operations.map (·.clientMutationId)).Nodup)
    (hpush : PushRun env u plan st w.server db' result) (hr : receivePush l plan result = .ok l')
    (hquiet : z ∈ l'.state.conflicts → z ∈ l.state.conflicts)
    (hdetails : ∀ d ∈ l'.conflictDetails, d.itemId = z → d ∈ l.conflictDetails) :
    World.Ready u z (⟨db', w.client.commit l' (.planning l')⟩ : World κ) := by
  have hok := h.run _ hrun
  have hstate : l.state = w.client.sync := hok.state
  have hactive : l.active = w.client.vault := hok.vault
  refine ⟨h.items, ?_, fun hz => h.quiet (hstate ▸ hquiet hz), ?_, fun run hrun => ?_⟩
  · refine h.pending.mono fun id p hp => ?_
    have hkept := receivePush_pending hr hids hmids hp
    rwa [hstate] at hkept
  · obtain ⟨-, seen, conflicting, state, -, -, -, rfl⟩ := receivePush_ok hr
    exact Nat.le_of_eq hpush.revision.1.symm
  · cases hrun
    refine ⟨rfl, ?_, fun d hd hid => hok.details d (hdetails d hd hid) hid, nofun⟩
    obtain ⟨-, seen, conflicting, state, -, -, -, rfl⟩ := receivePush_ok hr
    exact hactive

theorem receivePush_absent {plan : ItemLevelSyncPlan} {result : ItemLevelSyncPushResult}
    (hr : receivePush l plan result = .ok l') (hids : (plan.operations.map (·.id)).Nodup)
    (hmids : (plan.operations.map (·.clientMutationId)).Nodup) (hno : ∀ op ∈ plan.operations, op.id ≠ z) :
    l'.state.about z = l.state.about z ∧ (z ∈ l'.state.conflicts → z ∈ l.state.conflicts) ∧
      ∀ d ∈ l'.conflictDetails, d.itemId = z → d ∈ l.conflictDetails := by
  rcases receivePush_item hr hids hmids z with ⟨op, r, -, hchecked, hid, -⟩ | ⟨-, habout, hquiet⟩
  · exact absurd hid (hno op hchecked.mem)
  · exact ⟨habout, hquiet hno⟩

theorem Unchanged.not_sent {draws : Nat → Draw} {built : BuiltPlan} (h : w.Ready u z)
    (hb : buildItemLevelSyncPlan R draws w.client.vault u w.client.sync = some built)
    (hunchanged : Unchanged w.client.vault w.client.sync z) : Skipped w.client.vault w.client.sync built z := by
  rcases built_item hb h.items h.pending z with
    hskip | ⟨it, i, expected, up, hmem, hid, hchanged, -⟩ | ⟨i, hmem, habsent, -⟩
  · exact hskip
  · exact absurd ⟨hunchanged.stamped it (List.fst_mem_of_mem_zipIdx hmem) hid, hunchanged.pending⟩ hchanged
  · rcases mem_knownIds.mp (List.fst_mem_of_mem_zipIdx hmem) with hne | hne
    · exact absurd (hunchanged.unknown habsent) hne
    · exact absurd hunchanged.pending hne

theorem Rested.step (hz : z ∈ named) (hready : w.Ready u z) (h : Rested z w) (hadv : Advances R u named w w')
    (hearly : w'.Early) : w'.Ready u z ∧ Rested z w' ∧ Still u z w w' := by
  cases hadv with
  | other call others fresh =>
    have hun := call.untouched (others z hz) u w.server
    exact ⟨hready.other hun, ⟨h.unchanged, h.absent⟩, hun.row, hun.feed, rfl, rfl⟩
  | stops run =>
    obtain ⟨run', hrun', -⟩ := hearly
    rw [run] at hrun'
    exact (nomatch hrun')
  | plans run distinct fresh unseen builds =>
    rename_i l draws built
    have hok := hready.run _ run
    have hstate : l.state = w.client.sync := hok.state
    have hactive : l.active = w.client.vault := hok.vault
    rw [hactive, hstate] at builds
    have hskip := h.unchanged.not_sent hready builds
    have hsync := planned_sync hstate built
    have habout : (w.client.planned l built).sync.about z = w.client.sync.about z := by
      rw [hsync]
      exact Prod.ext rfl (Prod.ext rfl hskip.pending)
    refine ⟨hready.plans run builds distinct fresh, ⟨⟨?_, ?_, ?_⟩, fun l' plan hrun => ?_⟩, rfl, rfl, rfl, habout⟩
    · exact (congrArg (·.2.2) habout).trans h.unchanged.pending
    · exact fun it hit hid => (congrArg (·.2.1) habout).trans (h.unchanged.stamped it hit hid)
    · exact fun hno => (congrArg Prod.fst habout).trans (h.unchanged.unknown hno)
    · rcases planned_run built hrun with ⟨l'', he, -⟩ | ⟨l'', he, -⟩
      · exact (nomatch he)
      · cases he
        exact hskip.ops
  | pushes run ids mutations push accepts =>
    rename_i l l' plan env st db' result
    have hok := hready.run _ run
    have hstate : l.state = w.client.sync := hok.state
    have hno := h.absent _ _ run
    have hun := push_absent push hno
    obtain ⟨habout, hquiet, hdetails⟩ := receivePush_absent accepts ids mutations hno
    rw [hstate] at habout
    refine ⟨hready.pushes run ids mutations push accepts hquiet hdetails, ⟨⟨?_, ?_, ?_⟩, nofun⟩, hun.row, hun.feed, rfl,
      habout⟩
    · exact (congrArg (·.2.2) habout).trans h.unchanged.pending
    · exact fun it hit hid => (congrArg (·.2.1) habout).trans (h.unchanged.stamped it hit hid)
    · exact fun hno => (congrArg Prod.fst habout).trans (h.unchanged.unknown hno)
  | pulls run answers accepts vault sync next => exact (hearly.not_pulls next).elim

/-! ## The item that is sent -/

theorem freshUpsert_encrypts {it : VaultItem} {expected : Nat} {draw : Draw} {up : ItemLevelEncryptedUpsert}
    {vault : UnlockedVault κ} (h : freshUpsert R vault u it expected draw = some up) :
    Encrypts R vault it up.encryptedItemKey up.encryptedPayload := by
  unfold freshUpsert at h
  dsimp only at h
  split at h
  · cases h
    exact ⟨draw.nonces, rfl⟩
  · exact (nomatch h)

theorem Unsent.plans (hready : w.Ready u z) (h : Unsent u z w.server w.client) {draws : Nat → Draw} {built : BuiltPlan}
    (hrun : w.client.run = some (.planning l))
    (hb : buildItemLevelSyncPlan R draws w.client.vault u w.client.sync = some built)
    (hunseen : ∀ i, w.server.itemSyncMutations.get? (u, (draws i).randomUUID) = none) :
    Progress R u z (⟨w.server, w.client.planned l built⟩ : World κ) := by
  have hok := hready.run _ hrun
  have hsync := planned_sync (l := l) (c := w.client) hok.state built
  have hstart : ∀ op ∈ built.plan.operations, ∀ run, (w.client.planned l built).run = some run →
      ∃ l', run = .pushing l' built.plan := by
    intro op hop run hrun
    rcases planned_run built hrun with ⟨l', -, hnil⟩ | ⟨l', he, -⟩
    · exact absurd (hnil ▸ hop) List.not_mem_nil
    · exact ⟨l', he⟩
  have hpushing {op : Operation} (hop : op ∈ built.plan.operations) :
      ∃ l', (w.client.planned l built).run = some (.pushing l' built.plan) := by
    obtain ⟨run, hrun⟩ : ∃ run, (w.client.planned l built).run = some run := ⟨_, rfl⟩
    obtain ⟨l', rfl⟩ := hstart op hop run hrun
    exact ⟨l', hrun⟩
  -- a full plan leaves the item waiting, any other sends what the vault has of it
  rcases built_item hb hready.items hready.pending z with
    hskip | ⟨it, i, expected, up, hmem, hid, -, hsend, hsent⟩ | ⟨i, hmem, habsent, hsent⟩
  · refine .waiting ⟨?_, ?_, ?_, ?_, h.owned⟩ fun run hrun => ?_
    · show (w.client.planned l built).sync.pending.get? z = none
      rw [hsync]
      exact hskip.pending.trans h.pending
    · show ∀ it, w.client.vault.find? z = some it → (w.client.planned l built).sync.timestamps.get? z ≠ _
      rw [hsync]
      exact h.dirty
    · show w.client.vault.find? z = none → (w.client.planned l built).sync.revisions.get? z ≠ none ∧ _
      rw [hsync]
      exact h.gone
    · show ((w.client.planned l built).sync.revisions.get? z).getD 0 = _
      rw [hsync]
      exact h.known
    · rcases planned_run built hrun with ⟨l', -, hnil⟩ | ⟨l', rfl, -⟩
      · rcases hskip.why with hc | hu | hne
        · exact absurd hc hready.quiet
        · exfalso
          cases hfind : w.client.vault.find? z with
          | some it =>
            obtain ⟨hit, hid⟩ := (find?_eq_some hready.items).mp hfind
            exact h.dirty it hfind (hu.stamped it hit hid)
          | none => exact (h.gone hfind).1 (hu.unknown (find?_eq_none.mp hfind))
        · exact absurd hnil hne
      · exact .inr ⟨l', _, rfl, hskip.ops⟩
  · obtain ⟨l', hrun'⟩ := hpushing hsent.mem
    have hit : w.client.vault.find? z = some it :=
      (find?_eq_some hready.items).mpr ⟨List.fst_mem_of_mem_zipIdx hmem, hid⟩
    have hnew : freshUpsert R w.client.vault u it expected (draws i) = some up := by
      rcases hsend.2 with hreplayed | ⟨-, hfresh⟩
      · obtain ⟨p, hp, -⟩ := replayedUpsert_eq.mp hreplayed
        rw [h.pending] at hp
        exact (nomatch hp)
      · exact hfresh
    obtain ⟨-, -, hbase, hmutation⟩ := freshUpsert_eq hnew
    refine .underway hrun' hsent.mem ⟨hsent.id, ?_, ?_, h.owned, it,
      ⟨it.updatedAt, up.clientMutationId, some expected, some up, none⟩, hit, ?_, rfl, freshUpsert_encrypts hnew⟩
    · show w.server.itemSyncMutations.get? (u, up.clientMutationId) = none
      rw [hmutation]
      exact hunseen i
    · show up.baseItemRevision = _
      rw [hbase, hsend.1, h.pending]
      exact h.known
    · show (w.client.planned l built).sync.pending.get? z = some _
      rw [hsync]
      exact hsent.pending
  · obtain ⟨l', hrun'⟩ := hpushing hsent.mem
    have hfind : w.client.vault.find? z = none := find?_eq_none.mpr habsent
    have hdeletion : deletionOf u w.client.sync (draws i) z =
        ⟨z, u, (w.client.sync.revisions.get? z).getD 0, (draws i).now, (draws i).randomUUID⟩ := by
      unfold deletionOf
      rw [h.pending]
      simp
    refine .underway hrun' hsent.mem ⟨hsent.id, ?_, ?_, h.owned, hfind, (h.gone hfind).2⟩
    · show w.server.itemSyncMutations.get? (u, (deletionOf u w.client.sync (draws i) z).clientMutationId) = none
      rw [hdeletion]
      exact hunseen i
    · show (deletionOf u w.client.sync (draws i) z).baseItemRevision = _
      rw [hdeletion]
      exact h.known

theorem Underway.applies (hready : w.Ready u z) {plan : ItemLevelSyncPlan} {op : Operation}
    (hrun : w.client.run = some (.pushing l plan)) (hop : op ∈ plan.operations)
    (h : Underway R u z w.server w.client op) : Applies (pushViewAt u plan w.server w.server w.server) op := by
  obtain ⟨rfl, hunseen, hbase, howned, hcontent⟩ := h
  have hplan := ((hready.run _ hrun).plan l plan rfl).1
  refine applies_of ?_ (Nat.le_trans hplan hready.behind) ?_ ?_ ?_
  · rw [pushView_receipt hop]
    exact hunseen
  · rw [pushView_row hop]
    exact howned
  · intro hkind
    rw [pushView_row hop]
    cases op with
    | upsert item => exact (nomatch hkind)
    | delete item => exact hcontent.2
  · rw [pushView_row hop]
    exact hbase

theorem Underway.uploaded (hready : w.Ready u z) {plan : ItemLevelSyncPlan} {op : Operation} {env : Env} {st : PushState}
    {result : ItemLevelSyncPushResult} (hrun : w.client.run = some (.pushing l plan)) (hop : op ∈ plan.operations)
    (h : Underway R u z w.server w.client op) (hids : (plan.operations.map (·.id)).Nodup)
    (hpush : PushRun env u plan st w.server db' result) : Uploaded R z db' w.client := by
  have ha := h.applies hready hrun hop
  have hcontent := h.content
  obtain rfl := h.id
  unfold Uploaded
  cases op with
  | upsert item =>
    obtain ⟨it, p, hfind, -, -, hencrypts⟩ := hcontent
    rw [show w.client.vault.find? (Operation.upsert item).id = some it from hfind]
    exact ⟨_, hpush.row_upsert hids hop ha, rfl, hencrypts⟩
  | delete item =>
    rw [show w.client.vault.find? (Operation.delete item).id = none from hcontent.1]
    intro row hrow
    obtain ⟨old, -, hdeleted⟩ := hpush.row_delete hids hop ha
    rw [show db'.vaultItems.get? (Operation.delete item).id = _ from hdeleted] at hrow
    cases hrow
    exact Option.some_ne_none _

theorem Underway.answered (hready : w.Ready u z) {plan : ItemLevelSyncPlan} {op : Operation} {env : Env} {st : PushState}
    {result : ItemLevelSyncPushResult} (hrun : w.client.run = some (.pushing l plan)) (hop : op ∈ plan.operations)
    (h : Underway R u z w.server w.client op) (hids : (plan.operations.map (·.id)).Nodup)
    (hmids : (plan.operations.map (·.clientMutationId)).Nodup) (hpush : PushRun env u plan st w.server db' result)
    (hr : receivePush l plan result = .ok l') :
    Unchanged w.client.vault l'.state z ∧ (z ∈ l'.state.conflicts → z ∈ l.state.conflicts) ∧
      ∀ d ∈ l'.conflictDetails, d.itemId = z → d ∈ l.conflictDetails := by
  have hreceipt := hpush.receipt_iff.mpr ⟨op, hop, answer_applies (h.applies hready hrun hop)⟩
  have hstate : l.state = w.client.sync := (hready.run _ hrun).state
  rcases receivePush_item hr hids hmids z with ⟨op', r, -, hchecked, hid, habout, hquiet, hdetails⟩ | ⟨hnone, -⟩
  · have hsame : op' = op := List.inj_on_of_nodup_map hids hchecked.mem hop (hid.trans h.id.symm)
    rw [hsame] at hchecked
    refine ⟨?_, hquiet, hdetails⟩
    have hitem : r.itemId = z := hchecked.item.symm.trans h.id
    have hcontent := h.content
    cases op with
    | upsert item =>
      obtain ⟨it, p, hfind, hpending, hstamp, -⟩ := hcontent
      have hkind : r.operation = .upsert := hchecked.kind.symm
      unfold receipted at habout
      rw [hkind, hitem, hstate, show w.client.sync.pending.get? z = some p from hpending] at habout
      have habout := (Option.some.inj habout).symm
      refine ⟨congrArg (·.2.2) habout, fun it' hit hid => ?_, fun hno => ?_⟩
      · have hsame : some it' = some it := ((find?_eq_some hready.items).mpr ⟨hit, hid⟩).symm.trans hfind
        cases hsame
        exact (congrArg (·.2.1) habout).trans (congrArg some hstamp)
      · rw [find?_eq_none.mpr hno] at hfind
        exact (nomatch hfind)
    | delete item =>
      have hkind : r.operation = .delete := hchecked.kind.symm
      unfold receipted at habout
      rw [hkind] at habout
      have habout := (Option.some.inj habout).symm
      exact ⟨congrArg (·.2.2) habout, fun it hit hid => absurd (hid ▸ List.mem_map_of_mem hit) (find?_eq_none.mp hcontent.1),
        fun _ => congrArg Prod.fst habout⟩
  · exact absurd rfl (hnone op hop h.id _ hreceipt)

theorem Progress.step (hz : z ∈ named) (hready : w.Ready u z) (h : Progress R u z w) (hadv : Advances R u named w w')
    (hearly : w'.Early) : w'.Ready u z ∧ Progress R u z w' := by
  -- by how far the sending has come, and then by what happens
  cases h with
  | done rested uploaded =>
    obtain ⟨hready', hrested', hstill⟩ := rested.step hz hready hadv hearly
    exact ⟨hready', .done hrested' (hstill.uploaded uploaded)⟩
  | waiting unsent pushes =>
    cases hadv with
    | other call others fresh =>
      have hun := call.untouched (others z hz) u w.server
      have hrow := hun.row
      refine ⟨hready.other hun, .waiting ⟨unsent.pending, unsent.dirty, ?_, ?_, ?_⟩ pushes⟩
      · exact fun hfind => ⟨(unsent.gone hfind).1, by rw [hrow]; exact (unsent.gone hfind).2⟩
      · exact unsent.known.trans (untouched_itemRevision hun).symm
      · exact fun row h => unsent.owned row (hrow ▸ h)
    | stops run =>
      obtain ⟨run', hrun', -⟩ := hearly
      rw [run] at hrun'
      exact (nomatch hrun')
    | plans run distinct fresh unseen builds =>
      rename_i l draws built
      have hok := hready.run _ run
      have hstate : l.state = w.client.sync := hok.state
      have hactive : l.active = w.client.vault := hok.vault
      rw [hactive, hstate] at builds
      exact ⟨hready.plans run builds distinct fresh, unsent.plans hready run builds unseen⟩
    | pushes run ids mutations push accepts =>
      rename_i l l' plan env st db' result
      have hstate : l.state = w.client.sync := (hready.run _ run).state
      -- a plan on its way was made without the item, so the answer does not concern it
      have hno : ∀ op ∈ plan.operations, op.id ≠ z := by
        rcases pushes _ run with ⟨l₁, he⟩ | ⟨l₁, plan₁, he, hno⟩
        · exact (nomatch he)
        · cases he
          exact hno
      have hun := push_absent push hno
      have hrow := hun.row
      obtain ⟨habout, hquiet, hdetails⟩ := receivePush_absent accepts ids mutations hno
      rw [hstate] at habout
      have hrevision : l'.state.revisions.get? z = w.client.sync.revisions.get? z := congrArg Prod.fst habout
      have hstamp : l'.state.timestamps.get? z = w.client.sync.timestamps.get? z := congrArg (·.2.1) habout
      refine ⟨hready.pushes run ids mutations push accepts hquiet hdetails,
        .waiting ⟨(congrArg (·.2.2) habout).trans unsent.pending, ?_, ?_, ?_, ?_⟩ fun run hrun => ?_⟩
      · show ∀ it, w.client.vault.find? z = some it → l'.state.timestamps.get? z ≠ _
        rw [hstamp]
        exact unsent.dirty
      · show w.client.vault.find? z = none → l'.state.revisions.get? z ≠ none ∧ db'.vaultItems.get? z ≠ none
        rw [hrevision, hrow]
        exact unsent.gone
      · show (l'.state.revisions.get? z).getD 0 = db'.itemRevision z
        rw [hrevision, untouched_itemRevision hun]
        exact unsent.known
      · exact fun row h => unsent.owned row (hrow ▸ h)
      · cases hrun
        exact .inl ⟨l', rfl⟩
    | pulls run answers accepts vault sync next => exact (hearly.not_pulls next).elim
  | underway run mem is =>
    rename_i l plan op
    cases hadv with
    | other call others fresh =>
      have hun := call.untouched (others z hz) u w.server
      have hrow := hun.row
      obtain ⟨p, hp, hholds, -⟩ := ((hready.run _ run).plan l plan rfl).2 op mem
      refine ⟨hready.other hun, .underway run mem ⟨is.id, ?_, ?_, ?_, ?_⟩⟩
      · exact (hun.receipts _ (hholds.1 ▸ fresh _ p hp)).trans is.unseen
      · exact is.base.trans (untouched_itemRevision hun).symm
      · exact fun row h => is.owned row (hrow ▸ h)
      · have hcontent := is.content
        cases op with
        | upsert item => exact hcontent
        | delete item => exact ⟨hcontent.1, by rw [hrow]; exact hcontent.2⟩
    | stops run' =>
      obtain ⟨run'', hrun', -⟩ := hearly
      rw [run'] at hrun'
      exact (nomatch hrun')
    | plans run' =>
      rw [run] at run'
      exact (nomatch run')
    | pushes run' ids mutations push accepts =>
      rw [run] at run'
      cases run'
      obtain ⟨hunchanged, hquiet, hdetails⟩ := is.answered hready run mem ids mutations push accepts
      have huploaded := is.uploaded hready run mem ids push
      exact ⟨hready.pushes run ids mutations push accepts hquiet hdetails, .done ⟨hunchanged, nofun⟩ huploaded⟩
    | pulls run' =>
      rw [run] at run'
      exact (nomatch run')

/-! ## The entries of the item -/

/-- What the feed has of the item is the client's version. -/
def Echoes (R : Runtime κ) (u : UserId) (z : ItemId) (it : VaultItem) (w : World κ) : Prop :=
  ∀ r ∈ w.server.itemSyncChanges.itemRows u z, ∃ row, r.change = .upsert row ∧
    Encrypts R w.client.vault it row.encryptedItemKey row.encryptedPayload

theorem Echoes.still {it : VaultItem} (h : Echoes R u z it w)
    (hfeed : w'.server.itemSyncChanges.itemRows u z = w.server.itemSyncChanges.itemRows u z)
    (hvault : w'.client.vault = w.client.vault) : Echoes R u z it w' := by
  unfold Echoes at h ⊢
  rw [hfeed, hvault]
  exact h

theorem Echoes.step {it : VaultItem} (hz : z ∈ named) (hready : w.Ready u z) (hprogress : Progress R u z w)
    (hfind : w.client.vault.find? z = some it) (h : Echoes R u z it w) (hadv : Advances R u named w w')
    (hearly : w'.Early) : Echoes R u z it w' := by
  -- only the push of the item itself appends an entry of it
  cases hadv with
  | other call others fresh => exact h.still (call.untouched (others z hz) u w.server).feed rfl
  | stops run =>
    obtain ⟨run', hrun', -⟩ := hearly
    rw [run] at hrun'
    exact (nomatch hrun')
  | plans => exact h.still rfl rfl
  | pushes run ids mutations push accepts =>
    rename_i l l' plan env st db' result
    by_cases hop : ∃ op ∈ plan.operations, op.id = z
    · obtain ⟨op, hop, hid⟩ := hop
      cases hprogress with
      | waiting unsent pushes =>
        rcases pushes _ run with ⟨l₁, he⟩ | ⟨l₁, plan₁, he, hno⟩
        · exact (nomatch he)
        · cases he
          exact absurd hid (hno op hop)
      | done rested => exact absurd hid (rested.absent _ _ run op hop)
      | underway run' mem is =>
        rename_i op'
        rw [run] at run'
        cases run'
        cases List.inj_on_of_nodup_map ids mem hop (is.id.trans hid.symm)
        have ha := is.applies hready run hop
        obtain ⟨cursor, -, -, hfeed⟩ := push.feed ids hop ha
        have hcontent := is.content
        subst hid
        intro r hr
        rw [show (World.mk db' _).server.itemSyncChanges.itemRows u op.id = _ from hfeed] at hr
        rcases List.mem_append.mp hr with hr | hr
        · exact h r hr
        · rw [List.mem_singleton.mp hr]
          cases op with
          | upsert item =>
            obtain ⟨it', p, hfind', -, -, hencrypts⟩ := hcontent
            rw [hfind] at hfind'
            cases hfind'
            exact ⟨_, rfl, hencrypts⟩
          | delete item =>
            rw [hfind] at hcontent
            exact (nomatch hcontent.1)
    · have hno : ∀ op ∈ plan.operations, op.id ≠ z := fun op hmem hid => hop ⟨op, hmem, hid⟩
      exact h.still (push_absent push hno).feed rfl
  | pulls run answers accepts vault sync next => exact (hearly.not_pulls next).elim

end

/-! ## Until the run pulls -/

section
variable {κ : Type} {R : Runtime κ} {u : UserId} {z : ItemId} {named : List ItemId} {w w' : World κ}

theorem Advances.early (h : Advances R u named w w') (hearly : w'.Early) : w.Early := by
  cases h with
  | other => exact hearly
  | stops run =>
    obtain ⟨run', hrun', -⟩ := hearly
    rw [run] at hrun'
    exact (nomatch hrun')
  | plans run => exact ⟨_, run, nofun, nofun⟩
  | pushes run => exact ⟨_, run, nofun, nofun⟩
  | pulls run answers accepts vault sync next => exact (hearly.not_pulls next).elim

theorem World.Syncs.early {P : World κ → Prop} (hr : w.Syncs R u named w') (hearly : w'.Early) (h0 : P w)
    (hstep : ∀ w₁ w₂, Advances R u named w₁ w₂ → w₂.Early → P w₁ → P w₂) : P w' := by
  induction hr with
  | refl => exact h0
  | tail _ hlast ih =>
    obtain ⟨act, hallows, hact⟩ := hlast
    have hadvance := World.advances hallows hact
    exact hstep _ _ hadvance hearly (ih (hadvance.early hearly))

theorem Advances.vault (h : Advances R u named w w') (hearly : w'.Early) : w'.client.vault = w.client.vault := by
  cases h with
  | other => rfl
  | stops run =>
    obtain ⟨run', hrun', -⟩ := hearly
    rw [run] at hrun'
    exact (nomatch hrun')
  | plans => rfl
  | pushes => rfl
  | pulls run answers accepts vault sync next => exact (hearly.not_pulls next).elim

theorem Rested.run (hz : z ∈ named) (hready : w.Ready u z) (h : Rested z w) (hr : w.Syncs R u named w')
    (hearly : w'.Early) : w'.Ready u z ∧ Rested z w' ∧ Still u z w w' := by
  refine hr.early (P := fun w' => w'.Ready u z ∧ Rested z w' ∧ Still u z w w') hearly ⟨hready, h, .refl w⟩ ?_
  rintro w₁ w₂ hadv hearly₂ ⟨hready₁, hrested₁, hstill₁⟩
  obtain ⟨hready₂, hrested₂, hstill₂⟩ := hrested₁.step hz hready₁ hadv hearly₂
  exact ⟨hready₂, hrested₂, hstill₁.trans hstill₂⟩

/-- An item that is sent has come to the server when the run pulls. -/
theorem Progress.run {l : Locals κ} (hz : z ∈ named) (hready : w.Ready u z) (h : Progress R u z w)
    (hr : w.Syncs R u named w') (hpulls : w'.client.run = some (.pulling l 0)) :
    w'.Ready u z ∧ Rested z w' ∧ Uploaded R z w'.server w'.client ∧ w'.client.vault = w.client.vault ∧
      ∀ it, w.client.vault.find? z = some it → Echoes R u z it w → Echoes R u z it w' := by
  have hearly : w'.Early := by
    refine ⟨_, hpulls, fun l' page he => ?_, nofun⟩
    cases he
    rfl
  obtain ⟨hready', hprogress', hvault, hechoes⟩ :=
    hr.early (P := fun w' => w'.Ready u z ∧ Progress R u z w' ∧ w'.client.vault = w.client.vault ∧
      ∀ it, w.client.vault.find? z = some it → Echoes R u z it w → Echoes R u z it w') hearly
      ⟨hready, h, rfl, fun _ _ => id⟩ (by
        rintro w₁ w₂ hadv hearly₂ ⟨hready₁, hprogress₁, hvault₁, hechoes₁⟩
        obtain ⟨hready₂, hprogress₂⟩ := hprogress₁.step hz hready₁ hadv hearly₂
        refine ⟨hready₂, hprogress₂, (hadv.vault hearly₂).trans hvault₁, fun it hfind h0 => ?_⟩
        exact (hechoes₁ it hfind h0).step hz hready₁ hprogress₁ (hvault₁ ▸ hfind) hadv hearly₂)
  cases hprogress' with
  | waiting unsent pushes =>
    rcases pushes _ hpulls with ⟨l₁, he⟩ | ⟨l₁, plan₁, he, -⟩
    · exact (nomatch he)
    · exact (nomatch he)
  | underway run =>
    rw [hpulls] at run
    exact (nomatch run)
  | done rested uploaded => exact ⟨hready', rested, uploaded, hvault, hechoes⟩

end

end ZeroVault.Browser

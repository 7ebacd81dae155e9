import ZeroVault.ExactlyOnce
import ZeroVault.FeedIsTable

/-!
# Answers and what is stored

Claims are per user, so the pushes of another user may commit between a push's
reads and its batch. They leave the user's own rows alone (`OwnRely`), but they
may take an item id that the push found free: then the upsert does nothing, and
the push answers that it was applied (`stored_answers`).
-/

namespace ZeroVault

open Lib

def Db.ownRow (db : Db) (u : UserId) (id : ItemId) : Option VaultItemRow := (db.vaultItems.get? id).filter (·.userId = u)

structure OwnRely (u : UserId) (s s' : Db) : Prop extends Fences u s s' where
  own : s'.serverRevision u = s.serverRevision u → ∀ id, s'.ownRow u id = s.ownRow u id

section
variable {u w : UserId} {s s' s₁ s₂ s₃ : Db} {id : ItemId}

theorem ownRow_free (h : Free u (s.vaultItems.get? id)) : s.ownRow u id = s.vaultItems.get? id := filter_free h

theorem Rely.own (h : Rely u s s') : OwnRely u s s' where
  toFences := h.fences
  own he id := by
    unfold Db.ownRow
    rw [h.rows he]

theorem OwnRely.refl (u : UserId) (s : Db) : OwnRely u s s := (Rely.refl u s).own

theorem OwnRely.trans (h₁₂ : OwnRely u s₁ s₂) (h₂₃ : OwnRely u s₂ s₃) : OwnRely u s₁ s₃ where
  toFences := h₁₂.toFences.trans h₂₃.toFences
  own he id := by
    have h1 := h₁₂.revision
    have h2 := h₂₃.revision
    rw [h₂₃.own (by omega), h₁₂.own (by omega)]

/-- A batch of another user leaves the user's claims, revision and rows alone. -/
theorem foreign_own {stmts : List SyncStmt} {n : Nat} (hne : w ≠ u) (hw : Writes w n stmts)
    (hx : execBatch stmts s = some s') : OwnRely u s s' := by
  have hrev : s'.serverRevision u = s.serverRevision u :=
    batch_serverRevision_eq hx fun r hr => hne (hw.userId _ hr).symm
  refine ⟨⟨fun hu => by rw [batch_users hx, hu], Nat.le_of_eq hrev.symm, fun r => batch_claims hx (u, r), ?_⟩, ?_⟩
  · intro r h h'
    omega
  · intro _ id
    unfold Db.ownRow
    rcases batch_rows hw hx id with heq | ⟨row, hrow, hu, -, hown⟩
    · rw [heq]
    · have hrow' : row.userId ≠ u := by rw [hu]; exact hne
      rw [hrow]
      cases hb : s.vaultItems.get? id with
      | none => simp [Option.filter, hrow']
      | some row₀ =>
        have hrow₀ : row₀.userId ≠ u := by rw [hown row₀ hb]; exact hne
        simp [Option.filter, hrow', hrow₀]

theorem quiet_writes {stmts : List SyncStmt} (hq : ∀ q ∈ stmts, ∃ m row, q = .insertMutation w m row) :
    Writes w 0 stmts := by
  constructor
  · intro q hm
    obtain ⟨m, row, rfl⟩ := hq q hm
    rfl
  · intro q hm id r hr
    obtain ⟨m, row, rfl⟩ := hq q hm
    cases hr

end

section
variable {F : Formats} {u : UserId} {c : SyncCall} {tr : List SyncStep} {e : SyncStep}

/-- The batches of all users keep each user's part. -/
theorem guar_own (hg : c.guar tr e) (hb : ∀ v, Before (OwnRely v) tr e.before) : OwnRely u e.before e.after := by
  have hf : ∀ v, Before (Fences v) tr e.before := fun v => (hb v).mono fun _ _ h => h.toFences
  obtain ⟨label, b, a⟩ := e
  cases label with
  | query => cases c <;> cases (show a = b from hg) <;> exact .refl u _
  | abort stmts => cases c <;> cases (show a = b from hg) <;> exact .refl u _
  | commit stmts =>
    obtain ⟨hx, hcase⟩ := commit_cases rfl hg (hf c.userId)
    by_cases hc : c.userId = u
    · subst hc
      rcases hcase with ⟨hu, hw⟩ | hq
      · exact (hw.rely hu hx).2.own
      · exact (quiet_rely hq hx).2.2.own
    · rcases hcase with ⟨-, hw⟩ | hq
      · exact foreign_own hc hw.toWrites hx
      · exact foreign_own hc (quiet_writes hq) hx

theorem along_own {s₀ s : Db} {h : SyncHistory} {ps : List (Proc SyncCall Db (Access SyncStmt) SyncResult)}
    (hr : Reach SyncCall.code (·.Valid F) s₀ h s ps) : Along (fun s s' => ∀ u, OwnRely u s s') s₀ h := by
  refine reach_rel valid_sat (fun s u => .refl u s) (fun _ _ _ h12 h23 u => (h12 u).trans (h23 u)) ?_ hr
  intro c tr e _ _ hb hg u
  exact guar_own hg fun v => hb.mono fun _ _ h => h v

end

/-! ## What an answer promises -/

def SameEnvelopes (x y : VaultItemCiphertext) : Prop :=
  x.encryptedItemKey = y.encryptedItemKey ∧ x.encryptedPayload = y.encryptedPayload ∧
    x.encryptedSearchTokens = y.encryptedSearchTokens

instance (x y : VaultItemCiphertext) : Decidable (SameEnvelopes x y) := inferInstanceAs (Decidable (_ ∧ _))

/-- The user has a row at revision `r` with the item's envelopes, and the last
feed entry of the item describes it. -/
def Stored (u : UserId) (item : VaultItemCiphertext) (r : Nat) (v : ItemView) : Prop :=
  ∃ row ∈ v.row, row.userId = u ∧ row.revision = r ∧ row.deletedAt = none ∧
    SameEnvelopes (rowToVaultItem item.id row) item ∧ v.last = some (r, migratedChange item.id row)

instance (u : UserId) (item : VaultItemCiphertext) (r : Nat) (v : ItemView) : Decidable (Stored u item r v) :=
  inferInstanceAs (Decidable (∃ row ∈ v.row, _ ∧ _ ∧ _ ∧ _ ∧ _))

/-- The request's last upsert of the item has the item's envelopes, and the
creation time the row has or gets from the item's first upsert. -/
def SyncPushRequest.SendsLast (request : SyncPushRequest) (item : VaultItemCiphertext) (row : Option VaultItemRow) :
    Prop :=
  ∃ last ∈ request.lastUpsert? item.id, SameEnvelopes last item ∧
    some last.createdAt = (request.firstUpsert? item.id).map (creationOf row)

section
variable {u : UserId} {item x : VaultItemCiphertext} {r : Nat} {v : ItemView} {createdAt : String}

theorem stored_foreign (h : ¬ Free u v.row) : ¬ Stored u item r v := by
  rintro ⟨row, hrow, hu, -⟩
  apply h
  intro row' hrow'
  rw [hrow'] at hrow
  cases hrow
  exact hu

theorem stored_write (hid : x.id = item.id) (ho : x.ownerUserId = u) :
    Stored u item x.revision ⟨some (writeItem u x createdAt), some (x.revision, .upsert x)⟩ ↔
      SameEnvelopes x item ∧ x.createdAt = createdAt := by
  have hrow : x.createdAt = createdAt ↔
      (ItemView.mk (some (writeItem u x createdAt)) (some (x.revision, .upsert x))).Described u x.id :=
    (described_write ho).symm
  rw [hrow, hid]
  simp [Stored, ItemView.Described, feedEntry, writeItem, VaultItemRow.ofItem, rowToVaultItem, SameEnvelopes,
    Option.filter]

theorem stored_congr (hid : x.id = item.id) (he : SameEnvelopes x item) : Stored u x r v ↔ Stored u item r v := by
  obtain ⟨h1, h2, h3⟩ := he
  simp only [Stored, SameEnvelopes, hid, h1, h2, h3, rowToVaultItem]

end

/-! ## One batch -/

section
variable {F : Formats} {u : UserId} {tr : List SyncStep} {b a : Db} {stmts : List SyncStmt}

theorem stored_pushVault {env : Env} {request : SyncPushRequest} {r : Nat} {item : VaultItemCiphertext}
    (hx : execBatch (pushVaultStmts env u r request) b = some a)
    (hown : ∀ item ∈ request.upserts, item.ownerUserId = u) (hitem : item ∈ request.upserts)
    (hd : item.id ∉ request.deletes) :
    Stored u item r (a.itemView u item.id) ↔
      Free u (b.vaultItems.get? item.id) ∧ request.SendsLast item (b.vaultItems.get? item.id) := by
  rw [pushVault_view hx, if_neg hd]
  have hmem : item ∈ request.upserts.filter (·.id = item.id) := List.mem_filter.mpr ⟨hitem, by simp⟩
  obtain ⟨first, hfirst⟩ : ∃ first, (request.upserts.filter (·.id = item.id)).head? = some first := by
    cases hh : (request.upserts.filter (·.id = item.id)).head? with
    | some first => exact ⟨first, rfl⟩
    | none =>
      rw [List.head?_eq_none_iff.mp hh] at hmem
      cases hmem
  obtain ⟨last, hlast⟩ : ∃ last, (request.upserts.filter (·.id = item.id)).getLast? = some last := by
    cases hh : (request.upserts.filter (·.id = item.id)).getLast? with
    | some last => exact ⟨last, rfl⟩
    | none =>
      rw [List.getLast?_eq_none_iff.mp hh] at hmem
      cases hmem
  have hl := List.mem_filter.mp (List.mem_of_getLast? hlast)
  have hid : last.id = item.id := by simpa using hl.2
  unfold SyncPushRequest.SendsLast SyncPushRequest.lastUpsert? SyncPushRequest.firstUpsert? upsertsView
  rw [hfirst, hlast]
  -- the loop over the upserts leaves the last one of the id, where no other user has the row
  by_cases hf : Free u (b.vaultItems.get? item.id)
  · have hall : (b.itemView u item.id).row.all (·.userId = u) = true := all_eq_true_iff.mpr hf
    dsimp only
    rw [if_pos hall]
    have hstored := @stored_write u item (atRevision r last) (creationOf (b.vaultItems.get? item.id) first) hid (hown last hl.1)
    refine hstored.trans ?_
    constructor
    · rintro ⟨henv, hcreated⟩
      exact ⟨hf, last, rfl, henv, congrArg some hcreated⟩
    · rintro ⟨-, last', hl', henv, hcreated⟩
      cases hl'
      exact ⟨henv, Option.some.inj hcreated⟩
  · have hall : ¬ (b.itemView u item.id).row.all (·.userId = u) = true := fun h => hf (all_eq_true_iff.mp h)
    dsimp only
    rw [if_neg hall]
    constructor
    · intro hstored
      exact absurd hstored (stored_foreign hf)
    · intro h
      exact absurd h.1 hf

theorem stored_pushItem {env : Nat → Env} {plan : ItemLevelSyncPlan} (hv : itemLevelSyncPlanSchema F plan = true)
    (hg : PushItemGuar env u plan tr ⟨.commit stmts, b, a⟩) (hb : Before (OwnRely u) tr b) {m : MutationId}
    {fp : RequestFingerprint} {id : ItemId} {r : Nat}
    (hm : .insertMutation u m ⟨fp, .applied .upsert id r⟩ ∈ stmts) :
    ∃ item ∈ plan.upserts, fp = (Operation.upsert item).requestFingerprint ∧ id = item.id ∧
      (Stored u item.toVaultItemCiphertext r (a.itemView u item.id) ↔ Free u (b.vaultItems.get? item.id)) := by
  obtain ⟨hx, old, s₁, s₂, s₃, st, rfl, ha, rfl⟩ := hg
  obtain ⟨n, hst⟩ := ha.loop
  -- a receipt in the batch is a conflict's, or that of an operation that applies
  obtain ⟨-, op, hop, rfl, hfp, -, ⟨c, -, hc⟩ | ⟨hap, hw, hres⟩⟩ := batchStmts_insertMutation hst hm
  · cases hc
  cases op with
  | delete item => cases hres
  | upsert item =>
    cases hres
    have hmem : item ∈ plan.upserts := by
      unfold ItemLevelSyncPlan.operations at hop
      simpa using hop
    refine ⟨item, hmem, hfp, rfl, ?_⟩
    have hids : (plan.operations.map (·.id)).Nodup := (schema_nodup hv).1
    have hview : a.itemView u item.id = (applyStmts (env n) (pushViewAt u plan s₁ s₂ s₃) (.upsert item)).foldl
        (SyncStmt.onItem u item.id) (b.itemView u item.id) := push_view hst hids hop hap hx u
    rw [hview]
    by_cases hf : Free u (b.vaultItems.get? item.id)
    · -- the row that the push read is the row it writes onto
      obtain ⟨-, hfree, -⟩ := applies_found hap
      have hread : (pushViewAt u plan s₁ s₂ s₃).itemRowsById item.id = s₂.vaultItems.get? item.id := by
        have hids : item.id ∈ plan.operations.map (·.id) := List.mem_map_of_mem (f := (·.id)) hop
        simp only [pushViewAt, selectItemRows, if_pos hids]
      have hfree₂ : Free u (s₂.vaultItems.get? item.id) := fun row hrow => hfree row (hread.trans hrow)
      obtain ⟨-, hrev⟩ := push_current hw hx (hb.mono fun _ _ h => h.toFences)
      have h2 : OwnRely u s₂ b := hb.now (queryStep s₂) (by simp)
      have hrow : (pushViewAt u plan s₁ s₂ s₃).itemRowsById item.id = (b.itemView u item.id).row := by
        rw [hread, ← ownRow_free hfree₂, ← h2.own hrev, ownRow_free hf]
        rfl
      have hfold : (applyStmts (env n) (pushViewAt u plan s₁ s₂ s₃) (.upsert item)).foldl (SyncStmt.onItem u item.id)
          (b.itemView u item.id) = _ := upsert_onItem_free hrow hf
      rw [hfold]
      have hstored := @stored_write u item.toVaultItemCiphertext (nextItem (pushViewAt u plan s₁ s₂ s₃) item)
        (nextItem (pushViewAt u plan s₁ s₂ s₃) item).createdAt rfl rfl
      constructor
      · exact fun _ => hf
      · exact fun _ => hstored.mpr ⟨⟨rfl, rfl, rfl⟩, rfl⟩
    · have hfold : (applyStmts (env n) (pushViewAt u plan s₁ s₂ s₃) (.upsert item)).foldl (SyncStmt.onItem u item.id)
          (b.itemView u item.id) = _ := upsert_onItem item
      have hforeign : (SyncStmt.upsertVaultItem u (nextItem (pushViewAt u plan s₁ s₂ s₃) item)).itemRow item.id
          (b.itemView u item.id).row = (b.itemView u item.id).row := itemRow_foreign _ hf
      have hfold := hfold.trans (congrArg (ItemView.mk · _) hforeign)
      rw [hfold]
      constructor
      · intro hstored
        exact absurd hstored (stored_foreign hf)
      · exact fun h => absurd h hf

end

/-! ## Runs -/

section
variable {F : Formats} {s₀ s : Db} {h : SyncHistory} {ps : List (Proc SyncCall Db (Access SyncStmt) SyncResult)}
variable {u : UserId} {m : MutationId} {row : ItemSyncMutationRow} {i : Nat}

/-- A receipt that was not there in the beginning was inserted by a batch of an
item-level push of the user. -/
theorem receipt_commit (hr : Reach SyncCall.code (·.Valid F) s₀ h s ps)
    (h0 : s₀.itemSyncMutations.get? (u, m) = none) (hrow : s.itemSyncMutations.get? (u, m) = some row) :
    ∃ h₁ j env plan stmts b a h₂,
      h = h₁ ++ .step j (.pushItemLevelSync env u plan) ⟨.commit stmts, b, a⟩ :: h₂ ∧
        .insertMutation u m row ∈ stmts ∧ PushItemGuar env u plan (own j h₁) ⟨.commit stmts, b, a⟩ := by
  have hmissing : ¬ s₀.itemSyncMutations.get? (u, m) = some row := by
    rw [h0]
    exact nofun
  obtain ⟨h₁, j, c, ⟨label, b, a⟩, h₂, rfl, hb, ha⟩ :=
    reach_appears (p := fun s => s.itemSyncMutations.get? (u, m) = some row) hr hmissing hrow
  obtain ⟨-, -, hg⟩ := reach_step valid_sat hr
  rcases guar_step hg with ⟨stmts, hl, hx⟩ | ⟨-, he⟩
  · cases hl
    have hm : .insertMutation u m row ∈ stmts := (batch_receipt_from hx ha).resolve_left hb
    cases c with
    | pushVault env w request =>
      obtain ⟨-, s₁, rest, -, -, -, -, rfl⟩ := hg
      rcases pushVaultStmts_cases hm with he | he | he
      · cases he
      · cases he
      · exact absurd rfl (he.2.2.2 u m row)
    | pushItemLevelSync env w plan =>
      obtain rfl : u = w := by
        obtain ⟨-, old, s₁, s₂, s₃, st, -, ⟨-, n, hst⟩, rfl⟩ := hg
        exact (batchStmts_insertMutation hst hm).1
      exact ⟨h₁, j, env, plan, stmts, b, a, h₂, rfl, hm, hg⟩
  · rw [show a = b from he] at ha
    exact absurd ha hb

theorem reported_receipt {env : Nat → Env} {plan : ItemLevelSyncPlan} {result : ItemLevelSyncPushResult}
    (hr : Reach SyncCall.code (·.Valid F) s₀ h s ps)
    (hp : ps[i]? = some ⟨.pushItemLevelSync env u plan, .ret (.pushItemLevelSync (.ok result))⟩)
    {receipt : AppliedMutationReceipt} (hmem : receipt ∈ result.applied.mutationReceipts) :
    ∃ op ∈ plan.operations, op.clientMutationId = receipt.clientMutationId ∧
      s.itemSyncMutations.get? (u, receipt.clientMutationId) =
        some ⟨op.requestFingerprint, .applied receipt.operation receipt.itemId receipt.appliedItemRevision⟩ := by
  obtain ⟨answers, hall, -, hperm⟩ := answers_recorded hr hp
  obtain ⟨ans, hans, hrec⟩ := List.mem_filterMap.mp (hperm.mem_iff.mp hmem)
  obtain ⟨k, hk, rfl⟩ := List.getElem_of_mem hans
  have hk' : k < plan.operations.length := by rw [hall.length_eq]; exact hk
  obtain ⟨⟨fp, res⟩, hrow, hanswer⟩ := hall.get hk' hk
  have hget : answers.get ⟨k, hk⟩ = .receipt receipt := by
    rw [List.get_eq_getElem]
    cases hc : answers[k] with
    | receipt r =>
      rw [hc] at hrec
      cases hrec
      rfl
    | conflict c =>
      rw [hc] at hrec
      cases hrec
  rw [hget] at hanswer
  refine ⟨plan.operations.get ⟨k, hk'⟩, List.get_mem .., ?_⟩
  unfold Answered at hanswer
  split at hanswer
  · rename_i hfp
    cases res with
    | conflict c => cases hanswer
    | applied kind id revision =>
      cases hanswer
      have hfp : fp = (plan.operations.get ⟨k, hk'⟩).requestFingerprint := hfp
      exact ⟨rfl, by rw [← hfp]; exact hrow⟩
  · obtain ⟨c, hc, -⟩ := hanswer
    cases hc

/-- In every run of pushes of any users. A reported upsert whose receipt is of
this run is stored by the batch that inserted the receipt if and only if no
other user had the item then. A whole-vault push that answers `ok` committed its
batch at the revision it answers, and each upsert that it does not delete again
is stored if and only if no other user had the item and the request's last
upsert of it sends its envelopes and the creation time that the row has. -/
theorem stored_answers (hr : Reach SyncCall.code (·.Valid F) s₀ h s ps) :
    (∀ (i : Nat) env u plan result,
      ps[i]? = some ⟨.pushItemLevelSync env u plan, .ret (.pushItemLevelSync (.ok result))⟩ →
      ∀ receipt ∈ result.applied.mutationReceipts, receipt.operation = .upsert →
        s₀.itemSyncMutations.get? (u, receipt.clientMutationId) = none →
        ∃ item ∈ plan.upserts, item.clientMutationId = receipt.clientMutationId ∧ item.id = receipt.itemId ∧
          ∃ j c stmts b a, .step j c ⟨.commit stmts, b, a⟩ ∈ h ∧
            stmts.any (·.records u receipt.clientMutationId) = true ∧
            (Stored u item.toVaultItemCiphertext receipt.appliedItemRevision (a.itemView u item.id) ↔
              Free u (b.vaultItems.get? item.id))) ∧
    (∀ (i : Nat) env u request r, ps[i]? = some ⟨.pushVault env u request, .ret (.pushVault (.ok (.ok r)))⟩ →
      ∃ b a, .step i (.pushVault env u request) ⟨.commit (pushVaultStmts env u r request), b, a⟩ ∈ h ∧
        ∀ item ∈ request.upserts, item.id ∉ request.deletes →
          (Stored u item r (a.itemView u item.id) ↔
            Free u (b.vaultItems.get? item.id) ∧ request.SendsLast item (b.vaultItems.get? item.id))) := by
  constructor
  · intro i env u plan result hp receipt hmem hk h0
    obtain ⟨op, hop, hid, hrow⟩ := reported_receipt hr hp hmem
    obtain ⟨h₁, j, env', plan', stmts, b, a, h₂, rfl, hm, hg⟩ := receipt_commit hr h0 hrow
    obtain ⟨hv, hbef, -⟩ := reach_step valid_sat hr
    have hb : Before (OwnRely u) (own j h₁) b := by
      obtain ⟨ps₁, hr₁⟩ := reach_prefix hr
      have hbef : b = storeAfter s₀ h₁ := hbef
      rw [← hbef] at hr₁
      exact ((along_own hr).init.before hr₁ j).mono fun _ _ h => h u
    rw [hk] at hm
    obtain ⟨item', -, hfp, hitem, hstored⟩ := stored_pushItem hv hg hb hm
    cases op with
    | delete item => cases hfp
    | upsert item =>
      simp only [Operation.requestFingerprint, RequestFingerprint.upsert.injEq] at hfp
      obtain ⟨hids, -, -, -, -, h1, h2, h3, -⟩ := hfp
      have hmem : item ∈ plan.upserts := by
        unfold ItemLevelSyncPlan.operations at hop
        simpa using hop
      refine ⟨item, hmem, hid, hids.trans hitem.symm, j, .pushItemLevelSync env' u plan', stmts,
        b, a, by simp, ?_, ?_⟩
      · rw [List.any_eq_true]
        exact ⟨_, hm, by simp [SyncStmt.records]⟩
      · rw [hids]
        exact (stored_congr hids ⟨h1, h2, h3⟩).trans hstored
  · intro i env u request r hp
    obtain ⟨⟨label, b, a⟩, he, hl⟩ := reach_result valid_sat hr hp r rfl
    cases hl
    obtain ⟨c, hc⟩ := mem_own.mp he
    obtain ⟨p, hp', hcall⟩ := reach_call hr _ hc
    have hp' : ps[i]? = some p := hp'
    rw [hp] at hp'
    cases hp'
    have hcall : SyncCall.pushVault env u request = c := hcall
    subst hcall
    obtain ⟨h₁, h₂, rfl⟩ := List.append_of_mem hc
    obtain ⟨-, -, hx, s₁, rest, -, -, -, hchecked, -⟩ := reach_step valid_sat hr
    exact ⟨b, a, hc, fun item hitem hd => stored_pushVault hx (fun item hitem => (hchecked item hitem).1) hitem hd⟩

end

/-! ## Two users, one item id -/

def otherUser : UserId := "0b8f8ed0-4c1a-4e0e-9d5e-0d1c5a0a0009"

def twoUsers : Db :=
  { users := (sampleStore.users.set otherUser { sampleUserRow with email := "b@example.org" }) }

def otherUpsert : ItemLevelEncryptedUpsert :=
  { sampleUpsert with
    ownerUserId := otherUser
    clientMutationId := "0b8f8ed0-4c1a-4e0e-9d5e-0d1c5a0a000a" }

def otherPush : SyncCall := .pushItemLevelSync (fun _ => ⟨id, id⟩) otherUser ⟨0, [otherUpsert], []⟩

/-- Both pushes find the item id free; the first one to commit takes it. -/
def racingPushes : Play SyncCall Db (Access SyncStmt) SyncResult :=
  play SyncCall.code twoUsers
    [.issue samplePush, .issue otherPush, .step 0, .step 0, .step 0, .step 1, .step 1, .step 1, .step 0, .step 1]

theorem racingPushes_reach :
    Reach SyncCall.code (·.Valid sampleFormats) twoUsers racingPushes.1 racingPushes.2.1 racingPushes.2.2 := by
  unfold racingPushes
  apply play_reach
  intro c hc
  simp only [List.mem_cons, Move.issue.injEq, reduceCtorEq, List.not_mem_nil, or_false] at hc
  rcases hc with rfl | rfl
  · exact samplePush_valid
  · unfold SyncCall.Valid otherPush
    decide

/-- `stored_answers` for the push that took the id. -/
theorem stored_answers_racingPushes :
    ∃ item ∈ [sampleUpsert], ∃ j c stmts b a, .step j c ⟨.commit stmts, b, a⟩ ∈ racingPushes.1 ∧
      stmts.any (·.records sampleUser sampleUpsert.clientMutationId) = true ∧
      (Stored sampleUser item.toVaultItemCiphertext 1 (a.itemView sampleUser item.id) ↔
        Free sampleUser (b.vaultItems.get? item.id)) := by
  obtain ⟨result, hp, hmem⟩ : ∃ result,
      racingPushes.2.2[0]? = some ⟨samplePush, .ret (.pushItemLevelSync (.ok result))⟩ ∧
        ⟨sampleUpsert.clientMutationId, sampleUpsert.id, .upsert, 1⟩ ∈ result.applied.mutationReceipts :=
    ⟨_, rfl, by decide⟩
  obtain ⟨item, hitem, -, -, hstored⟩ := (stored_answers racingPushes_reach).1 0 _ _ _ _ hp _ hmem rfl rfl
  exact ⟨item, hitem, hstored⟩

/-- Unless the step commits a batch that records the other upsert and stores it. -/
def otherNotStored : Event SyncCall Db (Access SyncStmt) → Bool
  | .step _ _ ⟨.commit stmts, _, a⟩ => !(stmts.any (·.records otherUser otherUpsert.clientMutationId) &&
      decide (Stored otherUser otherUpsert.toVaultItemCiphertext 1 (a.itemView otherUser otherUpsert.id)))
  | _ => true

/-- The other push answers that its upsert was applied, and no batch stored it. -/
theorem answer_not_stored : ¬ ∀ h s ps, Reach SyncCall.code (·.Valid sampleFormats) twoUsers h s ps →
    ∀ (i : Nat) env u plan result,
      ps[i]? = some ⟨.pushItemLevelSync env u plan, .ret (.pushItemLevelSync (.ok result))⟩ →
      ∀ receipt ∈ result.applied.mutationReceipts, ∀ item ∈ plan.upserts,
        item.clientMutationId = receipt.clientMutationId →
        ∃ j c stmts b a, .step j c ⟨.commit stmts, b, a⟩ ∈ h ∧
          stmts.any (·.records u receipt.clientMutationId) = true ∧
          Stored u item.toVaultItemCiphertext receipt.appliedItemRevision (a.itemView u item.id) := by
  intro hall
  obtain ⟨result, hp, hmem⟩ : ∃ result,
      racingPushes.2.2[1]? = some ⟨otherPush, .ret (.pushItemLevelSync (.ok result))⟩ ∧
        ⟨otherUpsert.clientMutationId, otherUpsert.id, .upsert, 1⟩ ∈ result.applied.mutationReceipts :=
    ⟨_, rfl, by decide⟩
  obtain ⟨j, c, stmts, b, a, he, hrec, hstored⟩ := hall _ _ _ racingPushes_reach 1 _ _ _ _ hp _ hmem otherUpsert
    List.mem_cons_self rfl
  have hnone : racingPushes.1.all otherNotStored = true := by
    decide +kernel
  have hno := List.all_eq_true.mp hnone _ he
  have hrec' : stmts.any (·.records otherUser otherUpsert.clientMutationId) = true := hrec
  have hstored' : Stored otherUser otherUpsert.toVaultItemCiphertext 1 (a.itemView otherUser otherUpsert.id) := hstored
  simp [otherNotStored, hrec', hstored'] at hno

end ZeroVault

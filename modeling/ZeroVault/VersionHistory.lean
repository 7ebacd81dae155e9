import ZeroVault.FeedIsTable
import ZeroVault.PushAnswers

/-!
# The versions of an item

A push writes every version of an item twice, into the history table and into
the change feed. Neither is ever rewritten by a push, and each version has a
revision above all before it. So the history of an item is what the feed has of
it, newest first, as long as a whole-vault push names an item once.
-/

namespace ZeroVault

open Lib

def historyRows (u : UserId) (x : ItemId) (db : Db) : List VaultItemHistoryRow :=
  (db.vaultItemHistory.select fun _ r => r.userId = u && r.itemId = x).map Prod.snd

/-- `ORDER BY revision DESC`. -/
def itemVersions (u : UserId) (x : ItemId) (db : Db) : List VaultItemCiphertext :=
  ((historyRows u x db).mergeSort fun a b => b.revision ≤ a.revision).map (·.snapshot)

def getItemHistory (userId : UserId) (itemId : ItemId) : SyncProg (List VaultItemCiphertext) :=
  Prog.query .query (itemVersions userId itemId)

def itemChanges (u : UserId) (x : ItemId) (db : Db) : List ItemLevelChange :=
  (db.itemSyncChanges.itemRows u x).map (·.change)

def VaultItemHistoryRow.of (u : UserId) (item : VaultItemCiphertext) : VaultItemHistoryRow :=
  ⟨item.id, u, item.revision, item⟩

/-! ## One statement -/

def SyncStmt.kept (u : UserId) (x : ItemId) : SyncStmt → List VaultItemCiphertext
  | insertHistory _ w item => if w = u ∧ item.id = x then [item] else []
  | _ => []

def SyncStmt.shown (u : UserId) (x : ItemId) : SyncStmt → List VaultItemCiphertext
  | insertUpsertChange w item => if w = u ∧ item.id = x then [item] else []
  | _ => []

/-- The revision of the item's entry that it may put into the feed. -/
def SyncStmt.named (u : UserId) (x : ItemId) : SyncStmt → List Nat
  | insertUpsertChange w item => if w = u ∧ item.id = x then [item.revision] else []
  | insertDeleteChange w id n _ | insertDeleteChangeIfDeleted w id n _ => if w = u ∧ id = x then [n] else []
  | _ => []

section
variable {u : UserId} {x : ItemId} {q : SyncStmt} {db db' b a : Db} {stmts : List SyncStmt}

theorem exec_historyRows (h : q.exec db = some db') :
    historyRows u x db' = historyRows u x db ++ (q.kept u x).map (.of u) := by
  -- only one statement writes the history
  cases q with
  | insertHistory id w item =>
    simp only [SyncStmt.exec] at h
    split at h
    · obtain ⟨t, ht, rfl⟩ := Option.map_eq_some_iff.mp h
      unfold Table.insert at ht
      split at ht
      · cases ht
        simp only [historyRows, Table.select, List.filter_append, List.map_append, SyncStmt.kept, List.filter_singleton]
        by_cases hw : w = u
        · by_cases hid : item.id = x <;> simp [hw, hid, VaultItemHistoryRow.of]
        · simp [hw]
      · cases ht
    · cases h
  | claimRevision w r =>
    obtain ⟨-, t, -, rfl⟩ := exec_claimRevision h
    exact (List.append_nil _).symm
  | upsertVaultItem w item =>
    obtain ⟨⟨t, rfl⟩, -⟩ := exec_upsertVaultItem h
    exact (List.append_nil _).symm
  | insertUpsertChange w item =>
    obtain ⟨-, rfl⟩ := appendChange_eq h
    exact (List.append_nil _).symm
  | insertDeleteChangeIfDeleted w id n ts =>
    obtain ⟨t, rfl⟩ := exec_insertDeleteChangeIfDeleted h
    exact (List.append_nil _).symm
  | insertDeleteChange w id n ts =>
    obtain ⟨-, rfl⟩ := appendChange_eq h
    exact (List.append_nil _).symm
  | insertMutation w m row =>
    obtain ⟨t, -, rfl⟩ := exec_insertMutation h
    exact (List.append_nil _).symm
  | _ =>
    cases h
    exact (List.append_nil _).symm

theorem append_itemChanges {t : ItemSyncChanges} {w : UserId} {i : ItemId} {n : Nat} {c : ItemLevelChange} :
    ((t.append w i n c).itemRows u x).map (·.change) =
      (t.itemRows u x).map (·.change) ++ if w = u ∧ c.itemId = x then [c] else [] := by
  unfold ItemSyncChanges.itemRows ItemSyncChanges.append
  rw [List.filter_append, List.map_append, List.filter_singleton]
  by_cases hw : w = u <;> by_cases hid : c.itemId = x <;> simp [hw, hid]

theorem exec_itemChanges (h : q.exec db = some db') : ∃ es, itemChanges u x db' = itemChanges u x db ++ es ∧
    es.filterMap ItemLevelChange.live? = q.shown u x ∧ (es.map ItemLevelChange.revision).Sublist (q.named u x) := by
  have hfeed := exec_feed h
  unfold itemChanges
  cases hc : q.change? db.vaultItems.get? with
  | none =>
    rw [hc] at hfeed
    refine ⟨[], by rw [hfeed, List.append_nil], ?_, List.nil_sublist _⟩
    cases q with
    | insertUpsertChange => cases hc
    | _ => rfl
  | some p =>
    obtain ⟨w, i, n, c⟩ := p
    rw [hc] at hfeed
    have hsame : q.shown u x = (if w = u ∧ c.itemId = x then [c] else []).filterMap ItemLevelChange.live? ∧
        q.named u x = (if w = u ∧ c.itemId = x then [c] else []).map ItemLevelChange.revision := by
      cases q with
      | insertUpsertChange v item =>
        cases hc
        constructor <;> by_cases hmine : w = u ∧ item.id = x <;>
          simp [SyncStmt.shown, SyncStmt.named, ItemLevelChange.itemId, hmine, ItemLevelChange.live?,
            ItemLevelChange.revision]
      | insertDeleteChange v id m ts =>
        cases hc
        constructor <;> by_cases hmine : w = u ∧ i = x <;>
          simp [SyncStmt.shown, SyncStmt.named, ItemLevelChange.itemId, hmine, ItemLevelChange.live?,
            ItemLevelChange.revision]
      | insertDeleteChangeIfDeleted v id m ts =>
        obtain ⟨r, -, hr⟩ := Option.map_eq_some_iff.mp hc
        cases hr
        constructor <;> by_cases hmine : w = u ∧ i = x <;>
          simp [SyncStmt.shown, SyncStmt.named, ItemLevelChange.itemId, hmine, ItemLevelChange.live?,
            ItemLevelChange.revision]
      | _ => cases hc
    exact ⟨_, by rw [hfeed, append_itemChanges], hsame.1.symm, hsame.2 ▸ List.Sublist.refl _⟩

theorem batch_versions (hx : execBatch stmts b = some a) :
    historyRows u x a = historyRows u x b ++ (stmts.flatMap (·.kept u x)).map (.of u) ∧
      ∃ es, itemChanges u x a = itemChanges u x b ++ es ∧
        es.filterMap ItemLevelChange.live? = stmts.flatMap (·.shown u x) ∧
        (es.map ItemLevelChange.revision).Sublist (stmts.flatMap (·.named u x)) := by
  induction stmts generalizing b with
  | nil =>
    cases hx
    exact ⟨(List.append_nil _).symm, [], (List.append_nil _).symm, rfl, List.Sublist.refl _⟩
  | cons q stmts ih =>
    obtain ⟨m, hq, hx⟩ := (execAll_cons _).mp hx
    obtain ⟨hrows, es, hchanges, hlive, hnamed⟩ := ih hx
    obtain ⟨es', hchanges', hlive', hnamed'⟩ := exec_itemChanges (u := u) (x := x) hq
    refine ⟨?_, es' ++ es, ?_, ?_, ?_⟩
    · rw [hrows, exec_historyRows hq, List.flatMap_cons, List.map_append, List.append_assoc]
    · rw [hchanges, hchanges', List.append_assoc]
    · rw [List.filterMap_append, hlive', hlive, List.flatMap_cons]
    · rw [List.map_append, List.flatMap_cons]
      exact hnamed'.append hnamed

/-! ## One batch -/

/-- The batch puts the same versions of the item into the feed and into the
history, all at one revision, and one version only if no request names an item
twice (`single`). -/
structure WritesVersions (single : Prop) (u : UserId) (x : ItemId) (n : Nat) (stmts : List SyncStmt) : Prop where
  same : stmts.flatMap (·.kept u x) = stmts.flatMap (·.shown u x)
  now : ∀ m ∈ stmts.flatMap (·.named u x), m = n
  once : single → (stmts.flatMap (·.named u x)).Sublist [n]

/-- Of a list whose keys are distinct, one element at most has a given key. -/
theorem flatMap_once {α β κ : Type} {key : α → κ} {f : α → List β} {k : κ} {t : List β} : ∀ {l : List α},
    (l.map key).Nodup → (∀ e ∈ l, key e ≠ k → f e = []) → (∀ e ∈ l, key e = k → (f e).Sublist t) →
    (l.flatMap f).Sublist t
  | [], _, _, _ => List.nil_sublist _
  | e :: l, hnd, hother, hthis => by
    rw [List.map_cons, List.nodup_cons] at hnd
    rw [List.flatMap_cons]
    by_cases he : key e = k
    · have hrest : l.flatMap f = [] := List.flatMap_eq_nil_iff.mpr fun e' he' =>
        hother e' (List.mem_cons_of_mem _ he') fun hk => hnd.1 (he.trans hk.symm ▸ List.mem_map_of_mem he')
      rw [hrest, List.append_nil]
      exact hthis e List.mem_cons_self he
    · rw [hother e List.mem_cons_self he, List.nil_append]
      exact flatMap_once hnd.2 (fun e' he' => hother e' (List.mem_cons_of_mem _ he'))
        fun e' he' => hthis e' (List.mem_cons_of_mem _ he')

def SyncPushRequest.NamesOnce (request : SyncPushRequest) : Prop :=
  (request.upserts.map (·.id) ++ request.deletes).Nodup

section
variable {env : Env} {request : SyncPushRequest} {n : Nat}

theorem legacyUpsert_named {p : VaultItemCiphertext × Nat} :
    (legacyUpsertStmts env u n p.1 p.2).flatMap (·.named u x) = if p.1.id = x then [n] else [] := by
  by_cases hid : p.1.id = x <;> simp [legacyUpsertStmts, SyncStmt.named, hid]

theorem legacyDelete_named {ts : String} {id : ItemId} :
    (legacyDeleteStmts u n ts id).flatMap (·.named u x) = if id = x then [n] else [] := by
  by_cases hid : id = x <;> simp [legacyDeleteStmts, SyncStmt.named, hid]

theorem pushVault_named : (pushVaultStmts env u n request).flatMap (·.named u x) =
    request.upserts.zipIdx.flatMap (fun p => if p.1.id = x then [n] else []) ++
      request.deletes.flatMap fun id => if id = x then [n] else [] := by
  have hclaim : SyncStmt.named u x (.claimRevision u n) = [] := rfl
  have hset : SyncStmt.named u x (.setServerRevision u n) = [] := rfl
  simp only [pushVaultStmts, List.flatMap_cons, List.flatMap_append, List.flatMap_assoc, legacyUpsert_named,
    legacyDelete_named, hclaim, hset, List.nil_append]

theorem pushVault_single (hnames : request.NamesOnce) :
    ((pushVaultStmts env u n request).flatMap (·.named u x)).Sublist [n] := by
  obtain ⟨hups, hdels, hapart⟩ := List.nodup_append.mp hnames
  have hother : ∀ id : ItemId, id ≠ x → (if id = x then [n] else []) = [] := fun id hid => if_neg hid
  have hthis : ∀ id : ItemId, id = x → (if id = x then [n] else []).Sublist [n] := fun id hid => by
    rw [if_pos hid]
  rw [pushVault_named]
  by_cases hx : x ∈ request.deletes
  · have hnone : request.upserts.zipIdx.flatMap (fun p => if p.1.id = x then [n] else []) = [] := by
      refine List.flatMap_eq_nil_iff.mpr fun p hp => hother _ fun hid => ?_
      have hmem : p.1 ∈ request.upserts := List.zipIdx_map_fst 0 request.upserts ▸ List.mem_map_of_mem hp
      exact hapart _ (List.mem_map_of_mem hmem) _ (hid ▸ hx) rfl
    rw [hnone, List.nil_append]
    exact flatMap_once (k := x) (by rwa [List.map_id']) (fun id _ => hother id) fun id _ => hthis id
  · have hnone : request.deletes.flatMap (fun id => if id = x then [n] else []) = [] :=
      List.flatMap_eq_nil_iff.mpr fun id hid => hother id fun he => hx (he ▸ hid)
    rw [hnone, List.append_nil]
    have hzip : request.upserts.zipIdx.map (fun p => p.1.id) = request.upserts.map (·.id) := by
      conv_rhs => rw [← List.zipIdx_map_fst 0 request.upserts, List.map_map]
      rfl
    exact flatMap_once (k := x) (hzip ▸ hups) (fun p _ => hother _) fun p _ => hthis _

theorem pushVault_versions {single : Prop} (hnames : single → request.NamesOnce) :
    WritesVersions single u x n (pushVaultStmts env u n request) where
  same := by
    simp only [pushVaultStmts, legacyUpsertStmts, legacyDeleteStmts, List.flatMap_cons, List.flatMap_append,
      List.flatMap_assoc, List.flatMap_nil, SyncStmt.kept, SyncStmt.shown, List.nil_append, List.append_nil]
  now m hm := by
    rw [pushVault_named, List.mem_append, List.mem_flatMap, List.mem_flatMap] at hm
    rcases hm with ⟨p, -, hm⟩ | ⟨id, -, hm⟩
    · split at hm
      · exact List.mem_singleton.mp hm
      · cases hm
    · split at hm
      · exact List.mem_singleton.mp hm
      · cases hm
  once hs := pushVault_single (hnames hs)

end

theorem contribution_named (env : Env) (view : PushView) (op : Operation) :
    (contribution env view op).stmts = [] ∨ (contribution env view op).stmts = applyStmts env view op := by
  rcases operation_cases view op with ⟨previous, hp⟩ | ⟨hp, c, hc⟩ | ha
  · rw [contribution_replay hp, (replay_lists previous).1]
    exact .inl rfl
  · rw [contribution_conflict hp hc]
    exact .inl rfl
  · rw [contribution_applies ha]
    exact .inr rfl

theorem batchStmts_flatMap {α : Type} {env : Env} {view : PushView} {ops : List Operation} {st : PushState}
    (hst : LoopResult env view ops st) {f : SyncStmt → List α} (hclaim : ∀ w r, f (.claimRevision w r) = [])
    (hset : ∀ w r, f (.setServerRevision w r) = []) (hmutation : ∀ w m row, f (.insertMutation w m row) = []) :
    (st.batchStmts view).flatMap f = ops.flatMap fun op => (contribution env view op).stmts.flatMap f := by
  have hreceipts : (st.receiptStmts view).flatMap f = [] := by
    refine List.flatMap_eq_nil_iff.mpr fun q hq => ?_
    obtain ⟨r, -, rfl⟩ := List.mem_map.mp hq
    exact hmutation _ _ _
  unfold PushState.batchStmts
  split
  · simp [hclaim, hset, hreceipts, hst.stmts, List.flatMap_assoc]
  · simp [hreceipts, hst.stmts, List.flatMap_assoc]

section
variable {env : Env} {view : PushView} {ops : List Operation} {st : PushState}

theorem operation_named (env : Env) (view : PushView) (op : Operation) :
    ((contribution env view op).stmts.flatMap (·.named view.userId x)).Sublist
      (if op.id = x then [view.nextRevision] else []) := by
  rcases contribution_named env view op with h | h <;> rw [h]
  · exact List.nil_sublist _
  · cases op with
    | upsert item =>
      by_cases hid : item.id = x <;> simp [applyStmts, SyncStmt.named, Operation.id, nextItem, hid]
    | delete item =>
      simp only [applyStmts]
      split
      · by_cases hid : item.id = x <;> simp [SyncStmt.named, Operation.id, hid]
      · exact List.nil_sublist _

theorem batchStmts_single (hst : LoopResult env view ops st) (hids : (ops.map (·.id)).Nodup) :
    ((st.batchStmts view).flatMap (·.named view.userId x)).Sublist [view.nextRevision] := by
  rw [batchStmts_flatMap hst (fun _ _ => rfl) (fun _ _ => rfl) fun _ _ _ => rfl]
  refine flatMap_once (k := x) hids (fun op _ hid => ?_) fun op _ hid => ?_
  · have h := operation_named (x := x) env view op
    rw [if_neg hid] at h
    exact List.sublist_nil.mp h
  · have h := operation_named (x := x) env view op
    rwa [if_pos hid] at h

theorem batchStmts_versions {single : Prop} (hst : LoopResult env view ops st) (hids : (ops.map (·.id)).Nodup) :
    WritesVersions single view.userId x view.nextRevision (st.batchStmts view) where
  same := by
    rw [batchStmts_flatMap hst (fun _ _ => rfl) (fun _ _ => rfl) fun _ _ _ => rfl,
      batchStmts_flatMap hst (fun _ _ => rfl) (fun _ _ => rfl) fun _ _ _ => rfl]
    refine List.flatMap_congr fun op _ => ?_
    rcases contribution_named env view op with h | h <;> rw [h]
    · rfl
    · cases op with
      | upsert item => rfl
      | delete item =>
        simp only [applyStmts]
        split <;> rfl
  now m hm := List.mem_singleton.mp ((batchStmts_single hst hids).subset hm)
  once _ := batchStmts_single hst hids

end

end

/-! ## Whole runs -/

def SyncCall.NamesOnce : SyncCall → Prop
  | pushVault _ _ request => request.NamesOnce
  | pushItemLevelSync .. => True

/-- What the pushes between two stores did to the item, entry by entry. -/
structure Changed (single : Prop) (u : UserId) (x : ItemId) (s s' : Db) (es : List ItemLevelChange) : Prop where
  feed : itemChanges u x s' = itemChanges u x s ++ es
  history : historyRows u x s' = historyRows u x s ++ (es.filterMap ItemLevelChange.live?).map (.of u)
  ascending : es.Pairwise fun c d => c.revision ≤ d.revision
  strict : single → es.Pairwise fun c d => c.revision < d.revision
  revision : s.serverRevision u ≤ s'.serverRevision u
  above : ∀ c ∈ es, s.serverRevision u < c.revision ∧ c.revision ≤ s'.serverRevision u

section
variable {F : Formats} {u : UserId} {x : ItemId} {c : SyncCall} {tr : List SyncStep} {e : SyncStep}
variable {s s' s₀ s₁ s₂ s₃ b a : Db} {stmts : List SyncStmt} {es es' : List ItemLevelChange} {n : Nat} {single : Prop}

theorem Changed.refl (single : Prop) (u : UserId) (x : ItemId) (s : Db) : Changed single u x s s [] :=
  ⟨(List.append_nil _).symm, (List.append_nil _).symm, List.Pairwise.nil, fun _ => List.Pairwise.nil, Nat.le_refl _,
    nofun⟩

theorem Changed.trans (h : Changed single u x s₁ s₂ es) (h' : Changed single u x s₂ s₃ es') :
    Changed single u x s₁ s₃ (es ++ es') := by
  have hlt : ∀ c ∈ es, ∀ d ∈ es', c.revision < d.revision := fun c hc d hd =>
    Nat.lt_of_le_of_lt (h.above c hc).2 (h'.above d hd).1
  refine ⟨?_, ?_, ?_, fun hs => ?_, Nat.le_trans h.revision h'.revision, fun c hc => ?_⟩
  · rw [h'.feed, h.feed, List.append_assoc]
  · rw [h'.history, h.history, List.filterMap_append, List.map_append, List.append_assoc]
  · exact List.pairwise_append.mpr ⟨h.ascending, h'.ascending, fun c hc d hd => Nat.le_of_lt (hlt c hc d hd)⟩
  · exact List.pairwise_append.mpr ⟨h.strict hs, h'.strict hs, hlt⟩
  · rcases List.mem_append.mp hc with hc | hc
    · obtain ⟨h1, h2⟩ := h.above c hc
      exact ⟨h1, Nat.le_trans h2 h'.revision⟩
    · obtain ⟨h1, h2⟩ := h'.above c hc
      exact ⟨Nat.lt_of_le_of_lt h.revision h1, h2⟩

theorem commit_versions (hv : c.Valid F) (hnames : single → c.NamesOnce) (hg : c.guar tr ⟨.commit stmts, b, a⟩)
    (hc : c.userId = u) (hw : StateWrite u n stmts) : WritesVersions single u x n stmts := by
  cases c with
  | pushVault env w request =>
    obtain rfl : w = u := hc
    obtain ⟨-, s₁, rest, -, -, -, -, rfl⟩ := hg
    obtain rfl := hw.sets (s₁.serverRevision w + 1) (by simp [pushVaultStmts])
    exact pushVault_versions hnames
  | pushItemLevelSync env w plan =>
    obtain rfl : w = u := hc
    obtain ⟨-, old, s₁, s₂, s₃, st, -, ⟨-, m, hst⟩, rfl⟩ := hg
    obtain ⟨-, -, rfl⟩ := batchStmts_claimRevision hst hw.claim
    exact batchStmts_versions hst (schema_nodup hv).1

theorem batch_apart (hx : execBatch stmts b = some a) (hle : b.serverRevision u ≤ a.serverRevision u)
    (hq : ∀ q ∈ stmts, q.kept u x = [] ∧ q.shown u x = [] ∧ q.named u x = []) : Changed single u x b a [] := by
  obtain ⟨hrows, es, hfeed, -, hnamed⟩ := batch_versions (u := u) (x := x) hx
  rw [List.flatMap_eq_nil_iff.mpr fun q hm => (hq q hm).1] at hrows
  rw [List.flatMap_eq_nil_iff.mpr fun q hm => (hq q hm).2.2, List.sublist_nil, List.map_eq_nil_iff] at hnamed
  subst hnamed
  exact ⟨hfeed, hrows, List.Pairwise.nil, fun _ => List.Pairwise.nil, hle, nofun⟩

theorem foreign_nothing {q : SyncStmt} (h : q.userId ≠ u) : q.kept u x = [] ∧ q.shown u x = [] ∧ q.named u x = [] := by
  cases q with
  | insertHistory id w item => exact ⟨if_neg fun hu => h hu.1, rfl, rfl⟩
  | insertUpsertChange w item => exact ⟨rfl, if_neg fun hu => h hu.1, if_neg fun hu => h hu.1⟩
  | insertDeleteChange w id n ts => exact ⟨rfl, rfl, if_neg fun hu => h hu.1⟩
  | insertDeleteChangeIfDeleted w id n ts => exact ⟨rfl, rfl, if_neg fun hu => h hu.1⟩
  | _ => exact ⟨rfl, rfl, rfl⟩

theorem WritesVersions.changed (hw : WritesVersions single u x (b.serverRevision u + 1) stmts) (hx : execBatch stmts b = some a)
    (hrev : a.serverRevision u = b.serverRevision u + 1) : ∃ es, Changed single u x b a es := by
  obtain ⟨hrows, es, hfeed, hlive, hnamed⟩ := batch_versions (u := u) (x := x) hx
  have hnow : ∀ d ∈ es, d.revision = b.serverRevision u + 1 := fun d hd =>
    hw.now _ (hnamed.subset (List.mem_map_of_mem hd))
  refine ⟨es, hfeed, by rw [hrows, hw.same, hlive], ?_, fun hs => ?_, hrev ▸ Nat.le_succ _, fun d hd => ?_⟩
  · exact List.pairwise_of_forall_mem_list fun c hc d hd => Nat.le_of_eq ((hnow c hc).trans (hnow d hd).symm)
  · exact List.pairwise_map.mp ((List.pairwise_singleton (· < ·) _).sublist (hnamed.trans (hw.once hs)))
  · rw [hnow d hd, hrev]
    exact ⟨Nat.lt_succ_self _, Nat.le_refl _⟩

theorem guar_changed (hv : c.Valid F) (hnames : single → c.NamesOnce) (hg : c.guar tr e)
    (hb : ∀ v, Before (OwnRely v) tr e.before) : ∃ es, Changed single u x e.before e.after es := by
  have hle : e.before.serverRevision u ≤ e.after.serverRevision u := (guar_own hg hb).revision
  rcases guar_step hg with ⟨stmts, hl, hx⟩ | ⟨-, he⟩
  · obtain ⟨label, b, a⟩ := e
    cases hl
    obtain ⟨-, hcase⟩ := commit_cases rfl hg ((hb c.userId).mono fun _ _ h => h.toFences)
    rcases hcase with ⟨hu, hw⟩ | hq
    · by_cases hc : c.userId = u
      · rw [hc] at hu hw
        exact (commit_versions hv hnames hg hc hw).changed hx (batch_serverRevision_set hx hu hw.set hw.sets)
      · exact ⟨[], batch_apart hx hle fun q hm => foreign_nothing (by rw [hw.userId q hm]; exact hc)⟩
    · refine ⟨[], batch_apart hx hle fun q hm => ?_⟩
      obtain ⟨m, row, rfl⟩ := hq q hm
      exact ⟨rfl, rfl, rfl⟩
  · exact ⟨[], he ▸ .refl single u x _⟩

variable {h : SyncHistory} {ps : List (Proc SyncCall Db (Access SyncStmt) SyncResult)}

theorem run_changed (hr : Reach SyncCall.code (·.Valid F) s₀ h s ps) (u : UserId) (x : ItemId) :
    ∃ es, Changed (∀ i c e, .step i c e ∈ h → c.NamesOnce) u x s₀ s es := by
  generalize hs : (∀ i c e, .step i c e ∈ h → SyncCall.NamesOnce c) = single
  have halong : Along (fun s s' => (∀ v, OwnRely v s s') ∧ ∃ es, Changed single u x s s' es) s₀ h := by
    refine reach_rel_of (P := fun c _ => single → c.NamesOnce) valid_sat
      (fun s => ⟨fun v => .refl v s, [], .refl single u x s⟩) ?_ ?_ hr fun i c e he hn => (hs ▸ hn) i c e he
    · rintro s₁ s₂ s₃ ⟨h12, es, hc12⟩ ⟨h23, es', hc23⟩
      exact ⟨fun v => (h12 v).trans (h23 v), es ++ es', hc12.trans hc23⟩
    · intro c tr e hc _ hb hg hnames
      have hown : ∀ v, Before (OwnRely v) tr e.before := fun v => hb.mono fun _ _ h => h.1 v
      exact ⟨fun v => guar_own hg hown, guar_changed hc hnames hg hown⟩
  have hlast := (show Along _ s₀ ([] ++ h) from halong).last
  rw [List.nil_append, reach_store hr] at hlast
  exact hlast.2

/-! ## The answer -/

/-- New rows stand before the old ones, newest first. -/
theorem mergeSort_newest {old new : List VaultItemHistoryRow} (hnew : new.Pairwise fun a b => a.revision < b.revision)
    (hold : (old.map (·.revision)).Nodup) (habove : ∀ r ∈ old, ∀ r' ∈ new, r.revision < r'.revision) :
    (old ++ new).mergeSort (fun a b => b.revision ≤ a.revision) =
      new.reverse ++ old.mergeSort fun a b => b.revision ≤ a.revision := by
  have htrans : ∀ a b c : VaultItemHistoryRow, decide (b.revision ≤ a.revision) = true →
      decide (c.revision ≤ b.revision) = true → decide (c.revision ≤ a.revision) = true := fun a b c hab hbc =>
    decide_eq_true (Nat.le_trans (of_decide_eq_true hbc) (of_decide_eq_true hab))
  have htotal : ∀ a b : VaultItemHistoryRow, (decide (b.revision ≤ a.revision) || decide (a.revision ≤ b.revision)) = true :=
    fun a b => by simpa using Nat.le_total b.revision a.revision
  have hsorted : (new.reverse ++ old.mergeSort fun a b => b.revision ≤ a.revision).Pairwise
      fun a b => decide (b.revision ≤ a.revision) = true := by
    refine List.pairwise_append.mpr ⟨?_, List.pairwise_mergeSort htrans htotal old, fun a ha b hb => ?_⟩
    · exact List.pairwise_reverse.mpr (hnew.imp fun h => decide_eq_true (Nat.le_of_lt h))
    · have hlt := habove b ((List.mergeSort_perm old _).mem_iff.mp hb) a (List.mem_reverse.mp ha)
      exact decide_eq_true (Nat.le_of_lt hlt)
  have hperm : ((old ++ new).mergeSort fun a b => b.revision ≤ a.revision).Perm
      (new.reverse ++ old.mergeSort fun a b => b.revision ≤ a.revision) := by
    have hswap : (old ++ new).Perm (new ++ old) := List.perm_append_comm
    have hparts := (List.reverse_perm new).append (List.mergeSort_perm old fun a b => b.revision ≤ a.revision)
    exact (List.mergeSort_perm _ _).trans (hswap.trans hparts.symm)
  -- no two rows have one revision, so the order is a matter of the rows alone
  have hdistinct : ((old ++ new).map (·.revision)).Nodup := by
    rw [List.map_append, List.nodup_append]
    refine ⟨hold, List.pairwise_map.mpr (hnew.imp Nat.ne_of_lt), fun n hn m hm => ?_⟩
    obtain ⟨r, hr, rfl⟩ := List.mem_map.mp hn
    obtain ⟨r', hr', rfl⟩ := List.mem_map.mp hm
    exact Nat.ne_of_lt (habove r hr r' hr')
  refine List.Perm.eq_of_pairwise (fun a b ha hb hab hba => ?_) (List.pairwise_mergeSort htrans htotal _) hsorted hperm
  have ha := (List.mergeSort_perm _ _).mem_iff.mp ha
  have hb := (List.mergeSort_perm _ _).mem_iff.mp (hperm.mem_iff.mpr hb)
  exact List.inj_on_of_nodup_map hdistinct ha hb (Nat.le_antisymm (of_decide_eq_true hba) (of_decide_eq_true hab))

theorem live?_revision {c : ItemLevelChange} {item : VaultItemCiphertext} (h : c.live? = some item) :
    item.revision = c.revision := by
  cases c with
  | upsert item => cases h; rfl
  | delete id n deletedAt => cases h

theorem Changed.perm (hc : Changed single u x s s' es) :
    (itemVersions u x s').Perm (es.filterMap ItemLevelChange.live? ++ itemVersions u x s) := by
  have hold : (historyRows u x s).map (·.snapshot) |>.Perm (itemVersions u x s) :=
    ((List.mergeSort_perm _ _).map _).symm
  refine ((List.mergeSort_perm _ _).map _).trans ?_
  rw [hc.history, List.map_append, List.map_map]
  refine List.perm_append_comm.trans (.append (.of_eq (List.map_id _)) hold)

theorem Changed.exact (hc : Changed single u x s s' es) (hs : single)
    (hold : ((historyRows u x s).map (·.revision)).Nodup)
    (hbound : ∀ r ∈ historyRows u x s, r.revision ≤ s.serverRevision u) :
    itemVersions u x s' = (es.filterMap ItemLevelChange.live?).reverse ++ itemVersions u x s := by
  have hnew : ((es.filterMap ItemLevelChange.live?).map (VaultItemHistoryRow.of u)).Pairwise
      fun a b => a.revision < b.revision := by
    refine List.pairwise_map.mpr (List.pairwise_filterMap.mpr ((hc.strict hs).imp fun {c d} hlt a ha b hb => ?_))
    rw [← live?_revision ha, ← live?_revision hb] at hlt
    exact hlt
  have habove : ∀ r ∈ historyRows u x s, ∀ r' ∈ (es.filterMap ItemLevelChange.live?).map (VaultItemHistoryRow.of u),
      r.revision < r'.revision := by
    intro r hr r' hr'
    obtain ⟨item, hitem, rfl⟩ := List.mem_map.mp hr'
    obtain ⟨c, hm, hlive⟩ := List.mem_filterMap.mp hitem
    have hlt := (hc.above c hm).1
    rw [← live?_revision hlive] at hlt
    exact Nat.lt_of_le_of_lt (hbound r hr) hlt
  unfold itemVersions
  rw [hc.history, mergeSort_newest hnew hold habove, List.map_append, ← List.map_reverse, List.map_map]
  exact congrArg (· ++ _) (List.map_id _)

/-- In every run of pushes of any users, a user's feed grows by versions of an
item at revisions that never fall, and the history route answers the same
versions besides those it had: newest first, and before all the old ones, if no
push of the run names an item twice. -/
theorem item_history (hr : Reach SyncCall.code (·.Valid F) s₀ h s ps) :
    ∃ es, itemChanges u x s = itemChanges u x s₀ ++ es ∧
      (es.Pairwise fun c d => c.revision ≤ d.revision) ∧
      (∀ c ∈ es, s₀.serverRevision u < c.revision ∧ c.revision ≤ s.serverRevision u) ∧
      ((getItemHistory u x).run s).2.Perm (es.filterMap ItemLevelChange.live? ++ ((getItemHistory u x).run s₀).2) ∧
      (((historyRows u x s₀).map (·.revision)).Nodup → (∀ r ∈ historyRows u x s₀, r.revision ≤ s₀.serverRevision u) →
        (∀ i c e, .step i c e ∈ h → c.NamesOnce) → ((getItemHistory u x).run s).2 =
          (es.filterMap ItemLevelChange.live?).reverse ++ ((getItemHistory u x).run s₀).2) := by
  obtain ⟨es, hc⟩ := run_changed hr u x
  exact ⟨es, hc.feed, hc.ascending, hc.above, hc.perm, fun hold hbound hs => hc.exact hs hold hbound⟩

end

instance (request : SyncPushRequest) : Decidable request.NamesOnce := inferInstanceAs (Decidable (List.Nodup _))

instance : ∀ c : SyncCall, Decidable c.NamesOnce
  | .pushVault _ _ request => inferInstanceAs (Decidable request.NamesOnce)
  | .pushItemLevelSync .. => isTrue trivial

def namesOnceAt : Event SyncCall Db (Access SyncStmt) → Bool
  | .step _ c _ => decide c.NamesOnce
  | _ => true

/-- `item_history` after two pushes of one item: two versions, the second first. -/
theorem item_history_twoVaultPushes :
    ((getItemHistory sampleUser sampleUpsert.id).run (twoVaultPushes sampleUpsert.createdAt).2.1).2 =
      [atRevision 2 (sampleItem sampleUpsert.createdAt), atRevision 1 (sampleItem sampleUpsert.createdAt)] := by
  have hr : Reach SyncCall.code (·.Valid sampleFormats) sampleStore.migrate0006
      (twoVaultPushes sampleUpsert.createdAt).1 (twoVaultPushes sampleUpsert.createdAt).2.1
      (twoVaultPushes sampleUpsert.createdAt).2.2 := play_reach fun c hc => by
    simp only [List.mem_cons, Move.issue.injEq, reduceCtorEq, List.not_mem_nil, or_false, false_or, or_self] at hc
    rcases hc with rfl | rfl <;> exact (vaultPush_valid (by decide)).2
  obtain ⟨es, hfeed, -, -, -, hexact⟩ := item_history (u := sampleUser) (x := sampleUpsert.id) hr
  have hrun : (twoVaultPushes sampleUpsert.createdAt).1.all namesOnceAt = true ∧
      itemChanges sampleUser sampleUpsert.id (twoVaultPushes sampleUpsert.createdAt).2.1 =
        [.upsert (atRevision 1 (sampleItem sampleUpsert.createdAt)),
          .upsert (atRevision 2 (sampleItem sampleUpsert.createdAt))] := by
    decide +kernel
  obtain rfl : es = _ := hfeed.symm.trans hrun.2
  have hstart : ((getItemHistory sampleUser sampleUpsert.id).run sampleStore.migrate0006).2 = [] := by
    have hrows : historyRows sampleUser sampleUpsert.id sampleStore.migrate0006 = [] := rfl
    simp [getItemHistory, itemVersions, hrows, Prog.query]
  rw [hexact (by decide) (by decide) fun i c e he => of_decide_eq_true (List.all_eq_true.mp hrun.1 _ he), hstart]
  rfl

end ZeroVault

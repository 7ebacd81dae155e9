import ZeroVault.StoredAnswers

/-!
# Tenants and each other's rows

Two stores on which a user has the same rows look the same to the user's pushes
but for three columns that all tenants share: the ids of items, the ids of
history rows and the cursors of the change feed. Where the stores agree on the
first two, a push answers the same and leaves the same rows (`pushes_alike`).
-/

namespace ZeroVault

open Lib

/-- The user's own rows in the tables that pushes read and write. The cursors of
the feed, which is in their order, are left out. -/
@[ext] structure OwnRows where
  user : Option UserRow
  items : ItemId → Option VaultItemRow
  history : String → Option VaultItemHistoryRow
  changes : List (ItemId × Nat × ItemLevelChange)
  receipts : MutationId → Option ItemSyncMutationRow
  claims : Nat → Option Unit

def Db.ownRows (db : Db) (u : UserId) : OwnRows where
  user := db.users.get? u
  items id := (db.vaultItems.get? id).filter (·.userId = u)
  history id := (db.vaultItemHistory.get? id).filter (·.userId = u)
  changes := (db.itemSyncChanges.rows.filter fun r => r.userId = u).map fun r => (r.itemId, r.itemRevision, r.change)
  receipts m := db.itemSyncMutations.get? (u, m)
  claims r := db.itemSyncRevisionClaims.get? (u, r)

/-- The stores have the same rows of the user, the same of `ids` belong to
others, and the same of `keys` are taken in the history. -/
structure SameFor (u : UserId) (ids : List ItemId) (keys : String → Prop) (s s' : Db) : Prop where
  own : s.ownRows u = s'.ownRows u
  taken : ∀ id ∈ ids, Free u (s.vaultItems.get? id) ↔ Free u (s'.vaultItems.get? id)
  history : ∀ k, keys k → s.vaultItemHistory.contains k = s'.vaultItemHistory.contains k

/-! ## Rows -/

/-- Both rows are the user's and equal, or neither is the user's. -/
structure SameRow (u : UserId) (row row' : Option VaultItemRow) : Prop where
  own : row.filter (·.userId = u) = row'.filter (·.userId = u)
  taken : Free u row ↔ Free u row'

section
variable {u : UserId} {row row' : Option VaultItemRow}

theorem SameRow.cases (h : SameRow u row row') :
    (Free u row ∧ row' = row) ∨ ∃ r r', row = some r ∧ row' = some r' ∧ r.userId ≠ u ∧ r'.userId ≠ u := by
  by_cases hf : Free u row
  · left
    have hf' := h.taken.mp hf
    have hown := h.own
    rw [filter_free hf, filter_free hf'] at hown
    exact ⟨hf, hown.symm⟩
  · right
    have hf' : ¬ Free u row' := fun hf' => hf (h.taken.mpr hf')
    obtain ⟨r, hr, hu⟩ := not_free hf
    obtain ⟨r', hr', hu'⟩ := not_free hf'
    exact ⟨r, r', hr, hr', hu, hu'⟩

theorem sameRow_refl : SameRow u row row := ⟨rfl, Iff.rfl⟩

theorem sameRow_foreign {r r' : VaultItemRow} (hu : r.userId ≠ u) (hu' : r'.userId ≠ u) :
    SameRow u (some r) (some r') := by
  refine ⟨by simp [Option.filter, hu, hu'], ?_⟩
  simp [Free, hu, hu']

theorem itemRow_same {q : SyncStmt} (hu : q.userId = u) (id : ItemId) (h : SameRow u row row') :
    SameRow u (q.itemRow id row) (q.itemRow id row') := by
  rcases h.cases with ⟨-, rfl⟩ | ⟨r, r', rfl, rfl, hr, hr'⟩
  · exact sameRow_refl
  · -- a foreign row stays what it is
    have hstay : ∀ r : VaultItemRow, r.userId ≠ u → q.itemRow id (some r) = some r := by
      intro r hr
      cases q with
      | upsertVaultItem v item =>
        have hv : v = u := hu
        subst hv
        simp [SyncStmt.itemRow, hr]
      | markDeleted v i n ts =>
        have hv : v = u := hu
        subst hv
        simp [SyncStmt.itemRow, hr]
      | markDeletedAtBase v i n ts base =>
        have hv : v = u := hu
        subst hv
        simp [SyncStmt.itemRow, hr]
      | _ => rfl
    rw [hstay r hr, hstay r' hr']
    exact sameRow_foreign hr hr'

end

/-! ## One statement -/

/-- The item whose row the statement reads or writes. -/
def SyncStmt.refersTo? : SyncStmt → Option ItemId
  | .insertHistory _ _ item => some item.id
  | q => q.item?

def SyncStmt.historyKey? : SyncStmt → Option String
  | .insertHistory id _ _ => some id
  | _ => none

def SyncStmt.historyRow (q : SyncStmt) (k : String) (row : Option VaultItemHistoryRow) : Option VaultItemHistoryRow :=
  match q with
  | .insertHistory id u item => if k = id then some ⟨item.id, u, item.revision, item⟩ else row
  | _ => row

def SyncStmt.commits (q : SyncStmt) (db : Db) : Bool :=
  match q with
  | .claimRevision u r => db.users.contains u && !db.itemSyncRevisionClaims.contains (u, r)
  | .upsertVaultItem u item => db.vaultItems.contains item.id || db.users.contains u
  | .insertHistory id _ item => db.vaultItems.contains item.id && !db.vaultItemHistory.contains id
  | .insertUpsertChange u _ => db.users.contains u
  | .insertDeleteChange u .. => db.users.contains u
  | .insertDeleteChangeIfDeleted u id .. =>
    ((db.vaultItems.get? id).filter fun r => r.userId = u && r.deletedAt.isSome).isNone || db.users.contains u
  | .insertMutation u m _ => db.users.contains u && !db.itemSyncMutations.contains (u, m)
  | _ => true

section
variable {u : UserId} {ids : List ItemId} {keys : String → Prop} {s s' t t' db db' : Db} {q : SyncStmt}

theorem isSome_insert {κ ν μ : Type} [DecidableEq κ] (t : Table κ ν) (k : κ) (v : ν) (f : Table κ ν → μ) :
    ((t.insert k v).map f).isSome = !t.contains k := by
  rw [Option.isSome_map]
  cases hc : t.contains k with
  | true => rw [Table.insert_eq_none.mpr hc]; rfl
  | false =>
    cases hi : t.insert k v with
    | some t' => rfl
    | none =>
      rw [Table.insert_eq_none.mp hi] at hc
      cases hc

theorem exec_isSome (q : SyncStmt) (db : Db) : (q.exec db).isSome = q.commits db := by
  -- a statement fails on a constraint only
  cases q with
  | claimRevision w r =>
    simp only [SyncStmt.exec, SyncStmt.commits]
    cases db.users.contains w with
    | true => simp only [if_true, Bool.true_and, isSome_insert]
    | false => rfl
  | setServerRevision w r => rfl
  | upsertVaultItem w item =>
    simp only [SyncStmt.exec, SyncStmt.commits, upsertVaultItem, Table.contains]
    cases db.vaultItems.get? item.id with
    | none =>
      dsimp only
      by_cases hu : (db.users.get? w).isSome = true
      · simp [hu]
      · simp [hu]
    | some row =>
      dsimp only
      split <;> rfl
  | insertHistory id w item =>
    simp only [SyncStmt.exec, SyncStmt.commits]
    cases db.vaultItems.contains item.id with
    | true => simp only [if_true, Bool.true_and, isSome_insert]
    | false => rfl
  | insertUpsertChange w item =>
    simp only [SyncStmt.exec, SyncStmt.commits, appendChange]
    cases db.users.contains w <;> rfl
  | markDeleted w id n ts => rfl
  | markDeletedAtBase w id n ts base => rfl
  | insertDeleteChangeIfDeleted w id n ts =>
    simp only [SyncStmt.exec, SyncStmt.commits, appendChange]
    cases db.vaultItems.get? id with
    | none => rfl
    | some row =>
      by_cases hc : row.userId = w ∧ row.deletedAt.isSome = true
      · cases db.users.contains w <;> simp [hc, Option.filter]
      · have hf : (decide (row.userId = w) && row.deletedAt.isSome) = false := by simpa using hc
        simp [hc, hf, Option.filter]
  | insertDeleteChange w id n ts =>
    simp only [SyncStmt.exec, SyncStmt.commits, appendChange]
    cases db.users.contains w <;> rfl
  | insertMutation w m row =>
    simp only [SyncStmt.exec, SyncStmt.commits]
    cases db.users.contains w with
    | true => simp only [if_true, Bool.true_and, isSome_insert]
    | false => rfl

theorem exec_history (h : q.exec db = some db') (k : String) :
    db'.vaultItemHistory.get? k = q.historyRow k (db.vaultItemHistory.get? k) := by
  cases q with
  | insertHistory id w item =>
    simp only [SyncStmt.exec] at h
    split at h
    · obtain ⟨t, ht, rfl⟩ := Option.map_eq_some_iff.mp h
      exact Table.get?_insert ht k
    · cases h
  | claimRevision w r =>
    obtain ⟨-, t, -, rfl⟩ := exec_claimRevision h
    rfl
  | upsertVaultItem w item =>
    obtain ⟨⟨t, rfl⟩, -⟩ := exec_upsertVaultItem h
    rfl
  | insertUpsertChange w item =>
    obtain ⟨-, rfl⟩ := appendChange_eq h
    rfl
  | insertDeleteChangeIfDeleted w id n ts =>
    obtain ⟨t, rfl⟩ := exec_insertDeleteChangeIfDeleted h
    rfl
  | insertDeleteChange w id n ts =>
    obtain ⟨-, rfl⟩ := appendChange_eq h
    rfl
  | insertMutation w m row =>
    obtain ⟨t, -, rfl⟩ := exec_insertMutation h
    rfl
  | _ => cases h; rfl

theorem SameFor.row (h : SameFor u ids keys s s') {id : ItemId} (hid : id ∈ ids) :
    SameRow u (s.vaultItems.get? id) (s'.vaultItems.get? id) :=
  ⟨congrFun (congrArg OwnRows.items h.own) id, h.taken id hid⟩

theorem SameFor.user (h : SameFor u ids keys s s') : s.users.get? u = s'.users.get? u := congrArg OwnRows.user h.own

theorem SameFor.receipt (h : SameFor u ids keys s s') (m : MutationId) :
    s.itemSyncMutations.get? (u, m) = s'.itemSyncMutations.get? (u, m) :=
  congrFun (congrArg OwnRows.receipts h.own) m

theorem SameFor.claim (h : SameFor u ids keys s s') (r : Nat) :
    s.itemSyncRevisionClaims.get? (u, r) = s'.itemSyncRevisionClaims.get? (u, r) :=
  congrFun (congrArg OwnRows.claims h.own) r

theorem sameRow_contains {row row' : Option VaultItemRow} (h : SameRow u row row') : row.isSome = row'.isSome := by
  rcases h.cases with ⟨-, rfl⟩ | ⟨r, r', rfl, rfl, -, -⟩ <;> rfl

theorem change?_same (hu : q.userId = u) (hid : ∀ id, q.refersTo? = some id → id ∈ ids) (h : SameFor u ids keys s s') :
    q.change? s.vaultItems.get? = q.change? s'.vaultItems.get? := by
  cases q with
  | insertDeleteChangeIfDeleted w id n ts =>
    have hw : w = u := hu
    subst hw
    simp only [SyncStmt.change?]
    rcases (h.row (hid id rfl)).cases with ⟨-, heq⟩ | ⟨r, r', hr, hr', hne, hne'⟩
    · rw [heq]
    · rw [hr, hr']
      simp [Option.filter, hne, hne']
  | _ => rfl

theorem commits_same (hu : q.userId = u) (hid : ∀ id, q.refersTo? = some id → id ∈ ids)
    (hkey : ∀ k, q.historyKey? = some k → keys k) (h : SameFor u ids keys s s') : q.commits s = q.commits s' := by
  have husers : s.users.contains u = s'.users.contains u := congrArg Option.isSome h.user
  cases q with
  | claimRevision w r =>
    have hw : w = u := hu
    subst hw
    simp only [SyncStmt.commits, Table.contains, h.user, h.claim r]
  | upsertVaultItem w item =>
    have hw : w = u := hu
    subst hw
    have hrow := sameRow_contains (h.row (hid item.id rfl))
    simp only [SyncStmt.commits, Table.contains, h.user, hrow]
  | insertHistory k w item =>
    have hrow := sameRow_contains (h.row (hid item.id rfl))
    have hkey := h.history k (hkey k rfl)
    simp only [Table.contains] at hkey
    simp only [SyncStmt.commits, Table.contains, hrow, hkey]
  | insertDeleteChangeIfDeleted w id n ts =>
    have hw : w = u := hu
    subst hw
    simp only [SyncStmt.commits, husers]
    rcases (h.row (hid id rfl)).cases with ⟨-, heq⟩ | ⟨r, r', hr, hr', hne, hne'⟩
    · rw [heq]
    · rw [hr, hr']
      simp [Option.filter, hne, hne']
  | insertMutation w m row =>
    have hw : w = u := hu
    subst hw
    simp only [SyncStmt.commits, Table.contains, h.user, h.receipt m]
  | insertUpsertChange w item =>
    have hw : w = u := hu
    subst hw
    exact husers
  | insertDeleteChange w id n ts =>
    have hw : w = u := hu
    subst hw
    exact husers
  | _ => rfl

theorem change?_user {row : ItemId → Option VaultItemRow} {w : UserId} {id : ItemId} {n : Nat} {c : ItemLevelChange}
    (h : q.change? row = some (w, id, n, c)) : w = q.userId := by
  cases q with
  | insertUpsertChange v item => cases h; rfl
  | insertDeleteChange v i r ts => cases h; rfl
  | insertDeleteChangeIfDeleted v i r ts =>
    obtain ⟨row, -, he⟩ := Option.map_eq_some_iff.mp h
    cases he
    rfl
  | _ => cases h

theorem changes_same (hu : q.userId = u) (hid : ∀ id, q.refersTo? = some id → id ∈ ids) (h : SameFor u ids keys s s')
    (ht : q.exec s = some t) (ht' : q.exec s' = some t') :
    (t.ownRows u).changes = (t'.ownRows u).changes := by
  have hown : (s.ownRows u).changes = (s'.ownRows u).changes := congrArg OwnRows.changes h.own
  simp only [Db.ownRows] at hown ⊢
  rw [exec_feed ht, exec_feed ht', ← change?_same hu hid h]
  cases hc : q.change? s.vaultItems.get? with
  | none => exact hown
  | some p =>
    obtain ⟨w, id, n, c⟩ := p
    have hw : w = u := (change?_user hc).trans hu
    subst hw
    simp only [ItemSyncChanges.append, List.filter_append, List.map_append, hown]
    simp

theorem own_same (hu : q.userId = u) (hid : ∀ id, q.refersTo? = some id → id ∈ ids) (h : SameFor u ids keys s s')
    (ht : q.exec s = some t) (ht' : q.exec s' = some t') : t.ownRows u = t'.ownRows u := by
  have hitems : (t.ownRows u).items = (t'.ownRows u).items := by
    funext id
    simp only [Db.ownRows]
    rw [(exec_effect ht).items, (exec_effect ht').items]
    by_cases hmem : id ∈ ids
    · exact (itemRow_same hu id (h.row hmem)).own
    · have hother : q.item? ≠ some id := by
        intro he
        apply hmem
        apply hid
        cases q with
        | insertHistory k w item => cases he
        | _ => exact he
      have hstay : ∀ row, q.itemRow id row = row := fun row =>
        congrArg ItemView.row (onItem_other (u := u) (v := ⟨row, none⟩) hother)
      rw [hstay, hstay]
      exact congrFun (congrArg OwnRows.items h.own) id
  have hhistory : (t.ownRows u).history = (t'.ownRows u).history := by
    funext k
    have hk := congrFun (congrArg OwnRows.history h.own) k
    simp only [Db.ownRows] at hk ⊢
    rw [exec_history ht, exec_history ht']
    cases q with
    | insertHistory k' w item =>
      simp only [SyncStmt.historyRow]
      split
      · rfl
      · exact hk
    | _ => exact hk
  have huser : (t.ownRows u).user = (t'.ownRows u).user := by
    simp only [Db.ownRows]
    rw [(exec_effect ht).users, (exec_effect ht').users, h.user]
  have hreceipts : (t.ownRows u).receipts = (t'.ownRows u).receipts := by
    funext m
    simp only [Db.ownRows]
    rw [(exec_effect ht).receipts, (exec_effect ht').receipts, h.receipt]
  have hclaims : (t.ownRows u).claims = (t'.ownRows u).claims := by
    funext r
    simp only [Db.ownRows]
    rw [(exec_effect ht).claims, (exec_effect ht').claims, h.claim]
  -- the feed needs the item's row, which is the same in both stores
  have hchanges := changes_same hu hid h ht ht'
  exact OwnRows.ext huser hitems hhistory hchanges hreceipts hclaims

/-- A statement of the user about items of `ids` commits on both stores or on
neither, and leaves them the same for the user. -/
theorem exec_same (hu : q.userId = u) (hid : ∀ id, q.refersTo? = some id → id ∈ ids)
    (hkey : ∀ k, q.historyKey? = some k → keys k) (h : SameFor u ids keys s s') :
    Option.Rel (SameFor u ids keys) (q.exec s) (q.exec s') := by
  have hcommits := commits_same hu hid hkey h
  rw [← exec_isSome, ← exec_isSome] at hcommits
  cases ht : q.exec s with
  | none =>
    cases ht' : q.exec s' with
    | none => exact .none
    | some t' =>
      rw [ht, ht'] at hcommits
      cases hcommits
  | some t =>
    cases ht' : q.exec s' with
    | none =>
      rw [ht, ht'] at hcommits
      cases hcommits
    | some t' =>
      refine .some ⟨own_same hu hid h ht ht', fun id hmem => ?_, fun k hk => ?_⟩
      · rw [(exec_effect ht).items, (exec_effect ht').items]
        exact (itemRow_same hu id (h.row hmem)).taken
      · have hkeep := h.history k hk
        simp only [Table.contains] at hkeep ⊢
        rw [exec_history ht, exec_history ht']
        cases q with
        | insertHistory k' w item =>
          simp only [SyncStmt.historyRow]
          split
          · rfl
          · exact hkeep
        | _ => exact hkeep

end

/-! ## Whole-vault pushes -/

section
variable {u : UserId} {ids : List ItemId} {keys : String → Prop}

theorem checkOwners_alike {items : List VaultItemCiphertext} (hid : ∀ item ∈ items, item.id ∈ ids) :
    Alike (SameFor u ids keys) (checkOwners u items) (checkOwners u items) := by
  induction items with
  | nil => exact Alike.ret true
  | cons item items ih =>
    unfold checkOwners
    by_cases ho : item.ownerUserId = u
    · rw [if_neg (not_not_intro ho)]
      refine Alike.query (fun v v' => SameRow u v v') (fun s s' h => h.row (hid item List.mem_cons_self)) ?_
      intro v v' hv
      have hforeign : v.any (fun x => x.userId ≠ u) = v'.any fun x => x.userId ≠ u := by
        rcases hv.cases with ⟨-, rfl⟩ | ⟨r, r', rfl, rfl, hr, hr'⟩
        · rfl
        · simp [hr, hr']
      rw [hforeign]
      split
      · exact Alike.ret false
      · exact ih fun item' hitem => hid item' (List.mem_cons_of_mem _ hitem)
    · rw [if_pos ho]
      exact Alike.ret false

theorem pushVaultStmts_refer {env : Env} {n : Nat} {request : SyncPushRequest} {q : SyncStmt}
    (hq : q ∈ pushVaultStmts env u n request) :
    q.userId = u ∧ (∀ id, q.refersTo? = some id → id ∈ request.upserts.map (·.id) ++ request.deletes) ∧
      ∀ k, q.historyKey? = some k → ∃ i < request.upserts.length, k = env.id (toString i) := by
  unfold pushVaultStmts at hq
  simp only [List.mem_cons, List.mem_append, List.mem_flatMap] at hq
  rcases hq with rfl | rfl | ⟨⟨item, i⟩, hitem, hq⟩ | ⟨id, hid, hq⟩
  · exact ⟨rfl, fun _ he => (by cases he), fun _ hk => by cases hk⟩
  · exact ⟨rfl, fun _ he => (by cases he), fun _ hk => by cases hk⟩
  · have hmem : item.id ∈ request.upserts.map (·.id) ++ request.deletes :=
      List.mem_append_left _ (List.mem_map_of_mem (List.fst_mem_of_mem_zipIdx hitem))
    simp only [legacyUpsertStmts, List.mem_cons, List.not_mem_nil, or_false] at hq
    rcases hq with rfl | rfl | rfl
    · refine ⟨rfl, fun id he => ?_, fun _ hk => by cases hk⟩
      cases he
      exact hmem
    · refine ⟨rfl, fun id he => ?_, fun k hk => ?_⟩
      · cases he
        exact hmem
      · cases hk
        exact ⟨i, by simpa using (List.mem_zipIdx hitem).2.1, rfl⟩
    · refine ⟨rfl, fun id he => ?_, fun _ hk => by cases hk⟩
      cases he
      exact hmem
  · have hmem : id ∈ request.upserts.map (·.id) ++ request.deletes := List.mem_append_right _ hid
    simp only [legacyDeleteStmts, List.mem_cons, List.not_mem_nil, or_false] at hq
    rcases hq with rfl | rfl
    · refine ⟨rfl, fun id he => ?_, fun _ hk => by cases hk⟩
      cases he
      exact hmem
    · refine ⟨rfl, fun id he => ?_, fun _ hk => by cases hk⟩
      cases he
      exact hmem

theorem findUserById_same (s s' : Db) (h : SameFor u ids keys s s') : findUserById u s = findUserById u s' := h.user

theorem pushVault_alike (env : Env) (request : SyncPushRequest)
    (hid : ∀ id ∈ request.upserts.map (·.id) ++ request.deletes, id ∈ ids)
    (hkey : ∀ i < request.upserts.length, keys (env.id (toString i))) :
    Alike (SameFor u ids keys) (pushVault env u request) (pushVault env u request) := by
  unfold pushVault
  refine Alike.query Eq findUserById_same ?_
  rintro user - rfl
  cases user with
  | none => exact Alike.ret _
  | some user =>
    refine Alike.bind (checkOwners_alike fun item hitem => ?_) fun owned => ?_
    · exact hid _ (List.mem_append_left _ (List.mem_map_of_mem hitem))
    · dsimp only
      split
      · exact Alike.ret _
      split
      · exact Alike.ret _
      refine Alike.bind (Alike.batch fun q hq s s' h => ?_) fun committed => ?_
      · obtain ⟨hu, hrefer, hkeys⟩ := pushVaultStmts_refer hq
        refine exec_same hu (fun id he => hid id (hrefer id he)) (fun k hk => ?_) h
        obtain ⟨i, hi, rfl⟩ := hkeys k hk
        exact hkey i hi
      · split
        · exact Alike.ret _
        · refine Alike.query Eq findUserById_same ?_
          rintro latest - rfl
          cases latest with
          | none => exact Alike.ret _
          | some latest =>
            dsimp only
            split
            · exact Alike.ret _
            · exact Alike.ret _

end

/-! ## Item-level pushes -/

def PushView.withRows (view : PushView) (rows : ItemId → Option VaultItemRow) : PushView :=
  { view with itemRowsById := rows }

section
variable {env : Env} {view : PushView} {rows : ItemId → Option VaultItemRow} {op : Operation} {ops : List Operation}

theorem conflictFor_same (reason : ConflictReason) (h : SameRow view.userId (view.itemRowsById op.id) (rows op.id)) :
    conflictFor (view.withRows rows) op reason = conflictFor view op reason := by
  rcases h.cases with ⟨-, heq⟩ | ⟨r, r', hr, hr', hne, hne'⟩
  · simp only [conflictFor, PushView.withRows, serverState, heq]
    rfl
  · simp [conflictFor, PushView.withRows, serverState, hr, hr', hne, hne', Option.filter]

theorem freshConflict_same (h : SameRow view.userId (view.itemRowsById op.id) (rows op.id)) :
    freshConflict (view.withRows rows) op = freshConflict view op := by
  simp only [freshConflict, conflictFor_same _ h]
  rcases h.cases with ⟨-, heq⟩ | ⟨r, r', hr, hr', hne, hne'⟩
  · simp only [PushView.withRows, heq]
    rfl
  · simp [PushView.withRows, hr, hr', hne, hne']

theorem applyStmts_same (h : SameRow view.userId (view.itemRowsById op.id) (rows op.id)) (hfree : freshConflict view op = none) :
    applyStmts env (view.withRows rows) op = applyStmts env view op := by
  rcases h.cases with ⟨-, heq⟩ | ⟨r, r', hr, hr', hne, hne'⟩
  · cases op with
    | upsert item =>
      have heq : rows item.id = view.itemRowsById item.id := heq
      simp [applyStmts, nextItem, PushView.withRows, PushView.nextRevision, heq]
    | delete item =>
      have heq : rows item.id = view.itemRowsById item.id := heq
      simp [applyStmts, PushView.withRows, PushView.nextRevision, heq]
  · -- another user's item conflicts
    exfalso
    simp only [freshConflict, hr] at hfree
    split at hfree
    · cases hfree
    · simp [hne] at hfree

theorem replay_same (previous : ItemSyncMutationRow) (st : PushState)
    (h : SameRow view.userId (view.itemRowsById op.id) (rows op.id)) :
    replay (view.withRows rows) op previous st = replay view op previous st := by
  simp only [replay, conflictFor_same _ h]

theorem pushOperation_same (st : PushState) (h : SameRow view.userId (view.itemRowsById op.id) (rows op.id)) :
    pushOperation env (view.withRows rows) st op = pushOperation env view st op := by
  unfold pushOperation
  have hreceipts : (view.withRows rows).receiptsById op.clientMutationId = view.receiptsById op.clientMutationId := rfl
  have hu : (view.withRows rows).userId = view.userId := rfl
  rw [hreceipts, hu, freshConflict_same h]
  split
  · rfl
  cases view.receiptsById op.clientMutationId with
  | some previous => dsimp only; rw [replay_same previous st h]
  | none =>
    dsimp only
    cases hc : freshConflict view op with
    | some c => rfl
    | none => dsimp only; rw [applyStmts_same h hc]

theorem pushLoop_same (h : ∀ op ∈ ops, SameRow view.userId (view.itemRowsById op.id) (rows op.id)) :
    pushLoop env (view.withRows rows) ops = pushLoop env view ops := by
  unfold pushLoop
  generalize ({} : PushState) = st
  induction ops generalizing st with
  | nil => rfl
  | cons op ops ih =>
    rw [List.foldlM_cons, List.foldlM_cons, pushOperation_same st (h op List.mem_cons_self)]
    congr 1
    funext st'
    exact ih (fun op' hop' => h op' (List.mem_cons_of_mem _ hop')) st'

end

section
variable {u : UserId} {ids : List ItemId} {keys : String → Prop} {env : Env} {view : PushView} {st : PushState}
variable {ops : List Operation}

theorem batchStmts_refer (hst : LoopResult env view ops st) {q : SyncStmt} (hq : q ∈ st.batchStmts view) :
    q.userId = view.userId ∧ (∀ id, q.refersTo? = some id → id ∈ ops.map (·.id)) ∧
      ∀ k, q.historyKey? = some k → ∃ item, .upsert item ∈ ops ∧ k = env.id item.clientMutationId := by
  refine ⟨(batchStmts_writes hst).userId q hq, ?_⟩
  rcases batchStmts_cases hst hq with ⟨-, rfl | rfl⟩ | ⟨op, hop, -, hm⟩ | ⟨op, -, r, -, rfl⟩
  · exact ⟨fun _ he => (by cases he), fun _ hk => by cases hk⟩
  · exact ⟨fun _ he => (by cases he), fun _ hk => by cases hk⟩
  · have hmem : op.id ∈ ops.map (·.id) := List.mem_map_of_mem hop
    cases op with
    | upsert item =>
      simp only [applyStmts, List.mem_cons, List.not_mem_nil, or_false] at hm
      rcases hm with rfl | rfl | rfl
      · refine ⟨fun id he => ?_, fun _ hk => by cases hk⟩
        cases he
        exact hmem
      · refine ⟨fun id he => ?_, fun k hk => ?_⟩
        · cases he
          exact hmem
        · cases hk
          exact ⟨item, hop, rfl⟩
      · refine ⟨fun id he => ?_, fun _ hk => by cases hk⟩
        cases he
        exact hmem
    | delete item =>
      simp only [applyStmts] at hm
      split at hm
      · simp only [List.mem_cons, List.not_mem_nil, or_false] at hm
        rcases hm with rfl | rfl
        · refine ⟨fun id he => ?_, fun _ hk => by cases hk⟩
          cases he
          exact hmem
        · refine ⟨fun id he => ?_, fun _ hk => by cases hk⟩
          cases he
          exact hmem
      · cases hm
  · exact ⟨fun _ he => (by cases he), fun _ hk => by cases hk⟩

theorem pushAborted_alike (hu : view.userId = u) :
    Alike (SameFor u ids keys) (pushAborted view st) (pushAborted view st) := by
  subst hu
  unfold pushAborted
  extract_lets claimed
  have hclaimed : Alike (SameFor view.userId ids keys) claimed claimed := by
    unfold claimed
    by_cases hp : st.pendingReceipts.isEmpty = true
    · rw [if_pos hp]
      exact Alike.ret _
    · rw [if_neg hp]
      refine Alike.query Eq (fun s s' h => ?_) ?_
      · simp only [Table.contains, h.receipt]
      · rintro claimedReceipt - rfl
        exact Alike.ret _
  by_cases hw : st.hasStateWrite = true
  · rw [if_pos hw]
    refine Alike.query Eq findUserById_same ?_
    rintro latest - rfl
    split
    · exact Alike.ret _
    · exact hclaimed
  · rw [if_neg hw]
    exact hclaimed

theorem pushPrepared_alike (hu : view.userId = u) (hst : LoopResult env view ops st)
    (hid : ∀ op ∈ ops, op.id ∈ ids) (hkey : ∀ item, .upsert item ∈ ops → keys (env.id item.clientMutationId)) :
    Alike (SameFor u ids keys) (pushPrepared view st) (pushPrepared view st) := by
  unfold pushPrepared
  split
  · exact Alike.ret _
  · refine Alike.bind (Alike.batch fun q hq s s' h => ?_) fun committed => ?_
    · obtain ⟨huser, hrefer, hkeys⟩ := batchStmts_refer hst hq
      refine exec_same (huser.trans hu) (fun id he => ?_) (fun k hk => ?_) h
      · obtain ⟨op, hop, rfl⟩ := List.mem_map.mp (hrefer id he)
        exact hid op hop
      · obtain ⟨item, hitem, rfl⟩ := hkeys k hk
        exact hkey item hitem
    · split
      · exact Alike.ret _
      · exact pushAborted_alike hu

theorem prepared_alike (view : PushView) (rows : ItemId → Option VaultItemRow) (hu : view.userId = u)
    (hrows : ∀ op ∈ ops, SameRow view.userId (view.itemRowsById op.id) (rows op.id))
    (hid : ∀ op ∈ ops, op.id ∈ ids) (hkey : ∀ item, .upsert item ∈ ops → keys (env.id item.clientMutationId)) :
    Alike (SameFor u ids keys)
      (match pushLoop env view ops with
        | .error e => pure (.error e)
        | .ok st => pushPrepared view st)
      (match pushLoop env (view.withRows rows) ops with
        | .error e => pure (.error e)
        | .ok st => pushPrepared (view.withRows rows) st) := by
  rw [pushLoop_same hrows]
  cases hl : pushLoop env view ops with
  | error e => exact Alike.ret _
  | ok st => exact pushPrepared_alike hu (pushLoop_ok hl) hid hkey

theorem pushItemLevelSyncOnce_alike (plan : ItemLevelSyncPlan) (hid : ∀ op ∈ plan.operations, op.id ∈ ids)
    (hkey : ∀ item, .upsert item ∈ plan.operations → keys (env.id item.clientMutationId)) :
    Alike (SameFor u ids keys) (pushItemLevelSyncOnce env u plan) (pushItemLevelSyncOnce env u plan) := by
  unfold pushItemLevelSyncOnce
  refine Alike.query Eq findUserById_same ?_
  rintro user - rfl
  cases user with
  | none => exact Alike.ret _
  | some user =>
    dsimp only
    split
    · rename_i he
      rw [List.isEmpty_iff.mp he]
      exact @prepared_alike _ _ _ env [] ⟨u, user.serverRevision, plan.baseRevision, fun _ => none, fun _ => none⟩
        (fun _ => none) rfl nofun nofun nofun
    · refine Alike.query (fun v v' => ∀ op ∈ plan.operations, SameRow u (v op.id) (v' op.id)) (fun s s' h op hop => ?_) ?_
      · have hmem : op.id ∈ plan.operations.map (·.id) := List.mem_map_of_mem hop
        simp only [selectItemRows, if_pos hmem]
        exact h.row (hid op hop)
      · intro v v' hv
        refine Alike.query Eq (fun s s' h => ?_) ?_
        · funext m
          simp only [selectReceipts, h.receipt]
        · rintro receipts - rfl
          exact prepared_alike ⟨u, user.serverRevision, plan.baseRevision, v, receipts⟩ v' rfl hv hid hkey

theorem pushAttempts_alike {env : Nat → Env} (plan : ItemLevelSyncPlan) (hid : ∀ op ∈ plan.operations, op.id ∈ ids)
    {left : Nat} (hkey : ∀ n ≤ left, ∀ item, .upsert item ∈ plan.operations → keys ((env n).id item.clientMutationId)) :
    Alike (SameFor u ids keys) (pushAttempts env u plan left) (pushAttempts env u plan left) := by
  induction left with
  | zero => exact pushItemLevelSyncOnce_alike plan hid (hkey 0 (Nat.le_refl 0))
  | succ left ih =>
    refine Alike.bind (pushItemLevelSyncOnce_alike plan hid (hkey (left + 1) (Nat.le_refl _))) fun result => ?_
    split
    · exact ih fun n hn => hkey n (Nat.le_succ_of_le hn)
    · exact Alike.ret _

end

/-! ## Calls -/

/-- The ids the call may generate: one for each upsert, in each attempt. -/
def SyncCall.Generates : SyncCall → String → Prop
  | pushVault env _ request, k => ∃ i < request.upserts.length, k = env.id (toString i)
  | pushItemLevelSync env _ plan, k =>
    ∃ n ≤ MAX_SYNC_REVISION_RETRIES, ∃ item, .upsert item ∈ plan.operations ∧ k = (env n).id item.clientMutationId

/-- Two stores with the same rows of a user, on which the same items of the
request belong to others and the same generated ids are taken in the history:
a push of the user answers the same on both and leaves the same rows. -/
theorem pushes_alike (c : SyncCall) {s s' : Db} (h : SameFor c.userId c.itemIds c.Generates s s') :
    (c.code.run s).2 = (c.code.run s').2 ∧
      (c.code.run s).1.ownRows c.userId = (c.code.run s').1.ownRows c.userId := by
  have halike : Alike (SameFor c.userId c.itemIds c.Generates) c.code c.code := by
    cases c with
    | pushVault env u request =>
      exact Alike.bind (pushVault_alike env request (fun _ h => h) fun i hi => ⟨i, hi, rfl⟩) fun _ => Alike.ret _
    | pushItemLevelSync env u plan =>
      refine Alike.bind (pushAttempts_alike plan (fun op hop => ?_) fun n hn item hitem => ⟨n, hn, item, hitem, rfl⟩)
        fun _ => Alike.ret _
      exact List.mem_map_of_mem (f := (·.id)) hop
  obtain ⟨hresult, hsame⟩ := halike s s' h
  exact ⟨hresult, hsame.own⟩

/-! ## Another user's item -/

def withForeignItem (id : ItemId) : Db :=
  { twoUsers with vaultItems := (∅ : Table ItemId VaultItemRow).set id (.ofItem otherUser otherUpsert.toVaultItemCiphertext) }

theorem withForeignItem_own (id : ItemId) : twoUsers.ownRows sampleUser = (withForeignItem id).ownRows sampleUser := by
  have hitems : (twoUsers.ownRows sampleUser).items = ((withForeignItem id).ownRows sampleUser).items := by
    funext k
    have hforeign : (VaultItemRow.ofItem otherUser otherUpsert.toVaultItemCiphertext).userId ≠ sampleUser := by decide
    by_cases hk : k = id
    · simp [Db.ownRows, withForeignItem, twoUsers, hk, Option.filter, hforeign]
    · simp [Db.ownRows, withForeignItem, twoUsers, hk]
  exact OwnRows.ext rfl hitems rfl rfl rfl rfl

/-- `pushes_alike` next to an item of another user with another id. -/
theorem pushes_alike_otherItem :
    (samplePush.code.run twoUsers).1.ownRows sampleUser =
      (samplePush.code.run (withForeignItem sampleUser)).1.ownRows sampleUser := by
  refine (pushes_alike samplePush ⟨withForeignItem_own sampleUser, fun id hid => ?_, fun k _ => rfl⟩).2
  obtain rfl : id = sampleUpsert.id := List.mem_singleton.mp hid
  have hnone : (withForeignItem sampleUser).vaultItems.get? sampleUpsert.id = twoUsers.vaultItems.get? sampleUpsert.id := by
    decide
  rw [hnone]

def withForeignChange : Db :=
  { twoUsers with itemSyncChanges := twoUsers.itemSyncChanges.append otherUser otherUpsert.id 1 (.delete otherUpsert.id 1 "") }

def withForeignHistory (key : String) : Db :=
  { twoUsers with
    vaultItemHistory := (∅ : Table String VaultItemHistoryRow).set key
      ⟨otherUpsert.id, otherUser, 1, otherUpsert.toVaultItemCiphertext⟩ }

theorem withForeignHistory_own (key : String) :
    twoUsers.ownRows sampleUser = (withForeignHistory key).ownRows sampleUser := by
  have hhistory : (twoUsers.ownRows sampleUser).history = ((withForeignHistory key).ownRows sampleUser).history := by
    funext k
    have hforeign : otherUser ≠ sampleUser := by decide
    by_cases hk : k = key
    · simp [Db.ownRows, withForeignHistory, twoUsers, hk, Option.filter, hforeign]
    · simp [Db.ownRows, withForeignHistory, twoUsers, hk]
  exact OwnRows.ext rfl rfl hhistory rfl rfl rfl

/-- Another user's item with the id of the request's blocks it, and so does a
history row with a generated id; another user's feed entry shows in the cursors. -/
theorem tenants_share : ¬ (∀ (c : SyncCall) (s s' : Db), s.ownRows c.userId = s'.ownRows c.userId →
      s.itemSyncChanges = s'.itemSyncChanges → s.vaultItemHistory = s'.vaultItemHistory →
        (c.code.run s).1.ownRows c.userId = (c.code.run s').1.ownRows c.userId) ∧
    ¬ (∀ (c : SyncCall) (s s' : Db), s.ownRows c.userId = s'.ownRows c.userId →
      s.itemSyncChanges = s'.itemSyncChanges → s.vaultItems = s'.vaultItems →
        (c.code.run s).1.ownRows c.userId = (c.code.run s').1.ownRows c.userId) ∧
    ¬ (∀ (c : SyncCall) (s s' : Db), s.ownRows c.userId = s'.ownRows c.userId →
      s.vaultItems = s'.vaultItems → s.vaultItemHistory = s'.vaultItemHistory →
        (s.itemSyncChanges.rows.filter fun r => r.userId = c.userId) =
          (s'.itemSyncChanges.rows.filter fun r => r.userId = c.userId) →
        ((c.code.run s).1.itemSyncChanges.rows.filter fun r => r.userId = c.userId) =
          ((c.code.run s').1.itemSyncChanges.rows.filter fun r => r.userId = c.userId)) := by
  refine ⟨fun hall => ?_, fun hall => ?_, fun hall => ?_⟩
  · have hown := hall samplePush _ _ (withForeignItem_own sampleUpsert.id) rfl rfl
    have hrow := congrFun (congrArg OwnRows.items hown) sampleUpsert.id
    revert hrow
    decide +kernel
  · have hown := hall samplePush _ _ (withForeignHistory_own sampleUpsert.clientMutationId) rfl rfl
    have hrow := congrArg OwnRows.user hown
    revert hrow
    decide +kernel
  · have hrows := hall samplePush twoUsers withForeignChange rfl rfl rfl (by decide)
    revert hrows
    decide +kernel

end ZeroVault

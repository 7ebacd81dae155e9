import ZeroVault.SyncStore

/-!
# What the sync statements do

A committed statement changes each lookup by a function of the old one:
`userRow`, `itemRow`, `receipt` and `claim` are these functions. A batch folds
them. Everything the store's correctness needs is derived from the folds.
-/

namespace ZeroVault

open Lib

abbrev execBatch (stmts : List SyncStmt) (db : Db) : Option Db := execAll SyncStmt.exec stmts db

/-- `server_revision`, 0 for a missing user. -/
def Db.serverRevision (db : Db) (u : UserId) : Nat := ((db.users.get? u).map (·.serverRevision)).getD 0

def Db.itemRevision (db : Db) (id : ItemId) : Nat := ((db.vaultItems.get? id).map (·.revision)).getD 0

namespace SyncStmt

def userId : SyncStmt → UserId
  | claimRevision u _ => u
  | setServerRevision u _ => u
  | upsertVaultItem u _ => u
  | insertHistory _ u _ => u
  | insertUpsertChange u _ => u
  | markDeleted u .. => u
  | markDeletedAtBase u .. => u
  | insertDeleteChangeIfDeleted u .. => u
  | insertDeleteChange u .. => u
  | insertMutation u .. => u

/-- The item row the statement may write, with the revision it gives it. -/
def write? : SyncStmt → Option (ItemId × Nat)
  | upsertVaultItem _ item => some (item.id, item.revision)
  | markDeleted _ id revision _ => some (id, revision)
  | markDeletedAtBase _ id revision _ _ => some (id, revision)
  | _ => none

def userRow (q : SyncStmt) (v : UserId) (row : Option UserRow) : Option UserRow :=
  match q with
  | setServerRevision u revision => row.map fun row => if v = u then { row with serverRevision := revision } else row
  | _ => row

def itemRow (q : SyncStmt) (id : ItemId) (row : Option VaultItemRow) : Option VaultItemRow :=
  match q with
  | upsertVaultItem u item =>
    if id = item.id then
      match row with
      | none => some (.ofItem u item)
      | some row => some (if row.userId = u then row.overwrite item else row)
    else row
  | markDeleted u itemId revision deletedAt =>
    row.map fun row => if id = itemId && row.userId = u then row.markDeleted revision deletedAt else row
  | markDeletedAtBase u itemId revision deletedAt base =>
    row.map fun row =>
      if id = itemId && row.userId = u && row.revision = base then row.markDeleted revision deletedAt else row
  | _ => row

def receipt (q : SyncStmt) (k : UserId × MutationId) (row : Option ItemSyncMutationRow) :
    Option ItemSyncMutationRow :=
  match q with
  | insertMutation u m new => if k = (u, m) then some new else row
  | _ => row

/-- Does the statement insert the receipt of mutation `m` of user `u`? -/
def records (u : UserId) (m : MutationId) : SyncStmt → Bool
  | insertMutation v n _ => v = u && n = m
  | _ => false

def claim (q : SyncStmt) (k : UserId × Nat) (row : Option Unit) : Option Unit :=
  match q with
  | claimRevision u revision => if k = (u, revision) then some () else row
  | _ => row

end SyncStmt

/-! ## One statement -/

section
variable {q : SyncStmt} {db db' : Db}

theorem appendChange_eq {u : UserId} {id : ItemId} {n : Nat} {c : ItemLevelChange}
    (h : appendChange db u id n c = some db') :
    db.users.contains u = true ∧ db' = { db with itemSyncChanges := db.itemSyncChanges.append u id n c } := by
  unfold appendChange at h
  split at h
  · rename_i hu; cases h; exact ⟨hu, rfl⟩
  · cases h

/-- The row inserted by `INSERT INTO item_sync_mutations` was missing. -/
theorem exec_insertMutation {u : UserId} {m : MutationId} {row : ItemSyncMutationRow}
    (h : (SyncStmt.insertMutation u m row).exec db = some db') :
    ∃ t, db.itemSyncMutations.insert (u, m) row = some t ∧ db' = { db with itemSyncMutations := t } := by
  simp only [SyncStmt.exec] at h
  split at h
  · obtain ⟨t, ht, rfl⟩ := Option.map_eq_some_iff.mp h
    exact ⟨t, ht, rfl⟩
  · cases h

theorem exec_claimRevision {u : UserId} {r : Nat} (h : (SyncStmt.claimRevision u r).exec db = some db') :
    db.users.contains u = true ∧
      ∃ t, db.itemSyncRevisionClaims.insert (u, r) () = some t ∧ db' = { db with itemSyncRevisionClaims := t } := by
  simp only [SyncStmt.exec] at h
  split at h
  · rename_i hu
    obtain ⟨t, ht, rfl⟩ := Option.map_eq_some_iff.mp h
    exact ⟨hu, t, ht, rfl⟩
  · cases h

theorem exec_insertHistory {id : String} {u : UserId} {item : VaultItemCiphertext}
    (h : (SyncStmt.insertHistory id u item).exec db = some db') :
    ∃ t, db' = { db with vaultItemHistory := t } := by
  simp only [SyncStmt.exec] at h
  split at h
  · obtain ⟨t, -, rfl⟩ := Option.map_eq_some_iff.mp h
    exact ⟨t, rfl⟩
  · cases h

theorem exec_insertDeleteChangeIfDeleted {u : UserId} {id : ItemId} {n : Nat} {ts : String}
    (h : (SyncStmt.insertDeleteChangeIfDeleted u id n ts).exec db = some db') :
    ∃ t, db' = { db with itemSyncChanges := t } := by
  simp only [SyncStmt.exec] at h
  split at h
  · split at h
    · exact ⟨_, (appendChange_eq h).2⟩
    · cases h; exact ⟨_, rfl⟩
  · cases h; exact ⟨_, rfl⟩

theorem exec_upsertVaultItem {u : UserId} {item : VaultItemCiphertext}
    (h : (SyncStmt.upsertVaultItem u item).exec db = some db') :
    (∃ t, db' = { db with vaultItems := t }) ∧
      ∀ id, db'.vaultItems.get? id = (SyncStmt.upsertVaultItem u item).itemRow id (db.vaultItems.get? id) := by
  simp only [SyncStmt.exec, upsertVaultItem] at h
  split at h
  · rename_i hrow
    split at h
    · cases h
      refine ⟨⟨_, rfl⟩, fun id => ?_⟩
      by_cases hid : id = item.id
      · subst hid; simp [SyncStmt.itemRow, hrow]
      · simp [SyncStmt.itemRow, hid]
    · cases h
  · rename_i row hrow
    split at h
    · rename_i hu
      cases h
      refine ⟨⟨_, rfl⟩, fun id => ?_⟩
      by_cases hid : id = item.id
      · subst hid; simp [SyncStmt.itemRow, hrow, hu]
      · simp [SyncStmt.itemRow, hid]
    · rename_i hu
      cases h
      refine ⟨⟨db.vaultItems, rfl⟩, fun id => ?_⟩
      by_cases hid : id = item.id
      · subst hid; simp [SyncStmt.itemRow, hrow, hu]
      · simp [SyncStmt.itemRow, hid]

structure Effect (q : SyncStmt) (db db' : Db) : Prop where
  users : ∀ v, db'.users.get? v = q.userRow v (db.users.get? v)
  items : ∀ id, db'.vaultItems.get? id = q.itemRow id (db.vaultItems.get? id)
  receipts : ∀ k, db'.itemSyncMutations.get? k = q.receipt k (db.itemSyncMutations.get? k)
  claims : ∀ k, db'.itemSyncRevisionClaims.get? k = q.claim k (db.itemSyncRevisionClaims.get? k)

theorem exec_effect (h : q.exec db = some db') : Effect q db db' := by
  cases q with
  | claimRevision u r =>
    obtain ⟨-, t, ht, rfl⟩ := exec_claimRevision h
    exact ⟨fun v => rfl, fun id => rfl, fun k => rfl, fun k => Table.get?_insert ht k⟩
  | setServerRevision u r =>
    simp only [SyncStmt.exec, Option.some.injEq] at h
    subst h
    exact ⟨fun v => by simp [SyncStmt.userRow], fun id => rfl, fun k => rfl, fun k => rfl⟩
  | upsertVaultItem u item =>
    obtain ⟨⟨t, rfl⟩, hrow⟩ := exec_upsertVaultItem h
    exact ⟨fun v => rfl, hrow, fun k => rfl, fun k => rfl⟩
  | insertHistory id u item =>
    obtain ⟨t, rfl⟩ := exec_insertHistory h
    exact ⟨fun v => rfl, fun id => rfl, fun k => rfl, fun k => rfl⟩
  | insertUpsertChange u item =>
    obtain ⟨-, rfl⟩ := appendChange_eq h
    exact ⟨fun v => rfl, fun id => rfl, fun k => rfl, fun k => rfl⟩
  | markDeleted u id r ts =>
    simp only [SyncStmt.exec, Option.some.injEq] at h
    subst h
    exact ⟨fun v => rfl, fun id => by simp only [SyncStmt.itemRow, Table.get?_updateWhere], fun k => rfl, fun k => rfl⟩
  | markDeletedAtBase u id r ts base =>
    simp only [SyncStmt.exec, Option.some.injEq] at h
    subst h
    exact ⟨fun v => rfl, fun id => by simp only [SyncStmt.itemRow, Table.get?_updateWhere], fun k => rfl, fun k => rfl⟩
  | insertDeleteChangeIfDeleted u id r ts =>
    obtain ⟨t, rfl⟩ := exec_insertDeleteChangeIfDeleted h
    exact ⟨fun v => rfl, fun id => rfl, fun k => rfl, fun k => rfl⟩
  | insertDeleteChange u id r ts =>
    obtain ⟨-, rfl⟩ := appendChange_eq h
    exact ⟨fun v => rfl, fun id => rfl, fun k => rfl, fun k => rfl⟩
  | insertMutation u m row =>
    obtain ⟨t, ht, rfl⟩ := exec_insertMutation h
    exact ⟨fun v => rfl, fun id => rfl, fun k => Table.get?_insert ht k, fun k => rfl⟩

structure SyncFrame (s s' : Db) : Prop where
  sessions : s'.sessions = s.sessions
  logins : s'.loginSessions = s.loginSessions
  packets : s'.recoveryPackets = s.recoveryPackets
  challenges : s'.recoveryChallenges = s.recoveryChallenges
  claims : s'.recoveryClaims = s.recoveryClaims
  devices : s'.trustedDevices = s.trustedDevices
  vaultKeys : s'.deviceVaultKeys = s.deviceVaultKeys

theorem SyncFrame.trans {s s' s'' : Db} (h : SyncFrame s s') (h' : SyncFrame s' s'') : SyncFrame s s'' := by
  cases h; cases h'
  constructor <;> simp_all

theorem exec_syncFrame (h : q.exec db = some db') : SyncFrame db db' := by
  cases q with
  | claimRevision u r =>
    obtain ⟨-, t, -, rfl⟩ := exec_claimRevision h
    constructor <;> rfl
  | upsertVaultItem u item =>
    obtain ⟨⟨t, rfl⟩, -⟩ := exec_upsertVaultItem h
    constructor <;> rfl
  | insertHistory id u item =>
    obtain ⟨t, rfl⟩ := exec_insertHistory h
    constructor <;> rfl
  | insertUpsertChange u item =>
    obtain ⟨-, rfl⟩ := appendChange_eq h
    constructor <;> rfl
  | insertDeleteChangeIfDeleted u id r ts =>
    obtain ⟨t, rfl⟩ := exec_insertDeleteChangeIfDeleted h
    constructor <;> rfl
  | insertDeleteChange u id r ts =>
    obtain ⟨-, rfl⟩ := appendChange_eq h
    constructor <;> rfl
  | insertMutation u m row =>
    obtain ⟨t, -, rfl⟩ := exec_insertMutation h
    constructor <;> rfl
  | setServerRevision | markDeleted | markDeletedAtBase =>
    simp only [SyncStmt.exec, Option.some.injEq] at h
    subst h
    constructor <;> rfl

end

/-! ## Batches -/

section
variable {stmts : List SyncStmt} {db db' : Db}

theorem batch_syncFrame (h : execBatch stmts db = some db') : SyncFrame db db' :=
  execAll_rel SyncStmt.exec (R := SyncFrame) (fun _ => by constructor <;> rfl) (fun _ _ _ => SyncFrame.trans)
    (fun _ _ _ _ hx => exec_syncFrame hx) h

/-- A receipt, once inserted, never changes. -/
theorem batch_receipts (h : execBatch stmts db = some db') (k : UserId × MutationId) (row : ItemSyncMutationRow)
    (hk : db.itemSyncMutations.get? k = some row) : db'.itemSyncMutations.get? k = some row := by
  refine execAll_keeps SyncStmt.exec (P := fun s => s.itemSyncMutations.get? k = some row)
    (fun q _ s s' hq hs => ?_) h hk
  rw [(exec_effect hq).receipts]
  cases q with
  | insertMutation u m new =>
    obtain ⟨t, ht, -⟩ := exec_insertMutation hq
    simp only [SyncStmt.receipt]
    split
    · rename_i he; subst he
      rw [Table.get?_of_insert ht] at hs; cases hs
    · exact hs
  | _ => exact hs

theorem batch_receipts_none (h : execBatch stmts db = some db') {k : UserId × MutationId}
    (hk : db'.itemSyncMutations.get? k = none) : db.itemSyncMutations.get? k = none := by
  cases hd : db.itemSyncMutations.get? k with
  | none => rfl
  | some row => rw [batch_receipts h k row hd] at hk; cases hk

theorem batch_insertMutation (h : execBatch stmts db = some db') {u : UserId} {m : MutationId}
    {row : ItemSyncMutationRow} (hm : .insertMutation u m row ∈ stmts) :
    db.itemSyncMutations.get? (u, m) = none ∧ db'.itemSyncMutations.get? (u, m) = some row := by
  obtain ⟨qs, rs, rfl⟩ := List.append_of_mem hm
  obtain ⟨s, hqs, hrs⟩ := (execAll_append SyncStmt.exec).mp h
  obtain ⟨t, hq, hrs⟩ := (execAll_cons SyncStmt.exec).mp hrs
  obtain ⟨t', ht, -⟩ := exec_insertMutation hq
  refine ⟨batch_receipts_none hqs (Table.get?_of_insert ht), batch_receipts hrs _ _ ?_⟩
  rw [(exec_effect hq).receipts]
  simp [SyncStmt.receipt]

theorem batch_receipt_from (h : execBatch stmts db = some db') {u : UserId} {m : MutationId}
    {row : ItemSyncMutationRow} (hk : db'.itemSyncMutations.get? (u, m) = some row) :
    db.itemSyncMutations.get? (u, m) = some row ∨ .insertMutation u m row ∈ stmts := by
  induction stmts generalizing db with
  | nil => cases h; exact .inl hk
  | cons q qs ih =>
    obtain ⟨t, hq, hqs⟩ := (execAll_cons SyncStmt.exec).mp h
    rcases ih hqs with ht | hm
    · rw [(exec_effect hq).receipts] at ht
      cases q with
      | insertMutation v n new =>
        simp only [SyncStmt.receipt] at ht
        split at ht
        · rename_i he; cases he; cases ht; exact .inr List.mem_cons_self
        · exact .inl ht
      | _ => exact .inl ht
    · exact .inr (List.mem_cons_of_mem _ hm)

/-- A receipt is inserted once, and never when it was there before. -/
theorem batch_receipt_once (h : execBatch stmts db = some db') (u : UserId) (m : MutationId) :
    stmts.countP (·.records u m) + (if db.itemSyncMutations.contains (u, m) then 1 else 0) ≤ 1 := by
  induction stmts generalizing db with
  | nil => simp only [List.countP_nil]; split <;> omega
  | cons q qs ih =>
    obtain ⟨t, hq, hqs⟩ := (execAll_cons SyncStmt.exec).mp h
    have ih := ih hqs
    unfold Table.contains at ih ⊢
    rw [(exec_effect hq).receipts] at ih
    rw [List.countP_cons]
    cases q with
    | insertMutation v n new =>
      obtain ⟨t', ht, -⟩ := exec_insertMutation hq
      by_cases he : v = u ∧ n = m
      · obtain ⟨rfl, rfl⟩ := he
        rw [Table.get?_of_insert ht]
        simpa [SyncStmt.receipt, SyncStmt.records] using ih
      · have hne : ¬ (u = v ∧ m = n) := fun h => he ⟨h.1.symm, h.2.symm⟩
        simpa [SyncStmt.receipt, SyncStmt.records, he, hne] using ih
    | _ => exact ih

theorem batch_claims (h : execBatch stmts db = some db') (k : UserId × Nat)
    (hk : db.itemSyncRevisionClaims.get? k = some ()) : db'.itemSyncRevisionClaims.get? k = some () := by
  refine execAll_keeps SyncStmt.exec (P := fun s => s.itemSyncRevisionClaims.get? k = some ())
    (fun q _ s s' hq hs => ?_) h hk
  rw [(exec_effect hq).claims]
  cases q with
  | claimRevision u r => simp only [SyncStmt.claim, hs, ite_self]
  | _ => exact hs

theorem batch_claimRevision (h : execBatch stmts db = some db') {u : UserId} {r : Nat}
    (hm : .claimRevision u r ∈ stmts) :
    db.itemSyncRevisionClaims.get? (u, r) = none ∧ db'.itemSyncRevisionClaims.get? (u, r) = some () := by
  obtain ⟨qs, rs, rfl⟩ := List.append_of_mem hm
  obtain ⟨s, hqs, hrs⟩ := (execAll_append SyncStmt.exec).mp h
  obtain ⟨t, hq, hrs⟩ := (execAll_cons SyncStmt.exec).mp hrs
  obtain ⟨-, t', ht, -⟩ := exec_claimRevision hq
  refine ⟨?_, batch_claims hrs _ ?_⟩
  · cases hd : db.itemSyncRevisionClaims.get? (u, r) with
    | none => rfl
    | some v => rw [← Table.get?_of_insert ht, batch_claims hqs _ hd]
  · rw [(exec_effect hq).claims]
    simp [SyncStmt.claim]

theorem batch_users (h : execBatch stmts db = some db') (v : UserId) :
    db'.users.contains v = db.users.contains v := by
  refine execAll_rel SyncStmt.exec (R := fun s s' => s'.users.contains v = s.users.contains v) (fun _ => rfl)
    (fun _ _ _ h12 h23 => h23.trans h12) (fun q _ s s' hq => ?_) h
  unfold Table.contains
  rw [(exec_effect hq).users]
  cases q with
  | setServerRevision u r => simp only [SyncStmt.userRow, Option.isSome_map]
  | _ => rfl

/-- Only `setServerRevision` moves a server revision. -/
theorem batch_serverRevision_eq (h : execBatch stmts db = some db') {v : UserId}
    (hv : ∀ r, .setServerRevision v r ∉ stmts) : db'.serverRevision v = db.serverRevision v := by
  refine execAll_rel SyncStmt.exec (R := fun s s' => s'.serverRevision v = s.serverRevision v) (fun _ => rfl)
    (fun _ _ _ h12 h23 => h23.trans h12) (fun q hm s s' hq => ?_) h
  unfold Db.serverRevision
  rw [(exec_effect hq).users]
  cases q with
  | setServerRevision u r =>
    have hne : v ≠ u := by rintro rfl; exact hv r hm
    simp [SyncStmt.userRow, hne]
  | _ => rfl

theorem batch_serverRevision_set (h : execBatch stmts db = some db') {u : UserId} {n : Nat}
    (hu : db.users.contains u = true) (hm : .setServerRevision u n ∈ stmts)
    (hn : ∀ r, .setServerRevision u r ∈ stmts → r = n) : db'.serverRevision u = n := by
  obtain ⟨qs, rs, rfl⟩ := List.append_of_mem hm
  obtain ⟨s, hqs, hrs⟩ := (execAll_append SyncStmt.exec).mp h
  obtain ⟨t, hq, hrs⟩ := (execAll_cons SyncStmt.exec).mp hrs
  have hs : s.users.contains u = true := by rw [batch_users hqs, hu]
  obtain ⟨row, hrow⟩ := Table.contains_eq_true.mp hs
  have ht : t.serverRevision u = n := by
    unfold Db.serverRevision
    rw [(exec_effect hq).users, hrow]
    simp [SyncStmt.userRow]
  refine execAll_keeps SyncStmt.exec (P := fun s => s.serverRevision u = n) (fun q hqm s s' hq hs => ?_) hrs ht
  unfold Db.serverRevision at hs ⊢
  rw [(exec_effect hq).users]
  cases q with
  | setServerRevision v r =>
    by_cases he : u = v
    · subst he
      have hr : r = n := hn r (by simp [hqm])
      subst hr
      cases hg : s.users.get? u with
      | none => rw [hg] at hs; exact hs
      | some row => simp [SyncStmt.userRow]
    · simpa [SyncStmt.userRow, he] using hs
  | _ => exact hs

end

/-! ## Batches and item rows -/

/-- A batch of user `u` whose item writes all carry revision `n`. -/
structure Writes (u : UserId) (n : Nat) (stmts : List SyncStmt) : Prop where
  userId : ∀ q ∈ stmts, q.userId = u
  revision : ∀ q ∈ stmts, ∀ id r, q.write? = some (id, r) → r = n

theorem Writes.mono {u : UserId} {n : Nat} {stmts qs : List SyncStmt} (h : Writes u n stmts) (hs : qs ⊆ stmts) :
    Writes u n qs where
  userId q hq := h.userId q (hs hq)
  revision q hq := h.revision q (hs hq)

/-- No other user has the row. -/
def Free (u : UserId) (row : Option VaultItemRow) : Prop := ∀ r, row = some r → r.userId = u

section
variable {u : UserId} {row : Option VaultItemRow}

theorem filter_free (h : Free u row) : row.filter (·.userId = u) = row := by
  cases row with
  | none => rfl
  | some r => simp [Option.filter, h r rfl]

theorem not_free (h : ¬ Free u row) : ∃ r, row = some r ∧ r.userId ≠ u := by
  cases row with
  | none =>
    exfalso
    apply h
    exact nofun
  | some r =>
    refine ⟨r, rfl, fun hu => h fun r' hr' => ?_⟩
    cases hr'
    exact hu

end

/-- A row stays, or becomes a row of user `u` at revision `n`; no other user's
row is touched. -/
def RowStep (u : UserId) (n : Nat) (r r' : Option VaultItemRow) : Prop :=
  r' = r ∨ ∃ row', r' = some row' ∧ row'.userId = u ∧ row'.revision = n ∧ ∀ row, r = some row → row.userId = u

theorem RowStep.trans {u : UserId} {n : Nat} {r₁ r₂ r₃ : Option VaultItemRow} (h₁₂ : RowStep u n r₁ r₂)
    (h₂₃ : RowStep u n r₂ r₃) : RowStep u n r₁ r₃ := by
  rcases h₂₃ with rfl | ⟨row₃, rfl, hu, hn, ho⟩
  · exact h₁₂
  · rcases h₁₂ with rfl | ⟨row₂, rfl, hu₂, -, ho₂⟩
    · exact .inr ⟨row₃, rfl, hu, hn, ho⟩
    · exact .inr ⟨row₃, rfl, hu, hn, ho₂⟩

section
variable {u : UserId} {n : Nat} {stmts : List SyncStmt} {db db' : Db}

theorem itemRow_step {q : SyncStmt} (hu : q.userId = u) (hn : ∀ id r, q.write? = some (id, r) → r = n) (id : ItemId)
    (row : Option VaultItemRow) : RowStep u n row (q.itemRow id row) := by
  cases q with
  | upsertVaultItem v item =>
    have hn : item.revision = n := hn item.id _ rfl
    have hu : v = u := hu
    subst hu
    simp only [SyncStmt.itemRow]
    split
    · cases row with
      | none => exact .inr ⟨_, rfl, rfl, hn, fun row h => by cases h⟩
      | some row =>
        by_cases ho : row.userId = v
        · simp only [if_pos ho]
          exact .inr ⟨_, rfl, ho, hn, fun row' h => by cases h; exact ho⟩
        · exact .inl (by simp [ho])
    · exact .inl rfl
  | markDeleted v itemId r ts =>
    have hn : r = n := hn itemId _ rfl
    have hu : v = u := hu
    subst hu hn
    cases row with
    | none => exact .inl rfl
    | some row =>
      simp only [SyncStmt.itemRow, Option.map_some]
      split
      · rename_i ho
        simp only [Bool.and_eq_true, decide_eq_true_eq] at ho
        exact .inr ⟨_, rfl, ho.2, rfl, fun row' h => by cases h; exact ho.2⟩
      · exact .inl rfl
  | markDeletedAtBase v itemId r ts base =>
    have hn : r = n := hn itemId _ rfl
    have hu : v = u := hu
    subst hu hn
    cases row with
    | none => exact .inl rfl
    | some row =>
      simp only [SyncStmt.itemRow, Option.map_some]
      split
      · rename_i ho
        simp only [Bool.and_eq_true, decide_eq_true_eq] at ho
        exact .inr ⟨_, rfl, ho.1.2, rfl, fun row' h => by cases h; exact ho.1.2⟩
      · exact .inl rfl
  | _ => exact .inl rfl

theorem batch_rows (hw : Writes u n stmts) (h : execBatch stmts db = some db') (id : ItemId) :
    RowStep u n (db.vaultItems.get? id) (db'.vaultItems.get? id) := by
  refine execAll_rel SyncStmt.exec (R := fun s s' => RowStep u n (s.vaultItems.get? id) (s'.vaultItems.get? id))
    (fun _ => .inl rfl) (fun _ _ _ => .trans) (fun q hq s s' hs => ?_) h
  rw [(exec_effect hs).items]
  exact itemRow_step (hw.userId q hq) (hw.revision q hq) id _

theorem batch_row_eq (h : execBatch stmts db = some db') {id : ItemId}
    (hid : ∀ q ∈ stmts, ∀ r, q.write? ≠ some (id, r)) : db'.vaultItems.get? id = db.vaultItems.get? id := by
  refine execAll_rel SyncStmt.exec (R := fun s s' => s'.vaultItems.get? id = s.vaultItems.get? id) (fun _ => rfl)
    (fun _ _ _ h12 h23 => h23.trans h12) (fun q hq s s' hs => ?_) h
  rw [(exec_effect hs).items]
  have hid := hid q hq
  cases q with
  | upsertVaultItem v item =>
    have : id ≠ item.id := by rintro rfl; exact hid _ rfl
    simp [SyncStmt.itemRow, this]
  | markDeleted v itemId r ts =>
    have : id ≠ itemId := by rintro rfl; exact hid _ rfl
    simp [SyncStmt.itemRow, this]
  | markDeletedAtBase v itemId r ts base =>
    have : id ≠ itemId := by rintro rfl; exact hid _ rfl
    simp [SyncStmt.itemRow, this]
  | _ => rfl

/-- The row is one of user `u` at revision `n`. -/
def WrittenAt (u : UserId) (n : Nat) (r : Option VaultItemRow) : Prop :=
  ∃ row, r = some row ∧ row.userId = u ∧ row.revision = n

theorem RowStep.writtenAt {r r' : Option VaultItemRow} (h : RowStep u n r r') (hr : WrittenAt u n r) :
    WrittenAt u n r' := by
  rcases h with rfl | ⟨row', rfl, hu, hn, -⟩
  · exact hr
  · exact ⟨row', rfl, hu, hn⟩

/-- An upsert over no row or a row of the user writes it. -/
theorem batch_upsertVaultItem (hw : Writes u n stmts) (h : execBatch stmts db = some db') {item : VaultItemCiphertext}
    (hm : .upsertVaultItem u item ∈ stmts) (hr : ∀ row, db.vaultItems.get? item.id = some row → row.userId = u) :
    WrittenAt u n (db'.vaultItems.get? item.id) := by
  have hn : item.revision = n := hw.revision _ hm item.id _ rfl
  obtain ⟨qs, rs, rfl⟩ := List.append_of_mem hm
  obtain ⟨s, hqs, hrs⟩ := (execAll_append SyncStmt.exec).mp h
  obtain ⟨t, hq, hrs⟩ := (execAll_cons SyncStmt.exec).mp hrs
  have h1 := batch_rows (hw.mono (by simp)) hqs item.id
  refine (batch_rows (hw.mono (by simp)) hrs item.id).writtenAt ?_
  rw [(exec_effect hq).items]
  cases hs : s.vaultItems.get? item.id with
  | none => exact ⟨.ofItem u item, by simp [SyncStmt.itemRow], rfl, hn⟩
  | some row =>
    have hu : row.userId = u := by
      rcases h1 with he | ⟨row', he, hu, -⟩
      · exact hr row (he ▸ hs)
      · rw [hs] at he; cases he; exact hu
    exact ⟨row.overwrite item, by simp [SyncStmt.itemRow, hu], hu, hn⟩

/-- A deletion at a base that the user's row has, or already written over in
the same batch, leaves the row at the batch's revision. -/
theorem batch_markDeletedAtBase (hw : Writes u n stmts) (h : execBatch stmts db = some db') {id : ItemId} {r base : Nat}
    {ts : String} (hm : .markDeletedAtBase u id r ts base ∈ stmts) {row : VaultItemRow}
    (hr : db.vaultItems.get? id = some row) (hu : row.userId = u) (hb : row.revision = base) :
    WrittenAt u n (db'.vaultItems.get? id) := by
  have hn : r = n := hw.revision _ hm id _ rfl
  obtain ⟨qs, rs, rfl⟩ := List.append_of_mem hm
  obtain ⟨s, hqs, hrs⟩ := (execAll_append SyncStmt.exec).mp h
  obtain ⟨t, hq, hrs⟩ := (execAll_cons SyncStmt.exec).mp hrs
  have h1 := batch_rows (hw.mono (by simp)) hqs id
  refine (batch_rows (hw.mono (by simp)) hrs id).writtenAt ?_
  rw [(exec_effect hq).items]
  rcases h1 with he | hwr
  · rw [he, hr]
    exact ⟨row.markDeleted r ts, by simp [SyncStmt.itemRow, hu, hb], hu, hn⟩
  · obtain ⟨row', he, hu', hn', -⟩ := hwr
    have := itemRow_step (q := .markDeletedAtBase u id r ts base) rfl (fun _ _ h => by cases h; exact hn) id
      (s.vaultItems.get? id)
    exact this.writtenAt ⟨row', he, hu', hn'⟩

end

end ZeroVault

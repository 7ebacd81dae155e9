import ZeroVault.MobileRuns

/-!
# The sync service of the mobile app

The push loop of `synchronize`: a round takes a batch of the pending mutations
whose item is not in conflict, pushes it and stores what the answer says, in two
transactions. What the loop goes on for is in the database alone (`eligible`):
a round after which it goes on leaves fewer of these (`round_decreases`).
-/

namespace ZeroVault.Mobile

open Lib Browser

inductive SyncFailure
  | error (message : String)
  | zod
  | repository (failure : Failure)
  | request (message : String)
deriving DecidableEq, Repr

def MAX_MUTATIONS_PER_PUSH : Nat := 100

/-! ## A push -/

/-- What the server answers to a plan, or what is thrown instead, also where the answer has no receipts. -/
abbrev Answer := ItemLevelSyncPlan → Except SyncFailure ItemLevelSyncPushResult

section
variable (F : Formats) (P : Platform) (accountId : UserId)

def parsed (accepted : Bool) : Except SyncFailure Unit := if accepted then .ok () else .error .zod

def upsertOf (mutation : PendingMutationEntity) : Except SyncFailure ItemLevelEncryptedUpsert :=
  match mutation.ciphertextEnvelope with
  | none => .error (.error "pending_ciphertext_missing")
  | some ciphertext => do
    parsed (vaultItemCiphertextSchema F ciphertext)
    if ciphertext.id ≠ mutation.recordId then throw (.error "pending_item_id_mismatch")
    let upsert : ItemLevelEncryptedUpsert := ⟨ciphertext, mutation.baseItemRevision, mutation.clientMutationId, none⟩
    parsed (itemLevelEncryptedUpsertSchema F upsert)
    pure upsert

def deleteOf (mutation : PendingMutationEntity) : Except SyncFailure ItemLevelEncryptedDelete := do
  let delete : ItemLevelEncryptedDelete :=
    ⟨mutation.recordId, accountId, mutation.baseItemRevision, mutation.createdAt, mutation.clientMutationId⟩
  parsed (itemLevelEncryptedDeleteSchema F delete)
  pure delete

def planOf (serverRevision : Nat) (batch : List PendingMutationEntity) : Except SyncFailure ItemLevelSyncPlan := do
  let upserts ← (batch.filter (·.operation = .upsert)).mapM (upsertOf F)
  let deletes ← (batch.filter (·.operation = .delete)).mapM (deleteOf F accountId)
  let plan : ItemLevelSyncPlan := ⟨serverRevision, upserts, deletes⟩
  parsed (itemLevelSyncPlanSchema F plan)
  pure plan

/-- `Map.get`: of several mutations the last. -/
def lastWhere (batch : List PendingMutationEntity) (p : PendingMutationEntity → Bool) : Option PendingMutationEntity :=
  batch.reverse.find? p

def validateReceipts (receipts : List AppliedMutationReceipt) (batch : List PendingMutationEntity) :
    Except SyncFailure Unit :=
  if !decide (receipts.map (·.clientMutationId)).Nodup then .error (.error "duplicate_sync_receipt")
  else if receipts.all fun receipt => (lastWhere batch (·.clientMutationId = receipt.clientMutationId)).any fun pending =>
      pending.recordId = receipt.itemId && pending.operation = receipt.operation then .ok ()
  else .error (.error "sync_receipt_mismatch")

def validateConflicts (conflicts : List ItemLevelSyncConflict) (batch : List PendingMutationEntity)
    (receipts : List AppliedMutationReceipt) : Except SyncFailure Unit :=
  if decide (conflicts.map (·.itemId)).Nodup && conflicts.all fun conflict =>
      !(receipts.map (·.itemId)).contains conflict.itemId &&
        (lastWhere batch (·.recordId = conflict.itemId)).any fun pending =>
          pending.operation = conflict.operation && pending.baseItemRevision = conflict.clientBaseRevision then .ok ()
  else .error (.error "sync_conflict_mismatch")

def Database.serverRevision (db : Database) (accountId : UserId) : Nat :=
  ((db.syncCursors.get? accountId).map (·.serverRevision)).getD 0

def exchange (answer : Answer) (batch : List PendingMutationEntity) (db : Database) :
    Except SyncFailure ItemLevelSyncPushResult := do
  let plan ← planOf F accountId (db.serverRevision accountId) batch
  let response ← answer plan
  if response.serverRevision < db.serverRevision accountId then throw (.error "sync_server_revision_regressed")
  validateReceipts response.applied.mutationReceipts batch
  validateConflicts response.conflicts batch response.applied.mutationReceipts
  pure response

def conflictOf (batch : List PendingMutationEntity) (now : String) (conflict : ItemLevelSyncConflict) :
    Except SyncFailure SyncConflict := do
  let localCiphertext := (batch.find? (·.recordId = conflict.itemId)).bind (·.ciphertextEnvelope)
  parsed (localCiphertext.all (vaultItemCiphertextSchema F))
  let remoteCiphertext := match conflict.serverState with
    | .item item => some item
    | _ => none
  pure ⟨⟨conflict.reason, localCiphertext, remoteCiphertext, conflict.serverRevision, conflict.serverItemRevision,
    "UNRESOLVED", now⟩, conflict.itemId⟩

def acknowledgementOf (receipt : AppliedMutationReceipt) : MutationAcknowledgement :=
  ⟨receipt.clientMutationId, receipt.appliedItemRevision⟩

/-- A transaction of the repository, as the service sees it. -/
def transact (operation : Database → Except Failure Database) (db : Database) : Database × Except SyncFailure Unit :=
  match operation db with
  | .ok db' => (db', .ok ())
  | .error failure => (db, .error (.repository failure))

def saveAnswered (batch : List PendingMutationEntity) (now : String) (conflicts : List ItemLevelSyncConflict)
    (db : Database) : Database × Except SyncFailure Unit :=
  if conflicts.isEmpty then (db, .ok ())
  else match conflicts.mapM (conflictOf F batch now) with
    | .error failure => (db, .error failure)
    | .ok conflicts => transact (saveConflicts P accountId conflicts) db

def pushBatch (answer : Answer) (now : String) (batch : List PendingMutationEntity) (db : Database) :
    Database × Except SyncFailure (Nat × Nat) :=
  match exchange F accountId answer batch db with
  | .error failure => (db, .error failure)
  | .ok response =>
    let receipts := response.applied.mutationReceipts
    match transact (ackMutations P accountId (receipts.map acknowledgementOf) response.serverRevision now) db with
    | (db, .error failure) => (db, .error failure)
    | (db, .ok _) =>
      match saveAnswered F P accountId batch now response.conflicts db with
      | (db, .error failure) => (db, .error failure)
      | (db, .ok _) => (db, .ok (receipts.length, response.conflicts.length))

/-! ## The loop -/

def eligible (db : Database) : List PendingMutationEntity :=
  (db.listPending accountId).filter fun mutation =>
    !((db.unresolvedConflicts accountId).map (·.1.2)).contains mutation.recordId

def drainRound (answer : Answer) (now : String) (db : Database) : Database × Except SyncFailure Bool :=
  if (db.listPending accountId).isEmpty then (db, .ok false)
  else
    let batch := (eligible accountId db).take MAX_MUTATIONS_PER_PUSH
    -- all that is left is in conflict
    if batch.isEmpty then (db, .ok false)
    else match pushBatch F P accountId answer now batch db with
      | (db, .error failure) => (db, .error failure)
      | (db, .ok (applied, conflicted)) => (db, .ok !(applied = 0 && conflicted = 0))

/-- The loop from its round `k` on, with the number of its rounds. -/
inductive Drains (answers : Nat → Answer) (clock : Nat → String) :
    Nat → Database → Nat → Database → Except SyncFailure Unit → Prop
  | stops {k db db'} : drainRound F P accountId (answers k) (clock k) db = (db', .ok false) →
      Drains answers clock k db 1 db' (.ok ())
  | throws {k db db' failure} : drainRound F P accountId (answers k) (clock k) db = (db', .error failure) →
      Drains answers clock k db 1 db' (.error failure)
  | goesOn {k db db₁ n db' result} : drainRound F P accountId (answers k) (clock k) db = (db₁, .ok true) →
      Drains answers clock (k + 1) db₁ n db' result → Drains answers clock k db (n + 1) db' result

end

/-! ## What a round does to the queue -/

section
variable {F : Formats} {P : Platform} {a : UserId} {answer : Answer} {now : String}
variable {db db' : Database} {batch : List PendingMutationEntity}

def Database.Unresolved (db : Database) (a : UserId) (x : ItemId) : Prop :=
  ∃ conflict, db.syncConflicts.get? (a, x) = some conflict ∧ conflict.status = "UNRESOLVED"

theorem unresolved_iff {x : ItemId} :
    ((db.unresolvedConflicts a).map (·.1.2)).contains x = true ↔ db.Unresolved a x := by
  unfold Database.unresolvedConflicts Database.Unresolved
  rw [List.contains_iff_mem, List.mem_map]
  constructor
  · rintro ⟨⟨⟨a', x'⟩, conflict⟩, hsel, rfl⟩
    obtain ⟨hget, hc⟩ := Table.mem_select.mp hsel
    rw [Bool.and_eq_true, decide_eq_true_eq, decide_eq_true_eq] at hc
    obtain rfl : a' = a := hc.1
    exact ⟨conflict, hget, hc.2⟩
  · rintro ⟨conflict, hget, hstatus⟩
    exact ⟨((a, x), conflict), Table.mem_select.mpr ⟨hget, by simp [hstatus]⟩, rfl⟩

theorem mem_eligible {m : PendingMutationEntity} : m ∈ eligible a db ↔
    m ∈ db.pendingMutations ∧ m.accountId = a ∧ ¬ db.Unresolved a m.recordId := by
  unfold eligible Database.listPending
  rw [List.mem_filter, List.mem_mergeSort, List.mem_filter, decide_eq_true_eq, Bool.not_eq_true', and_assoc,
    ← unresolved_iff, Bool.not_eq_true]

theorem ackMutations_queue {acks : List MutationAcknowledgement} {serverRevision : Nat}
    (h : ackMutations P a acks serverRevision now db = .ok db') :
    db'.pendingMutations = (db.deleteAllPending a (acks.map (·.clientMutationId))).pendingMutations ∧
      db'.syncConflicts = db.syncConflicts := by
  obtain ⟨_, -, h⟩ := except_bind_ok h
  obtain ⟨_, -, h⟩ := except_bind_ok h
  obtain ⟨_, -, h⟩ := except_bind_ok h
  obtain ⟨_, -, h⟩ := except_bind_ok h
  obtain ⟨_, -, h⟩ := except_bind_ok h
  dsimp only at h
  split at h
  · cases h
  obtain ⟨db₁, hfold, h⟩ := except_bind_ok h
  split at h
  · cases h
  cases h
  -- one turn touches the record of its mutation, never the queue
  have hone {m : PendingMutationEntity} {db db₁ : Database} (h : acknowledge acks now db m = .ok db₁) :
      db₁.pendingMutations = db.pendingMutations ∧ db₁.syncConflicts = db.syncConflicts := by
    unfold acknowledge at h
    split at h
    · cases h
      exact ⟨rfl, rfl⟩
    · obtain ⟨_, -, h⟩ := except_bind_ok h
      obtain ⟨_, -, h⟩ := except_bind_ok h
      cases h
      exact ⟨rfl, rfl⟩
  have hall : ∀ (l : List PendingMutationEntity) {db db₁ : Database}, l.foldlM (acknowledge acks now) db = .ok db₁ →
      db₁.pendingMutations = db.pendingMutations ∧ db₁.syncConflicts = db.syncConflicts := by
    intro l
    induction l with
    | nil =>
      intro db db₁ h
      cases h
      exact ⟨rfl, rfl⟩
    | cons m l ih =>
      intro db db₁ h
      rw [List.foldlM_cons] at h
      obtain ⟨db₂, h1, h⟩ := except_bind_ok h
      exact ⟨(ih h).1.trans (hone h1).1, (ih h).2.trans (hone h1).2⟩
  obtain ⟨hp, hc⟩ := hall _ hfold
  refine ⟨?_, hc⟩
  unfold Database.deleteAllPending
  dsimp only [Database.upsertCursor]
  rw [hp]

/-- Saving conflicts leaves the queue and the conflicts that were there, and adds its own. -/
theorem saveConflicts_queue {conflicts : List SyncConflict} (hopen : ∀ c ∈ conflicts, c.status = "UNRESOLVED")
    (h : saveConflicts P a conflicts db = .ok db') : db'.pendingMutations = db.pendingMutations ∧
      (∀ x, db.Unresolved a x → db'.Unresolved a x) ∧ ∀ c ∈ conflicts, db'.Unresolved a c.recordId := by
  obtain ⟨_, -, h⟩ := except_bind_ok h
  cases h
  have hsaved {conflicts : List SyncConflict} : ∀ {db : Database}, (∀ c ∈ conflicts, c.status = "UNRESOLVED") →
      (conflicts.foldl (fun db c => db.upsertConflict a c.recordId c.toSyncConflictEntity) db).pendingMutations =
        db.pendingMutations ∧
      (∀ x, db.Unresolved a x →
        (conflicts.foldl (fun db c => db.upsertConflict a c.recordId c.toSyncConflictEntity) db).Unresolved a x) ∧
      ∀ c ∈ conflicts,
        (conflicts.foldl (fun db c => db.upsertConflict a c.recordId c.toSyncConflictEntity) db).Unresolved a c.recordId := by
    induction conflicts with
    | nil => exact fun _ => ⟨rfl, fun _ => id, fun c hc => absurd hc List.not_mem_nil⟩
    | cons c conflicts ih =>
      intro db hopen
      have hget (x : ItemId) : (db.upsertConflict a c.recordId c.toSyncConflictEntity).syncConflicts.get? (a, x) =
          if (a, x) = (a, c.recordId) then some c.toSyncConflictEntity else db.syncConflicts.get? (a, x) := Table.get?_set ..
      have hthis : (db.upsertConflict a c.recordId c.toSyncConflictEntity).Unresolved a c.recordId :=
        ⟨c.toSyncConflictEntity, (hget c.recordId).trans (if_pos rfl), hopen c List.mem_cons_self⟩
      obtain ⟨hp, hkeep, hnew⟩ := @ih (db.upsertConflict a c.recordId c.toSyncConflictEntity)
        fun c' hc' => hopen c' (List.mem_cons_of_mem _ hc')
      rw [List.foldl_cons]
      refine ⟨hp, fun x hx => hkeep x ?_, fun c' hc' => ?_⟩
      · by_cases hk : x = c.recordId
        · exact hk ▸ hthis
        · obtain ⟨conflict, hconflict, hstatus⟩ := hx
          exact ⟨conflict, (hget x).trans ((if_neg fun he => hk (Prod.mk.inj he).2).trans hconflict), hstatus⟩
      · rcases List.mem_cons.mp hc' with rfl | hc'
        · exact hkeep _ hthis
        · exact hnew c' hc'
  exact hsaved hopen

theorem mapM_conflictOf : ∀ {conflicts : List ItemLevelSyncConflict} {saved : List SyncConflict},
    conflicts.mapM (conflictOf F batch now) = .ok saved →
    saved.map (·.recordId) = conflicts.map (·.itemId) ∧ ∀ c ∈ saved, c.status = "UNRESOLVED"
  | [], saved, h => by
    cases h
    exact ⟨rfl, fun c hc => absurd hc List.not_mem_nil⟩
  | conflict :: conflicts, saved, h => by
    rw [List.mapM_cons] at h
    obtain ⟨first, hfirst, h⟩ := except_bind_ok h
    obtain ⟨rest, hrest, h⟩ := except_bind_ok h
    cases h
    obtain ⟨_, -, hfirst⟩ := except_bind_ok hfirst
    cases hfirst
    obtain ⟨hids, hopen⟩ := mapM_conflictOf hrest
    refine ⟨congrArg (conflict.itemId :: ·) hids, fun c hc => ?_⟩
    rcases List.mem_cons.mp hc with rfl | hc
    · rfl
    · exact hopen c hc

theorem transact_ok {operation : Database → Except Failure Database} {u : Unit}
    (h : transact operation db = (db', .ok u)) : operation db = .ok db' := by
  unfold transact at h
  cases hop : operation db with
  | ok db₁ =>
    rw [hop] at h
    rw [(Prod.mk.inj h).1]
  | error failure => rw [hop] at h; cases h

theorem transact_error {operation : Database → Except Failure Database} {failure : SyncFailure}
    (h : transact operation db = (db', .error failure)) : db' = db := by
  unfold transact at h
  cases hop : operation db with
  | ok db₁ => rw [hop] at h; cases h
  | error e =>
    rw [hop] at h
    exact (Prod.mk.inj h).1.symm

theorem saveAnswered_queue {conflicts : List ItemLevelSyncConflict} {result : Except SyncFailure Unit}
    (h : saveAnswered F P a batch now conflicts db = (db', result)) : db'.pendingMutations = db.pendingMutations ∧
      (∀ x, db.Unresolved a x → db'.Unresolved a x) ∧
      (result = .ok () → ∀ c ∈ conflicts, db'.Unresolved a c.itemId) := by
  unfold saveAnswered at h
  split at h
  · rename_i hempty
    cases h
    rw [List.isEmpty_iff.mp hempty]
    exact ⟨rfl, fun _ => id, fun _ c hc => absurd hc List.not_mem_nil⟩
  split at h
  · cases h
    exact ⟨rfl, fun _ => id, nofun⟩
  · rename_i saved hsaved
    obtain ⟨hids, hopen⟩ := mapM_conflictOf hsaved
    cases result with
    | error failure =>
      rw [transact_error h]
      exact ⟨rfl, fun _ => id, nofun⟩
    | ok u =>
      obtain ⟨hp, hkeep, hnew⟩ := saveConflicts_queue hopen (transact_ok h)
      refine ⟨hp, hkeep, fun _ c hc => ?_⟩
      obtain ⟨c', hc', hid⟩ := List.mem_map.mp (hids ▸ List.mem_map_of_mem hc : c.itemId ∈ saved.map (·.recordId))
      exact hid ▸ hnew c' hc'

/-- What a push does to the queue, also where it throws after its first transaction. -/
theorem pushBatch_queue {result : Except SyncFailure (Nat × Nat)}
    (h : pushBatch F P a answer now batch db = (db', result)) :
    (db' = db ∧ ∃ failure, result = .error failure) ∨ ∃ response, exchange F a answer batch db = .ok response ∧
      db'.pendingMutations =
        (db.deleteAllPending a (response.applied.mutationReceipts.map (·.clientMutationId))).pendingMutations ∧
      (∀ x, db.Unresolved a x → db'.Unresolved a x) ∧
      ∀ applied conflicted, result = .ok (applied, conflicted) →
        applied = response.applied.mutationReceipts.length ∧ conflicted = response.conflicts.length ∧
          ∀ c ∈ response.conflicts, db'.Unresolved a c.itemId := by
  unfold pushBatch at h
  split at h
  · cases h
    exact .inl ⟨rfl, _, rfl⟩
  · rename_i response hresponse
    dsimp only at h
    have hids : (response.applied.mutationReceipts.map acknowledgementOf).map (·.clientMutationId) =
        response.applied.mutationReceipts.map (·.clientMutationId) := List.map_map
    split at h
    · rename_i db₁ failure hack
      cases h
      exact .inl ⟨transact_error hack, _, rfl⟩
    · rename_i db₁ _ hack
      obtain ⟨hpending, hconflicts⟩ := ackMutations_queue (transact_ok hack)
      rw [hids] at hpending
      have hopen (x : ItemId) (hx : db.Unresolved a x) : db₁.Unresolved a x := by
        unfold Database.Unresolved
        rw [hconflicts]
        exact hx
      refine .inr ⟨response, hresponse, ?_⟩
      split at h
      · rename_i db₂ failure hsave
        cases h
        obtain ⟨hp, hkeep, -⟩ := saveAnswered_queue hsave
        exact ⟨hp.trans hpending, fun x hx => hkeep x (hopen x hx), nofun⟩
      · rename_i db₂ _ hsave
        cases h
        obtain ⟨hp, hkeep, hnew⟩ := saveAnswered_queue hsave
        refine ⟨hp.trans hpending, fun x hx => hkeep x (hopen x hx), fun applied conflicted hcounts => ?_⟩
        cases hcounts
        exact ⟨rfl, rfl, hnew rfl⟩

theorem lastWhere_mem {p : PendingMutationEntity → Bool} {m : PendingMutationEntity} (h : lastWhere batch p = some m) :
    m ∈ batch ∧ p m = true :=
  ⟨List.mem_reverse.mp (List.mem_of_find?_eq_some h), List.find?_some h⟩

/-- Receipts and conflicts of an answer that passes the checks are about the batch. -/
theorem exchange_ok {response : ItemLevelSyncPushResult} (h : exchange F a answer batch db = .ok response) :
    (∃ plan, answer plan = .ok response) ∧
      (∀ receipt ∈ response.applied.mutationReceipts, ∃ m ∈ batch, m.clientMutationId = receipt.clientMutationId) ∧
      ∀ c ∈ response.conflicts, ∃ m ∈ batch, m.recordId = c.itemId := by
  obtain ⟨plan, -, h⟩ := except_bind_ok h
  obtain ⟨answered, hanswer, h⟩ := except_bind_ok h
  dsimp only at h
  split at h
  · obtain ⟨_, hthrow, -⟩ := except_bind_ok h
    cases hthrow
  obtain ⟨_, hreceipts, h⟩ := except_bind_ok h
  obtain ⟨_, hconflicts, h⟩ := except_bind_ok h
  cases h
  refine ⟨⟨plan, hanswer⟩, fun receipt hr => ?_, fun c hc => ?_⟩
  · unfold validateReceipts at hreceipts
    split at hreceipts
    · cases hreceipts
    split at hreceipts
    · rename_i hall
      obtain ⟨m, hm, -⟩ := (Option.any_eq_true ..).mp (List.all_eq_true.mp hall receipt hr)
      obtain ⟨hmem, hid⟩ := lastWhere_mem hm
      exact ⟨m, hmem, of_decide_eq_true hid⟩
    · cases hreceipts
  · unfold validateConflicts at hconflicts
    split at hconflicts
    · rename_i hall
      rw [Bool.and_eq_true] at hall
      have hone := List.all_eq_true.mp hall.2 c hc
      rw [Bool.and_eq_true] at hone
      obtain ⟨m, hm, -⟩ := (Option.any_eq_true ..).mp hone.2
      obtain ⟨hmem, hid⟩ := lastWhere_mem hm
      exact ⟨m, hmem, of_decide_eq_true hid⟩
    · cases hconflicts

/-! ## Rounds -/

def batchOf (a : UserId) (db : Database) : List PendingMutationEntity := (eligible a db).take MAX_MUTATIONS_PER_PUSH

/-- The answer to the round's batch has a receipt for the mutation. -/
def AckedBy (F : Formats) (a : UserId) (answer : Answer) (db : Database) (m : PendingMutationEntity) : Prop :=
  ∃ response, exchange F a answer (batchOf a db) db = .ok response ∧
    ∃ receipt ∈ response.applied.mutationReceipts, receipt.clientMutationId = m.clientMutationId

/-- The effect of a round, whatever becomes of it. -/
structure RoundDone (F : Formats) (a : UserId) (answer : Answer) (db db' : Database) : Prop where
  unresolved : ∀ x, db.Unresolved a x → db'.Unresolved a x
  fewer : db'.pendingMutations.Sublist db.pendingMutations
  kept : ∀ m ∈ db.pendingMutations, m ∈ db'.pendingMutations ∨ AckedBy F a answer db m

theorem RoundDone.refl : RoundDone F a answer db db := ⟨fun _ => id, .refl _, fun _ hm => .inl hm⟩

theorem pushBatch_done {counts : Except SyncFailure (Nat × Nat)}
    (h : pushBatch F P a answer now (batchOf a db) db = (db', counts)) : RoundDone F a answer db db' := by
  rcases pushBatch_queue h with ⟨rfl, -⟩ | ⟨response, hresponse, hpending, hopen, -⟩
  · exact .refl
  · refine ⟨hopen, hpending ▸ List.filter_sublist, fun m hm => ?_⟩
    by_cases hreceipt : m.clientMutationId ∈ response.applied.mutationReceipts.map (·.clientMutationId)
    · obtain ⟨receipt, hr, hid⟩ := List.mem_map.mp hreceipt
      exact .inr ⟨response, hresponse, receipt, hr, hid⟩
    · refine .inl (hpending ▸ List.mem_filter.mpr ⟨hm, ?_⟩)
      rw [Bool.not_eq_true', Bool.and_eq_false_iff]
      exact .inr (by rwa [← Bool.not_eq_true, List.contains_iff_mem])

theorem drainRound_done {result : Except SyncFailure Bool} (h : drainRound F P a answer now db = (db', result)) :
    RoundDone F a answer db db' := by
  unfold drainRound at h
  split at h
  · cases h
    exact .refl
  dsimp only at h
  split at h
  · cases h
    exact .refl
  split at h
  · rename_i hpush
    cases h
    exact pushBatch_done hpush
  · rename_i hpush
    cases h
    exact pushBatch_done hpush

/-- As many as the pending mutations, in any order, that are eligible. -/
theorem eligible_length : (eligible a db).length = (db.pendingMutations.filter fun m =>
    m.accountId = a && !((db.unresolvedConflicts a).map (·.1.2)).contains m.recordId).length := by
  unfold eligible Database.listPending
  rw [((List.mergeSort_perm _ _).filter _).length_eq, List.filter_filter]
  congr 2
  funext m
  rw [Bool.and_comm]

theorem RoundDone.decreases (h : RoundDone F a answer db db') {m : PendingMutationEntity} (hm : m ∈ eligible a db)
    (hleft : m ∉ eligible a db') : (eligible a db').length < (eligible a db).length := by
  let now (m : PendingMutationEntity) : Bool :=
    m.accountId = a && !((db.unresolvedConflicts a).map (·.1.2)).contains m.recordId
  let next (m : PendingMutationEntity) : Bool :=
    m.accountId = a && !((db'.unresolvedConflicts a).map (·.1.2)).contains m.recordId
  have hnow {m : PendingMutationEntity} : now m = true ↔ m.accountId = a ∧ ¬ db.Unresolved a m.recordId := by
    simp only [now, Bool.and_eq_true, decide_eq_true_eq, ← unresolved_iff, Bool.not_eq_true', Bool.not_eq_true]
  have hnext {m : PendingMutationEntity} : next m = true ↔ m.accountId = a ∧ ¬ db'.Unresolved a m.recordId := by
    simp only [next, Bool.and_eq_true, decide_eq_true_eq, ← unresolved_iff, Bool.not_eq_true', Bool.not_eq_true]
  have hsub : (db'.pendingMutations.filter next).Sublist (db.pendingMutations.filter now) := by
    have hboth : db'.pendingMutations.filter next = (db'.pendingMutations.filter now).filter next := by
      rw [List.filter_filter]
      refine List.filter_congr fun m _ => ?_
      refine Bool.eq_iff_iff.mpr ⟨fun hm => Bool.and_eq_true_iff.mpr ⟨hm, hnow.mpr ?_⟩, fun hm => (Bool.and_eq_true_iff.mp hm).1⟩
      exact ⟨(hnext.mp hm).1, fun hx => (hnext.mp hm).2 (h.unresolved _ hx)⟩
    rw [hboth]
    exact List.filter_sublist.trans (h.fewer.filter now)
  have hle := hsub.length_le
  rw [eligible_length, eligible_length]
  refine Nat.lt_of_le_of_ne hle fun heq => hleft ?_
  obtain ⟨hpending, ha, hnot⟩ := mem_eligible.mp hm
  have hin : m ∈ db'.pendingMutations.filter next :=
    hsub.eq_of_length heq ▸ List.mem_filter.mpr ⟨hpending, hnow.mpr ⟨ha, hnot⟩⟩
  obtain ⟨hpending', hm'⟩ := List.mem_filter.mp hin
  exact mem_eligible.mpr ⟨hpending', hnext.mp hm'⟩

/-- A round after which the loop goes on has an answer that names a mutation of its batch. -/
theorem round_decreases (h : drainRound F P a answer now db = (db', .ok true)) :
    (eligible a db').length < (eligible a db).length := by
  have hdone := drainRound_done h
  unfold drainRound at h
  split at h
  · cases h
  dsimp only at h
  split at h
  · cases h
  split at h
  · cases h
  rename_i applied conflicted hpush
  obtain ⟨rfl, hgoes⟩ := Prod.mk.inj h
  rcases pushBatch_queue hpush with ⟨-, failure, hfailure⟩ | ⟨response, hresponse, hpending, hopen, hcounts⟩
  · cases hfailure
  obtain ⟨happlied, hconflicted, hnew⟩ := hcounts applied conflicted rfl
  obtain ⟨-, hreceipts, hconflicts⟩ := exchange_ok hresponse
  have hgoes : ¬ (applied = 0 ∧ conflicted = 0) := Decidable.not_and_iff_or_not.mpr (by simpa using hgoes)
  by_cases hr : response.applied.mutationReceipts = []
  · -- no receipt: the conflict's item is blocked now
    have hc : response.conflicts ≠ [] := fun hc => hgoes ⟨happlied.trans (hr ▸ rfl), hconflicted.trans (hc ▸ rfl)⟩
    obtain ⟨c, hmem⟩ := List.exists_mem_of_ne_nil _ hc
    obtain ⟨m, hm, hid⟩ := hconflicts c hmem
    refine hdone.decreases (List.mem_of_mem_take hm) fun hm' => ?_
    exact (mem_eligible.mp hm').2.2 (hid ▸ hnew c hmem)
  · -- a receipt: its mutation is not pending any more
    obtain ⟨receipt, hmem⟩ := List.exists_mem_of_ne_nil _ hr
    obtain ⟨m, hm, hid⟩ := hreceipts receipt hmem
    have heligible := List.mem_of_mem_take hm
    refine hdone.decreases heligible fun hm' => ?_
    have hkept := (List.mem_filter.mp (hpending ▸ (mem_eligible.mp hm').1)).2
    rw [(mem_eligible.mp heligible).2.1, hid, decide_eq_true rfl, Bool.true_and, Bool.not_eq_true', ← Bool.not_eq_true,
      List.contains_iff_mem] at hkept
    exact hkept (List.mem_map_of_mem hmem)

/-- The loop stops by itself where nothing is eligible, or at an answer that names nothing. -/
theorem round_stops (h : drainRound F P a answer now db = (db', .ok false)) :
    eligible a db' = [] ∨ ∃ response, exchange F a answer (batchOf a db) db = .ok response ∧
      response.applied.mutationReceipts = [] ∧ response.conflicts = [] := by
  unfold drainRound at h
  split at h
  · rename_i hempty
    cases h
    exact .inl (by unfold eligible; rw [List.isEmpty_iff.mp hempty, List.filter_nil])
  dsimp only at h
  split at h
  · rename_i hempty
    cases h
    exact .inl ((List.take_eq_nil_iff.mp (List.isEmpty_iff.mp hempty)).resolve_left nofun)
  split at h
  · cases h
  rename_i applied conflicted hpush
  obtain ⟨-, hstops⟩ := Prod.mk.inj h
  rcases pushBatch_queue hpush with ⟨-, failure, hfailure⟩ | ⟨response, hresponse, -, -, hcounts⟩
  · cases hfailure
  obtain ⟨happlied, hconflicted, -⟩ := hcounts applied conflicted rfl
  have hstops : applied = 0 ∧ conflicted = 0 := by simpa using hstops
  exact .inr ⟨response, hresponse, List.length_eq_zero_iff.mp (happlied.symm.trans hstops.1),
    List.length_eq_zero_iff.mp (hconflicted.symm.trans hstops.2)⟩

/-! ## Runs of the loop -/

section
variable {answers : Nat → Answer} {clock : Nat → String}

/-- The rounds after which the loop went on, from round `k` to before round `j`. -/
inductive GoesOn (F : Formats) (P : Platform) (a : UserId) (answers : Nat → Answer) (clock : Nat → String) :
    Nat → Database → Nat → Database → Prop
  | start {k db} : GoesOn F P a answers clock k db k db
  | round {k db db₁ j db₂} : drainRound F P a (answers k) (clock k) db = (db₁, .ok true) →
      GoesOn F P a answers clock (k + 1) db₁ j db₂ → GoesOn F P a answers clock k db j db₂

def Acknowledged (F : Formats) (P : Platform) (a : UserId) (answers : Nat → Answer) (clock : Nat → String) (k : Nat)
    (db : Database) (m : PendingMutationEntity) : Prop :=
  ∃ j db₁, GoesOn F P a answers clock k db j db₁ ∧ AckedBy F a (answers j) db₁ m

theorem Drains.exists {k : Nat} {db : Database} : ∃ n db' result, Drains F P a answers clock k db n db' result := by
  induction hn : (eligible a db).length using Nat.strongRecOn generalizing k db with
  | ind n ih =>
    cases hround : drainRound F P a (answers k) (clock k) db with
    | mk db₁ result =>
      match result with
      | .error failure => exact ⟨1, db₁, _, .throws hround⟩
      | .ok false => exact ⟨1, db₁, _, .stops hround⟩
      | .ok true =>
        obtain ⟨n, db', result, hrun⟩ := ih _ (hn ▸ round_decreases hround) (k := k + 1) rfl
        exact ⟨n + 1, db', result, .goesOn hround hrun⟩

theorem Drains.rounds {k n : Nat} {db db' : Database} {result : Except SyncFailure Unit}
    (h : Drains F P a answers clock k db n db' result) : n ≤ (eligible a db).length + 1 := by
  induction h with
  | stops => omega
  | throws => omega
  | goesOn hround _ ih =>
    have := round_decreases hround
    omega

theorem Drains.kept {k n : Nat} {db db' : Database} {result : Except SyncFailure Unit}
    (h : Drains F P a answers clock k db n db' result) :
    ∀ m ∈ db.pendingMutations, Acknowledged F P a answers clock k db m ∨ m ∈ db'.pendingMutations := by
  have hlast {k : Nat} {db db' : Database} {result : Except SyncFailure Bool}
      (hround : drainRound F P a (answers k) (clock k) db = (db', result)) {m : PendingMutationEntity}
      (hm : m ∈ db.pendingMutations) : Acknowledged F P a answers clock k db m ∨ m ∈ db'.pendingMutations :=
    ((drainRound_done hround).kept m hm).symm.imp_left fun hacked => ⟨k, db, .start, hacked⟩
  induction h with
  | stops hround => exact fun m hm => hlast hround hm
  | throws hround => exact fun m hm => hlast hround hm
  | goesOn hround _ ih =>
    intro m hm
    rcases hlast hround hm with hacked | hm
    · exact .inl hacked
    · refine (ih m hm).imp_left ?_
      rintro ⟨j, db₁, hgoes, hacked⟩
      exact ⟨j, db₁, .round hround hgoes, hacked⟩

theorem Drains.stopped {k n : Nat} {db db' : Database} (h : Drains F P a answers clock k db n db' (.ok ())) :
    eligible a db' = [] ∨ ∃ j db₁ response, GoesOn F P a answers clock k db j db₁ ∧
      exchange F a (answers j) (batchOf a db₁) db₁ = .ok response ∧
      response.applied.mutationReceipts = [] ∧ response.conflicts = [] := by
  generalize hresult : (.ok () : Except SyncFailure Unit) = result at h
  induction h with
  | stops hround => exact (round_stops hround).imp_right fun ⟨response, hresponse, hempty⟩ =>
      ⟨_, _, response, .start, hresponse, hempty⟩
  | throws => cases hresult
  | goesOn hround _ ih =>
    refine (ih hresult).imp_right ?_
    rintro ⟨j, db₁, response, hgoes, hresponse, hempty⟩
    exact ⟨j, db₁, response, .round hround hgoes, hresponse, hempty⟩

/-- Over any answers the loop ends, after at most one round more than mutations were eligible. -/
theorem drain_ends (F : Formats) (P : Platform) (a : UserId) (answers : Nat → Answer) (clock : Nat → String)
    (db : Database) :
    (∃ n db' result, Drains F P a answers clock 0 db n db' result) ∧
    (∀ j db₁ db₂, GoesOn F P a answers clock 0 db j db₁ →
      drainRound F P a (answers j) (clock j) db₁ = (db₂, .ok true) →
      (eligible a db₂).length < (eligible a db₁).length) ∧
    ∀ n db' result, Drains F P a answers clock 0 db n db' result →
      n ≤ (eligible a db).length + 1 ∧
      (∀ m ∈ eligible a db, Acknowledged F P a answers clock 0 db m ∨
        m ∈ db'.pendingMutations ∧ (db'.Unresolved a m.recordId ∨ m ∈ eligible a db')) ∧
      (result = .ok () → eligible a db' = [] ∨ ∃ j db₁ response, GoesOn F P a answers clock 0 db j db₁ ∧
        exchange F a (answers j) (batchOf a db₁) db₁ = .ok response ∧
        response.applied.mutationReceipts = [] ∧ response.conflicts = []) := by
  refine ⟨Drains.exists, fun _ _ _ _ hround => round_decreases hround, fun n db' result hrun => ⟨hrun.rounds, ?_, ?_⟩⟩
  · intro m hm
    obtain ⟨hpending, ha, -⟩ := mem_eligible.mp hm
    refine (hrun.kept m hpending).imp_right fun hkept => ⟨hkept, ?_⟩
    by_cases hx : db'.Unresolved a m.recordId
    · exact .inl hx
    · exact .inr (mem_eligible.mpr ⟨hkept, ha, hx⟩)
  · rintro rfl
    exact hrun.stopped

end

end

/-! ## A receipt and a conflict -/

def anyFormats : Formats := ⟨fun _ => true, fun _ => true, fun _ => true⟩

def sealedEnvelope : CiphertextEnvelope := ⟨.aes256Gcm, "AAAAAAAAAAAAAAAA", "AAAAAAAAAAAAAAAAAAAAAA", none⟩

def sealedItem (id : ItemId) (revision : Nat) : VaultItemCiphertext :=
  { sampleItem id revision with encryptedItemKey := sealedEnvelope, encryptedPayload := sealedEnvelope }

def createdItem (id : ItemId) (clientMutationId : MutationId) : PendingMutationEntity :=
  ⟨"u1", clientMutationId, id, .upsert, 0, some (sealedItem id 0), "2025-01-01T00:00:02Z"⟩

def twoQueued : Database where
  ciphertexts := ["r1", "r2"].foldl (fun rows id => rows.set ("u1", id)
    ⟨sealedItem id 0, 0, "2025-01-01T00:00:02Z", false, none, false⟩) ∅
  pendingMutations := [createdItem "r1" "m1", createdItem "r2" "m2"]
  syncConflicts := ∅
  syncCursors := ∅

def mixedAnswer : Answer := fun _ => .ok
  { serverRevision := 8
    applied := ⟨["r1"], [], [⟨"m1", "r1", .upsert, 8⟩]⟩
    conflicts := [⟨"r2", .upsert, .itemRevisionMismatch, 0, 8, some 7, .item (sealedItem "r2" 7)⟩] }

def mixedPush : Database × Except SyncFailure (Nat × Nat) :=
  pushBatch anyFormats samplePlatform "u1" mixedAnswer "2025-01-01T00:00:03Z"
    (twoQueued.pendingMutations.take MAX_MUTATIONS_PER_PUSH) twoQueued

theorem mixedPush_ran : mixedPush.2 = .ok (1, 1) ∧ mixedPush.1.pendingMutations = [createdItem "r2" "m2"] ∧
    (mixedPush.1.unresolvedConflicts "u1").map (·.1.2) = ["r2"] := by
  decide +kernel

theorem twoQueued_listed : twoQueued.listPending "u1" = twoQueued.pendingMutations :=
  List.mergeSort_of_pairwise (by decide +kernel)

theorem twoQueued_eligible : eligible "u1" twoQueued = twoQueued.pendingMutations := by
  unfold eligible
  rw [twoQueued_listed]
  rfl

theorem mixedPush_eligible : eligible "u1" mixedPush.1 = [] := by
  obtain ⟨-, hleft, hconflicts⟩ := mixedPush_ran
  unfold eligible Database.listPending
  rw [hleft, hconflicts]
  exact List.filter_eq_nil_iff.mpr (by simp [createdItem])

theorem mixedPush_round : drainRound anyFormats samplePlatform "u1" mixedAnswer "2025-01-01T00:00:03Z" twoQueued =
    (mixedPush.1, .ok true) := by
  have hcounts : pushBatch anyFormats samplePlatform "u1" mixedAnswer "2025-01-01T00:00:03Z"
      (twoQueued.pendingMutations.take MAX_MUTATIONS_PER_PUSH) twoQueued = (mixedPush.1, .ok (1, 1)) :=
    Prod.ext rfl mixedPush_ran.1
  unfold drainRound
  rw [twoQueued_listed, twoQueued_eligible, if_neg (by decide)]
  dsimp only
  rw [if_neg (by decide), hcounts]
  rfl

theorem mixedPush_stops : drainRound anyFormats samplePlatform "u1" mixedAnswer "2025-01-01T00:00:03Z" mixedPush.1 =
    (mixedPush.1, .ok false) := by
  unfold drainRound
  rw [mixedPush_eligible]
  split <;> rfl

/-- `drain_ends` where one item is applied and another in conflict. -/
theorem drain_ends_mixedAnswer : ∃ db,
    Drains anyFormats samplePlatform "u1" (fun _ => mixedAnswer) (fun _ => "2025-01-01T00:00:03Z") 0 twoQueued 2 db
      (.ok ()) ∧
    (eligible "u1" db).length < (eligible "u1" twoQueued).length ∧
    Acknowledged anyFormats samplePlatform "u1" (fun _ => mixedAnswer) (fun _ => "2025-01-01T00:00:03Z") 0 twoQueued
      (createdItem "r1" "m1") ∧
    createdItem "r2" "m2" ∈ db.pendingMutations ∧ db.Unresolved "u1" "r2" := by
  have hrun : Drains anyFormats samplePlatform "u1" (fun _ => mixedAnswer) (fun _ => "2025-01-01T00:00:03Z") 0 twoQueued 2
      mixedPush.1 (.ok ()) := .goesOn mixedPush_round (.stops mixedPush_stops)
  obtain ⟨-, hleft, hconflicts⟩ := mixedPush_ran
  obtain ⟨-, hdecreases, hends⟩ := drain_ends anyFormats samplePlatform "u1" (fun _ => mixedAnswer)
    (fun _ => "2025-01-01T00:00:03Z") twoQueued
  obtain ⟨-, haccounted, -⟩ := hends _ _ _ hrun
  refine ⟨mixedPush.1, hrun, hdecreases 0 _ _ .start mixedPush_round, ?_, by simp [hleft],
    unresolved_iff.mp (by simp [hconflicts])⟩
  refine (haccounted (createdItem "r1" "m1") (by rw [twoQueued_eligible]; exact List.mem_cons_self)).resolve_right ?_
  rintro ⟨hkept, -⟩
  rw [hleft] at hkept
  exact absurd (List.mem_singleton.mp hkept) (by decide)

end ZeroVault.Mobile

import ZeroVault.MobileQueue

/-!
# What holds of the queue in every run of the mobile app

`queue_invariant`: in the states that the repository's operations reach from the
empty database, the queue fits the records. The one step that breaks it takes
the remote side of a conflict whose envelope is not the one of the conflict's
record: a pull checks the identifier, `saveConflicts` does not.
-/

namespace ZeroVault.Mobile

open Lib Browser

/-! ## Runs -/

inductive Op
  | upsertLocalCiphertextAndEnqueue (itemId : ItemId) (ciphertextEnvelope : VaultItemCiphertext) (itemRevision : Nat)
      (lastSyncedAt : String) (baseItemRevision : Option Nat) (clientMutationId : MutationId)
  | deleteLocalAndEnqueue (recordId : ItemId) (baseItemRevision : Option Nat) (clientMutationId : MutationId)
      (createdAt : String)
  | ackMutations (acknowledgements : List MutationAcknowledgement) (serverRevision : Nat) (timestamp : String)
  | applyPull (items : List VaultItemCiphertext) (deletedItems : List RemoteDeletedItem) (serverRevision cursor : Nat)
      (timestamp : String)
  | saveConflicts (conflicts : List SyncConflict)
  | setConflictIds (recordIds : List ItemId)
  | resolveConflict (recordId : ItemId) (resolution : Resolution)
  | importCryptoCoreBackup (items : List ImportedItem)
  | clearCiphertexts

section
variable (P : Platform)

def Op.run (readings : Readings) (a : UserId) (op : Op) (db : Database) : Except Failure Database :=
  match op with
  | .upsertLocalCiphertextAndEnqueue itemId ciphertextEnvelope itemRevision lastSyncedAt base mutationId =>
    Mobile.upsertLocalCiphertextAndEnqueue P readings a itemId ciphertextEnvelope itemRevision lastSyncedAt base
      mutationId db
  | .deleteLocalAndEnqueue recordId base mutationId createdAt =>
    Mobile.deleteLocalAndEnqueue P a recordId base mutationId createdAt db
  | .ackMutations acks serverRevision timestamp => Mobile.ackMutations P a acks serverRevision timestamp db
  | .applyPull items deletedItems serverRevision cursor timestamp =>
    Mobile.applyPull P a items deletedItems serverRevision cursor timestamp db
  | .saveConflicts conflicts => Mobile.saveConflicts P a conflicts db
  | .setConflictIds recordIds => Mobile.setConflictIds P a recordIds db
  | .resolveConflict recordId resolution => Mobile.resolveConflict P readings a recordId resolution db
  | .importCryptoCoreBackup items => (Mobile.importCryptoCoreBackup P readings a items db).map (·.1)
  | .clearCiphertexts => Mobile.clearCiphertexts P a db

/-- A run from the empty database, of steps that are `Allowed` where they are
taken. A backup is the app's own: it was made in a state that is reached too. -/
inductive Runs (Allowed : UserId → Op → Database → Prop) : Database → Prop
  | empty : Runs Allowed emptyDatabase
  | step {db db' : Database} (readings : Readings) (a : UserId) (op : Op) : Runs Allowed db → Allowed a op db →
      op.run P readings a db = .ok db' → Runs Allowed db'
  | restore {db db₀ db' : Database} {backup : Backup} (readings : Readings) (a : UserId) : Runs Allowed db →
      Runs Allowed db₀ → createEncryptedBackup P readings a db₀ = .ok backup →
      restoreEncryptedBackup P a backup db = .ok db' → Runs Allowed db'

end

/-- Where the remote side of a conflict is taken, its envelope is the one of the
conflict's record, or of a record whose pending mutation it cannot contradict,
or of the copy that is stored over it. -/
def Op.NamesItsRecord (a : UserId) (op : Op) (db : Database) : Prop :=
  match op with
  | .resolveConflict r .acceptRemote => ∀ conflict remote, db.syncConflicts.get? (a, r) = some conflict →
      conflict.remoteCiphertextEnvelope = some remote → Harmless db a r remote
  | .resolveConflict r (.createCopy replacement _) => ∀ conflict remote, db.syncConflicts.get? (a, r) = some conflict →
      conflict.remoteCiphertextEnvelope = some remote →
        (∃ copy, replacement = some copy ∧ copy.id = remote.id) ∨ Harmless db a r remote
  | _ => True

/-! ## The invariant -/

structure QueueInvariant (db : Database) : Prop where
  once : ∀ a r, (db.pendingOf a r).length ≤ 1
  upserts : ∀ m ∈ db.pendingMutations, m.operation = .upsert → ∃ stored,
    db.getRecord m.accountId m.recordId = some stored ∧ stored.isDeleted = false ∧
      m.ciphertextEnvelope = some stored.ciphertextEnvelope
  deletes : ∀ m ∈ db.pendingMutations, m.operation = .delete → m.ciphertextEnvelope = none ∧
    ∀ stored, db.getRecord m.accountId m.recordId = some stored → stored.isDeleted = true
  own : ∀ a r stored, db.getRecord a r = some stored → stored.ciphertextEnvelope.id = r ∧
    stored.ciphertextEnvelope.ownerUserId = a ∧ stored.ciphertextEnvelope.revision = stored.itemRevision

section
variable {P : Platform} {readings : Readings} {db db' : Database} {a : UserId}

theorem QueueOk.invariant (hq : QueueOk db) : QueueInvariant db where
  once a r := (hq a r).once
  upserts m hm hop := by
    have hf := (hq _ _).fits m (mem_pendingOf.mpr ⟨hm, rfl, rfl⟩)
    unfold PendingMutationEntity.Fits at hf
    rw [hop] at hf
    exact hf
  deletes m hm hop := by
    have hf := (hq _ _).fits m (mem_pendingOf.mpr ⟨hm, rfl, rfl⟩)
    unfold PendingMutationEntity.Fits at hf
    rw [hop] at hf
    exact hf
  own a r := (hq a r).own

theorem resolveConflict_ok {r : ItemId} {resolution : Resolution} (hq : QueueOk db)
    (hn : (Op.resolveConflict r resolution).NamesItsRecord a db)
    (h : resolveConflict P readings a r resolution db = .ok db') : QueueOk db' := by
  obtain ⟨_, -, h⟩ := except_bind_ok h
  obtain ⟨_, -, h⟩ := except_bind_ok h
  obtain ⟨conflict, hconflict, h⟩ := except_bind_ok h
  have hconflict := orThrow_ok hconflict
  cases resolution with
  | keepLocal => exact keepLocal_ok hq h
  | acceptRemote => exact acceptRemote_ok hq (fun remote hr => hn conflict remote hconflict hr) h
  | createCopy replacement mutationId =>
    exact createCopy_ok hq (fun remote hr => hn conflict remote hconflict hr) h
  | skip =>
    cases h
    exact hq.same rfl rfl

theorem Op.run_ok {op : Op} (hq : QueueOk db) (hn : op.NamesItsRecord a db) (h : op.run P readings a db = .ok db') :
    QueueOk db' := by
  cases op with
  | upsertLocalCiphertextAndEnqueue => exact upsertLocal_ok hq h
  | deleteLocalAndEnqueue => exact deleteLocal_ok hq h
  | ackMutations => exact ackMutations_ok hq h
  | applyPull => exact applyPull_ok hq h
  | saveConflicts => exact saveConflicts_ok hq h
  | setConflictIds => exact setConflictIds_ok hq h
  | resolveConflict => exact resolveConflict_ok hq hn h
  | clearCiphertexts => exact clearCiphertexts_ok hq h
  | importCryptoCoreBackup items =>
    have h : (Mobile.importCryptoCoreBackup P readings a items db).map (·.1) = .ok db' := h
    cases hi : Mobile.importCryptoCoreBackup P readings a items db with
    | error => rw [hi] at h; cases h
    | ok answer =>
      rw [hi] at h
      cases h
      exact importCryptoCoreBackup_ok hq hi

theorem emptyDatabase_ok : QueueOk emptyDatabase := fun _ _ =>
  ⟨fun _ hs => (nomatch hs), Nat.zero_le 1, fun _ hm => absurd hm List.not_mem_nil⟩

theorem Runs.queueOk (hr : Runs P Op.NamesItsRecord db) : QueueOk db := by
  induction hr with
  | empty => exact emptyDatabase_ok
  | step readings a op _ hn h ih => exact op.run_ok ih hn h
  | restore readings a _ _ hb h ih ih₀ => exact restoreEncryptedBackup_ok ih ih₀ hb h

theorem runs_of_foldlM {Allowed : UserId → Op → Database → Prop} :
    ∀ {ops : List Op} {db db' : Database}, Runs P Allowed db → (∀ op ∈ ops, ∀ db, Allowed a op db) →
      ops.foldlM (fun db op => op.run P readings a db) db = .ok db' → Runs P Allowed db'
  | [], _, _, hr, _, h => by
    cases h
    exact hr
  | op :: _, db, _, hr, ha, h => by
    rw [List.foldlM_cons] at h
    obtain ⟨db₁, h1, h⟩ := except_bind_ok h
    exact runs_of_foldlM (.step readings a op hr (ha op List.mem_cons_self db) h1)
      (fun op' ho => ha op' (List.mem_cons_of_mem _ ho)) h

theorem queue_invariant (P : Platform) (db : Database) (hr : Runs P Op.NamesItsRecord db) : QueueInvariant db :=
  hr.queueOk.invariant
end

/-! ## The step that breaks it -/

def samplePlatform : Platform := ⟨(· == ""), fun _ => true, fun _ => true, fun _ => true, fun _ => 200⟩

def sampleReadings : Readings := ⟨"2025-01-01T00:00:02Z", fun _ => "m9"⟩

def sampleCiphertext : CiphertextEnvelope := ⟨.xchacha20Poly1305, "bm9uY2U", "Y2lwaGVydGV4dA", none⟩

def sampleItem (id : ItemId) (revision : Nat) : VaultItemCiphertext :=
  ⟨id, "u1", revision, "2025-01-01T00:00:00Z", "2025-01-01T00:00:00Z", sampleCiphertext, sampleCiphertext, []⟩

/-- An item is created, and a conflict comes with an envelope of this item. -/
def sampleOps (recordId : ItemId) : List Op :=
  [.upsertLocalCiphertextAndEnqueue "r2" (sampleItem "r2" 0) 0 "2025-01-01T00:00:00Z" none "m1",
    .saveConflicts [⟨⟨.itemRevisionMismatch, none, some (sampleItem "r2" 7), 7, some 7, "UNRESOLVED",
      "2025-01-01T00:00:01Z"⟩, recordId⟩]]

def sampleRun (ops : List Op) : Except Failure Database :=
  ops.foldlM (fun db op => op.run samplePlatform sampleReadings "u1" db) emptyDatabase

def resolved (recordId : ItemId) (db : Database) : Except Failure Database :=
  (Op.resolveConflict recordId .acceptRemote).run samplePlatform sampleReadings "u1" db

/-- The conflict of the item itself is resolved: nothing breaks. -/
theorem queue_invariant_own_conflict : ∃ db db', sampleRun (sampleOps "r2") = .ok db ∧ resolved "r2" db = .ok db' ∧
    QueueInvariant db' := by
  have hok : (sampleRun (sampleOps "r2")).toOption.any (fun db => (resolved "r2" db).toOption.isSome &&
      (db.syncConflicts.get? ("u1", "r2")).all fun c => c.remoteCiphertextEnvelope.all (·.id = "r2")) = true := by
    decide +kernel
  cases hdb : sampleRun (sampleOps "r2") with
  | error e => rw [hdb] at hok; cases hok
  | ok db =>
    rw [hdb, Except.toOption, Option.any_some, Bool.and_eq_true] at hok
    obtain ⟨hsome, hown⟩ := hok
    cases hres : resolved "r2" db with
    | error e => rw [hres] at hsome; cases hsome
    | ok db' =>
      refine ⟨db, db', rfl, hres, queue_invariant samplePlatform db' ?_⟩
      have hruns : Runs samplePlatform Op.NamesItsRecord db := by
        refine runs_of_foldlM .empty (fun op ho db => ?_) hdb
        rcases List.mem_cons.mp ho with rfl | ho
        · trivial
        · rcases List.mem_singleton.mp ho with rfl
          trivial
      refine .step sampleReadings "u1" (.resolveConflict "r2" .acceptRemote) hruns (fun conflict remote hc hr => .inl ?_) hres
      rw [hc, Option.all_some, hr, Option.all_some] at hown
      exact of_decide_eq_true hown

def overwrites (db : Database) : Bool :=
  db.pendingMutations.any fun m => m.operation = .upsert &&
    (db.getRecord m.accountId m.recordId).all fun stored => m.ciphertextEnvelope ≠ some stored.ciphertextEnvelope

theorem QueueInvariant.not_overwrites {db : Database} (hi : QueueInvariant db) : overwrites db = false := by
  unfold overwrites
  rw [List.any_eq_false]
  intro m hm hp
  rw [Bool.and_eq_true, decide_eq_true_eq] at hp
  obtain ⟨stored, hs, -, he⟩ := hi.upserts m hm hp.1
  rw [hs, Option.all_some, decide_eq_true_eq] at hp
  exact hp.2 he

theorem remote_overwrites_another_record :
    ¬ ∀ (P : Platform) (db : Database), Runs P (fun _ _ _ => True) db → QueueInvariant db := by
  intro hall
  have hrun : (sampleRun (sampleOps "r1" ++ [.resolveConflict "r1" .acceptRemote])).toOption.any overwrites = true := by
    decide +kernel
  cases hdb : sampleRun (sampleOps "r1" ++ [.resolveConflict "r1" .acceptRemote]) with
  | error e => rw [hdb] at hrun; cases hrun
  | ok db =>
    rw [hdb] at hrun
    have hi := hall samplePlatform db (runs_of_foldlM .empty (fun _ _ _ => trivial) hdb)
    rw [Except.toOption, Option.any_some, hi.not_overwrites] at hrun
    cases hrun

end ZeroVault.Mobile

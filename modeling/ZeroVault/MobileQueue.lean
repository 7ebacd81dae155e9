import Mathlib.Tactic.Common
import ZeroVault.BrowserAnswers
import ZeroVault.MobileStore

/-!
# The queue of the mobile app

A record and its pending mutations fit together (`RecordOk`): at most one
mutation, an upsert with the envelope that is stored, a delete of a record that
is absent or a tombstone. Each operation of the repository keeps this, but for
one: a conflict can be saved with the envelope of another record, and resolving
it for the remote side overwrites that record and not its mutation.
-/

namespace ZeroVault.Mobile

open Lib Browser

/-! ## One record -/

def Database.pendingOf (db : Database) (a : UserId) (r : ItemId) : List PendingMutationEntity :=
  db.pendingMutations.filter fun m => m.accountId = a && m.recordId = r

def CiphertextRecordEntity.Own (row : CiphertextRecordEntity) (a : UserId) (r : ItemId) : Prop :=
  row.ciphertextEnvelope.id = r ∧ row.ciphertextEnvelope.ownerUserId = a ∧
    row.ciphertextEnvelope.revision = row.itemRevision

/-- A pending mutation fits what is stored of its record. -/
def PendingMutationEntity.Fits (m : PendingMutationEntity) (row : Option CiphertextRecordEntity) : Prop :=
  match m.operation with
  | .upsert => ∃ stored, row = some stored ∧ stored.isDeleted = false ∧ m.ciphertextEnvelope = some stored.ciphertextEnvelope
  | .delete => m.ciphertextEnvelope = none ∧ ∀ stored, row = some stored → stored.isDeleted = true

structure RecordOk (a : UserId) (r : ItemId) (row : Option CiphertextRecordEntity) (pending : List PendingMutationEntity) :
    Prop where
  own : ∀ stored, row = some stored → stored.Own a r
  once : pending.length ≤ 1
  fits : ∀ m ∈ pending, m.Fits row

def QueueOk (db : Database) : Prop := ∀ a r, RecordOk a r (db.getRecord a r) (db.pendingOf a r)

section
variable {db db' : Database} {a a' : UserId} {r r' : ItemId} {m : PendingMutationEntity}
variable {row : Option CiphertextRecordEntity} {pending pending' : List PendingMutationEntity}

theorem RecordOk.sublist (h : RecordOk a r row pending) (hs : pending'.Sublist pending) : RecordOk a r row pending' where
  own := h.own
  once := Nat.le_trans hs.length_le h.once
  fits m hm := h.fits m (hs.subset hm)

/-- The flags of a record are no matter of its mutations. -/
theorem RecordOk.flag (h : RecordOk a r row pending) (hasConflict : Bool) :
    RecordOk a r (row.map fun stored => { stored with hasConflict }) pending where
  own := by
    intro stored hs
    obtain ⟨old, ho, rfl⟩ := Option.map_eq_some_iff.mp hs
    exact h.own old ho
  once := h.once
  fits := by
    intro m hm
    have hf := h.fits m hm
    unfold PendingMutationEntity.Fits at hf ⊢
    split at hf
    · obtain ⟨old, rfl, hd, he⟩ := hf
      exact ⟨{ old with hasConflict }, rfl, hd, he⟩
    · refine ⟨hf.1, fun stored hs => ?_⟩
      obtain ⟨old, ho, rfl⟩ := Option.map_eq_some_iff.mp hs
      exact hf.2 old ho

theorem eq_of_length_le_one {α : Type} {l : List α} (h : l.length ≤ 1) {x y : α} (hx : x ∈ l) (hy : y ∈ l) : x = y := by
  match l, h with
  | [z], _ => rw [List.mem_singleton.mp hx, List.mem_singleton.mp hy]

theorem mem_pendingOf : m ∈ db.pendingOf a r ↔ m ∈ db.pendingMutations ∧ m.accountId = a ∧ m.recordId = r := by
  unfold Database.pendingOf
  rw [List.mem_filter, Bool.and_eq_true, decide_eq_true_eq, decide_eq_true_eq]

theorem getForRecord_none : db.getForRecord a r = none ↔ db.pendingOf a r = [] := by
  unfold Database.getForRecord Database.pendingOf
  rw [List.find?_eq_none, List.filter_eq_nil_iff]

theorem getForRecord_some (h : db.getForRecord a r = some m) : m ∈ db.pendingOf a r := by
  unfold Database.getForRecord at h
  have hp : (decide (m.accountId = a) && decide (m.recordId = r)) = true := by
    simpa using List.find?_some h
  exact List.mem_filter.mpr ⟨List.mem_of_find?_eq_some h, hp⟩

/-! ## The accesses -/

@[simp] theorem getRecord_upsertPending : (db.upsertPending m).getRecord a r = db.getRecord a r := rfl

@[simp] theorem getRecord_deleteForRecord : (db.deleteForRecord a' r').getRecord a r = db.getRecord a r := rfl

@[simp] theorem getRecord_upsertRecord {record : CiphertextRecord} : (db.upsertRecord record).getRecord a r =
    if (a, r) = (record.accountId, record.recordId) then some record.toCiphertextRecordEntity else db.getRecord a r := by
  unfold Database.getRecord Database.upsertRecord
  rw [Table.get?_set]

@[simp] theorem getRecord_deleteRecord : (db.deleteRecord a' r').getRecord a r =
    if (a, r) = (a', r') then none else db.getRecord a r := by
  unfold Database.getRecord Database.deleteRecord
  rw [Table.get?_erase]

theorem pendingOf_upsertPending_self : (db.upsertPending m).pendingOf m.accountId m.recordId = [m] := by
  unfold Database.pendingOf Database.upsertPending
  rw [List.filter_append, List.filter_filter, List.append_eq_singleton_iff]
  refine .inl ⟨List.filter_eq_nil_iff.mpr fun other _ => ?_, by simp⟩
  unfold PendingMutationEntity.clashes
  simp only [Bool.and_eq_true, decide_eq_true_eq, Bool.not_eq_true', Bool.and_eq_false_iff, Bool.or_eq_false_iff,
    decide_eq_false_iff_not, not_and, not_or, and_imp]
  intro ha hr
  simp [ha, hr]

theorem pendingOf_upsertPending_other (h : (a, r) ≠ (m.accountId, m.recordId)) :
    ((db.upsertPending m).pendingOf a r).Sublist (db.pendingOf a r) := by
  unfold Database.pendingOf Database.upsertPending
  rw [List.filter_append]
  have hm : [m].filter (fun m => decide (m.accountId = a) && decide (m.recordId = r)) = [] := by
    rw [List.filter_eq_nil_iff]
    intro m' hm' hp
    rw [List.mem_singleton.mp hm', Bool.and_eq_true, decide_eq_true_eq, decide_eq_true_eq] at hp
    exact h (Prod.ext hp.1.symm hp.2.symm)
  rw [hm, List.append_nil]
  exact List.filter_sublist.filter _

@[simp] theorem pendingOf_deleteForRecord : (db.deleteForRecord a' r').pendingOf a r =
    if (a, r) = (a', r') then [] else db.pendingOf a r := by
  unfold Database.pendingOf Database.deleteForRecord
  rw [List.filter_filter]
  split_ifs with h
  · cases h
    exact List.filter_eq_nil_iff.mpr fun m _ => by simp
  · refine List.filter_congr fun m _ => ?_
    by_cases hm : m.accountId = a ∧ m.recordId = r
    · obtain ⟨rfl, rfl⟩ := hm
      have hne : (decide (m.accountId = a') && decide (m.recordId = r')) = false := by
        rw [← Bool.not_eq_true, Bool.and_eq_true, decide_eq_true_eq, decide_eq_true_eq]
        exact fun hk => h (Prod.ext hk.1 hk.2)
      simp [hne]
    · rw [not_and] at hm
      by_cases ha : m.accountId = a
      · simp [ha, hm ha]
      · simp [ha]

@[simp] theorem pendingOf_upsertRecord {record : CiphertextRecord} :
    (db.upsertRecord record).pendingOf a r = db.pendingOf a r := rfl

@[simp] theorem pendingOf_deleteRecord : (db.deleteRecord a' r').pendingOf a r = db.pendingOf a r := rfl

theorem getRecord_flags {p : UserId × ItemId → Bool} {hasConflict : Bool} {db₁ : Database}
    (h : db₁.ciphertexts = db.ciphertexts.updateWhere (fun k _ => p k) fun row => { row with hasConflict }) :
    db₁.getRecord a r =
      if p (a, r) then (db.getRecord a r).map fun row => { row with hasConflict } else db.getRecord a r := by
  unfold Database.getRecord
  rw [h, Table.get?_updateWhere]
  cases db.ciphertexts.get? (a, r) with
  | none => simp
  | some row =>
    by_cases hp : p (a, r)
    · simp [hp]
    · simp [hp]

/-! ## What keeps the queue in order -/

theorem QueueOk.change (hq : QueueOk db)
    (hother : ∀ a' r', (a', r') ≠ (a, r) →
      db'.getRecord a' r' = db.getRecord a' r' ∧ (db'.pendingOf a' r').Sublist (db.pendingOf a' r'))
    (hthis : RecordOk a r (db'.getRecord a r) (db'.pendingOf a r)) : QueueOk db' := by
  intro a' r'
  by_cases hk : (a', r') = (a, r)
  · cases hk
    exact hthis
  · obtain ⟨hrow, hsub⟩ := hother a' r' hk
    rw [hrow]
    exact (hq a' r').sublist hsub

theorem QueueOk.flags (hq : QueueOk db) (p : UserId × ItemId → Bool) (hasConflict : Bool)
    (hc : db'.ciphertexts = db.ciphertexts.updateWhere (fun k _ => p k) fun row => { row with hasConflict })
    (hp : db'.pendingMutations = db.pendingMutations) : QueueOk db' := by
  intro a r
  have hpending : db'.pendingOf a r = db.pendingOf a r := by
    unfold Database.pendingOf
    rw [hp]
  rw [hpending, getRecord_flags hc]
  split_ifs
  · exact (hq a r).flag hasConflict
  · exact hq a r

theorem QueueOk.setConflict (hq : QueueOk db) (a : UserId) (r : ItemId) (hasConflict : Bool) :
    QueueOk (db.setConflict a r hasConflict) := hq.flags (fun k => k = (a, r)) hasConflict rfl rfl

theorem QueueOk.same (hq : QueueOk db) (hc : db'.ciphertexts = db.ciphertexts)
    (hp : db'.pendingMutations = db.pendingMutations) : QueueOk db' := by
  intro a r
  have h := hq a r
  unfold Database.getRecord Database.pendingOf at h ⊢
  rwa [hc, hp]

theorem QueueOk.upsertRecord (hq : QueueOk db) {record : CiphertextRecord}
    (hown : record.Own record.accountId record.recordId) (hnone : db.pendingOf record.accountId record.recordId = []) :
    QueueOk (db.upsertRecord record) := by
  refine hq.change (a := record.accountId) (r := record.recordId) (fun a' r' hk => ?_) ?_
  · rw [getRecord_upsertRecord, if_neg hk, pendingOf_upsertRecord]
    exact ⟨rfl, List.Sublist.refl _⟩
  · rw [getRecord_upsertRecord, if_pos rfl, pendingOf_upsertRecord, hnone]
    refine ⟨fun stored hs => ?_, Nat.zero_le 1, fun m hm => absurd hm List.not_mem_nil⟩
    cases hs
    exact hown

theorem QueueOk.upsertPending (hq : QueueOk db) (hfit : m.Fits (db.getRecord m.accountId m.recordId)) :
    QueueOk (db.upsertPending m) := by
  refine hq.change (a := m.accountId) (r := m.recordId) (fun a' r' hk => ⟨rfl, pendingOf_upsertPending_other hk⟩) ?_
  rw [pendingOf_upsertPending_self, getRecord_upsertPending]
  refine ⟨(hq _ _).own, Nat.le_refl 1, fun m' hm' => ?_⟩
  rw [List.mem_singleton.mp hm']
  exact hfit

/-- A record is stored and its upsert queued, whatever was there of it before. -/
theorem enqueue_ok {record : CiphertextRecord}
    (hothers : ∀ a r, (a, r) ≠ (record.accountId, record.recordId) → RecordOk a r (db.getRecord a r) (db.pendingOf a r))
    (hown : record.Own record.accountId record.recordId) (hdel : record.isDeleted = false)
    (hkey : (m.accountId, m.recordId) = (record.accountId, record.recordId)) (hop : m.operation = .upsert)
    (henv : m.ciphertextEnvelope = some record.ciphertextEnvelope) :
    QueueOk ((db.upsertRecord record).upsertPending m) := by
  intro a' r'
  rw [getRecord_upsertPending, getRecord_upsertRecord]
  by_cases hk : (a', r') = (record.accountId, record.recordId)
  · rw [if_pos hk]
    obtain ⟨rfl, rfl⟩ := Prod.mk.inj (hk.trans hkey.symm)
    obtain ⟨hacc, hrec⟩ := Prod.mk.inj hkey
    rw [pendingOf_upsertPending_self]
    refine ⟨fun stored hs => ?_, Nat.le_refl 1, fun m' hm' => ?_⟩
    · cases hs
      rw [hacc, hrec]
      exact hown
    · rw [List.mem_singleton.mp hm']
      unfold PendingMutationEntity.Fits
      rw [hop]
      exact ⟨_, rfl, hdel, henv⟩
  · rw [if_neg hk]
    exact (hothers a' r' hk).sublist (pendingOf_upsertPending_other (hkey ▸ hk))

theorem QueueOk.deleteForRecord (hq : QueueOk db) (a : UserId) (r : ItemId) : QueueOk (db.deleteForRecord a r) := by
  intro a' r'
  rw [getRecord_deleteForRecord, pendingOf_deleteForRecord]
  split_ifs with hk
  · exact (hq a' r').sublist (List.nil_sublist _)
  · exact hq a' r'

theorem QueueOk.deleteRecord (hq : QueueOk db) (hnone : db.pendingOf a r = []) : QueueOk (db.deleteRecord a r) := by
  refine hq.change (a := a) (r := r) (fun a' r' hk => ?_) ?_
  · rw [getRecord_deleteRecord, if_neg hk, pendingOf_deleteRecord]
    exact ⟨rfl, List.Sublist.refl _⟩
  · rw [getRecord_deleteRecord, if_pos rfl, pendingOf_deleteRecord, hnone]
    exact ⟨fun stored hs => (nomatch hs), Nat.zero_le 1, fun m hm => absurd hm List.not_mem_nil⟩

end

/-! ## Checks that passed -/

section
variable {P : Platform}

theorem require_ok {condition : Bool} {message : String} {u : Unit} (h : require condition message = .ok u) :
    condition = true := by
  unfold require at h
  split at h
  · assumption
  · cases h

theorem forM_ok {α : Type} {check : α → Except Failure Unit} :
    ∀ {l : List α} {u : Unit}, l.forM check = .ok u → ∀ x ∈ l, check x = .ok ()
  | [], _, _ => fun x hx => absurd hx List.not_mem_nil
  | y :: l, u, h => by
    obtain ⟨u', hy, hl⟩ := except_bind_ok (show (check y >>= fun _ => l.forM check) = .ok u from h)
    rintro x hx
    rcases List.mem_cons.mp hx with rfl | hx
    · exact hy
    · exact forM_ok hl x hx

theorem requireNotNull_ok {α : Type} {message : String} {value : Option α} {x : α}
    (h : requireNotNull message value = .ok x) : value = some x := by
  cases value with
  | none => cases h
  | some y =>
    cases h
    rfl

theorem orThrow_ok {α : Type} {code message : String} {value : Option α} {x : α}
    (h : orThrow code message value = .ok x) : value = some x := by
  cases value with
  | none => cases h
  | some y =>
    cases h
    rfl

theorem validate_own {record : CiphertextRecord} {u : Unit} (h : validate P record = .ok u) :
    record.Own record.accountId record.recordId := by
  obtain ⟨_, -, h⟩ := except_bind_ok h
  obtain ⟨_, -, h⟩ := except_bind_ok h
  obtain ⟨_, -, h⟩ := except_bind_ok h
  obtain ⟨_, -, h⟩ := except_bind_ok h
  obtain ⟨_, -, h⟩ := except_bind_ok h
  obtain ⟨_, hid, h⟩ := except_bind_ok h
  obtain ⟨_, howner, h⟩ := except_bind_ok h
  obtain ⟨_, hrevision, -⟩ := except_bind_ok h
  exact ⟨of_decide_eq_true (require_ok hid), of_decide_eq_true (require_ok howner),
    of_decide_eq_true (require_ok hrevision)⟩

/-! ## The operations -/

variable {readings : Readings} {db db' : Database} {a : UserId} {r : ItemId}

theorem upsertLocal_ok {envelope : VaultItemCiphertext} {itemRevision : Nat} {lastSyncedAt : String}
    {baseItemRevision : Option Nat} {clientMutationId : MutationId} (hq : QueueOk db)
    (h : upsertLocalCiphertextAndEnqueue P readings a r envelope itemRevision lastSyncedAt baseItemRevision
      clientMutationId db = .ok db') : QueueOk db' := by
  obtain ⟨_, hv, h⟩ := except_bind_ok h
  obtain ⟨_, -, h⟩ := except_bind_ok h
  obtain ⟨_, -, h⟩ := except_bind_ok h
  cases h
  exact enqueue_ok (fun a' r' _ => hq.deleteForRecord a r a' r') (validate_own hv) rfl rfl
    rfl rfl

theorem getRecord_markDeleted {a' : UserId} {r' : ItemId} : (db.markDeleted a r).getRecord a' r' =
    if (a', r') = (a, r) then (db.getRecord a r).map fun row => { row with isDeleted := true }
    else db.getRecord a' r' := by
  unfold Database.markDeleted
  cases hrow : db.getRecord a r with
  | none =>
    split_ifs with hk
    · cases hk
      exact hrow
    · rfl
  | some row => exact getRecord_upsertRecord

theorem pendingOf_markDeleted {a' : UserId} {r' : ItemId} :
    (db.markDeleted a r).pendingOf a' r' = db.pendingOf a' r' := by
  unfold Database.markDeleted
  split <;> rfl

theorem deleteLocal_ok {baseItemRevision : Option Nat} {clientMutationId : MutationId} {createdAt : String}
    (hq : QueueOk db)
    (h : deleteLocalAndEnqueue P a r baseItemRevision clientMutationId createdAt db = .ok db') : QueueOk db' := by
  obtain ⟨_, -, h⟩ := except_bind_ok h
  obtain ⟨_, -, h⟩ := except_bind_ok h
  obtain ⟨_, -, h⟩ := except_bind_ok h
  obtain ⟨_, -, h⟩ := except_bind_ok h
  obtain ⟨_, -, h⟩ := except_bind_ok h
  dsimp only at h
  split at h
  · cases h
    refine hq.change (a := a) (r := r) (fun a' r' hk => ?_) ?_
    · rw [getRecord_deleteForRecord, getRecord_deleteRecord, if_neg hk, pendingOf_deleteForRecord, if_neg hk]
      exact ⟨rfl, List.Sublist.refl _⟩
    · rw [getRecord_deleteForRecord, getRecord_deleteRecord, if_pos rfl, pendingOf_deleteForRecord, if_pos rfl]
      exact ⟨fun stored hs => (nomatch hs), Nat.zero_le 1, fun m hm => absurd hm List.not_mem_nil⟩
  · obtain ⟨base, -, h⟩ := except_bind_ok h
    cases h
    refine hq.change (a := a) (r := r) (fun a' r' hk => ?_) ?_
    · rw [getRecord_upsertPending, getRecord_deleteForRecord, getRecord_markDeleted, if_neg hk]
      refine ⟨rfl, (pendingOf_upsertPending_other hk).trans ?_⟩
      rw [pendingOf_deleteForRecord, if_neg hk, pendingOf_markDeleted]
    · rw [getRecord_upsertPending, getRecord_deleteForRecord, getRecord_markDeleted, if_pos rfl,
        pendingOf_upsertPending_self]
      refine ⟨fun stored hs => ?_, Nat.le_refl 1, fun m hm => ?_⟩
      · obtain ⟨old, ho, rfl⟩ := Option.map_eq_some_iff.mp hs
        exact (hq a r).own old ho
      · rw [List.mem_singleton.mp hm]
        refine ⟨rfl, fun stored hs => ?_⟩
        obtain ⟨old, -, rfl⟩ := Option.map_eq_some_iff.mp hs
        rfl

/-- Acknowledging one mutation touches its record only, and stores no foreign envelope. -/
theorem acknowledge_spec {acks : List MutationAcknowledgement} {timestamp : String} {m : PendingMutationEntity}
    (hown : ∀ a r stored, db.getRecord a r = some stored → stored.Own a r)
    (h : acknowledge acks timestamp db m = .ok db') :
    db'.pendingMutations = db.pendingMutations ∧
      (∀ a r, (a, r) ≠ (m.accountId, m.recordId) → db'.getRecord a r = db.getRecord a r) ∧
      ∀ a r stored, db'.getRecord a r = some stored → stored.Own a r := by
  unfold acknowledge at h
  split at h
  · cases h
    refine ⟨rfl, fun a r hk => ?_, fun a r stored hs => ?_⟩
    · rw [getRecord_deleteRecord, if_neg hk]
    · rw [getRecord_deleteRecord] at hs
      split at hs
      · cases hs
      · exact hown a r stored hs
  · obtain ⟨revision, -, h⟩ := except_bind_ok h
    obtain ⟨old, hold, h⟩ := except_bind_ok h
    cases h
    refine ⟨rfl, fun a r hk => ?_, fun a r stored hs => ?_⟩
    · rw [getRecord_upsertRecord, if_neg hk]
    · rw [getRecord_upsertRecord] at hs
      split at hs
      · rename_i hk
        cases hk
        cases hs
        obtain ⟨hid, howner, -⟩ := hown _ _ old (orThrow_ok hold)
        exact ⟨hid, howner, rfl⟩
      · exact hown a r stored hs

theorem acknowledgeAll_spec {acks : List MutationAcknowledgement} {timestamp : String} :
    ∀ {l : List PendingMutationEntity} {db db' : Database},
      (∀ a r stored, db.getRecord a r = some stored → stored.Own a r) →
      l.foldlM (acknowledge acks timestamp) db = .ok db' →
      db'.pendingMutations = db.pendingMutations ∧
        (∀ a r, (∀ m ∈ l, (a, r) ≠ (m.accountId, m.recordId)) → db'.getRecord a r = db.getRecord a r) ∧
        ∀ a r stored, db'.getRecord a r = some stored → stored.Own a r
  | [], db, db', hown, h => by
    cases h
    exact ⟨rfl, fun _ _ _ => rfl, hown⟩
  | m :: l, db, db', hown, h => by
    rw [List.foldlM_cons] at h
    obtain ⟨db₁, h1, h⟩ := except_bind_ok h
    obtain ⟨hp1, hr1, ho1⟩ := acknowledge_spec hown h1
    obtain ⟨hp, hr, ho⟩ := acknowledgeAll_spec ho1 h
    refine ⟨hp.trans hp1, fun a r hk => ?_, ho⟩
    rw [hr a r fun m' hm' => hk m' (List.mem_cons_of_mem _ hm'), hr1 a r (hk m List.mem_cons_self)]

theorem ackMutations_ok {acks : List MutationAcknowledgement} {serverRevision : Nat} {timestamp : String}
    (hq : QueueOk db) (h : ackMutations P a acks serverRevision timestamp db = .ok db') : QueueOk db' := by
  obtain ⟨_, -, h⟩ := except_bind_ok h
  obtain ⟨_, -, h⟩ := except_bind_ok h
  obtain ⟨_, -, h⟩ := except_bind_ok h
  obtain ⟨_, -, h⟩ := except_bind_ok h
  obtain ⟨_, -, h⟩ := except_bind_ok h
  dsimp only at h
  split at h
  · cases h
  obtain ⟨db₁, hfold, h⟩ := except_bind_ok h
  split at h
  · cases h
  cases h
  obtain ⟨hp, hr, ho⟩ := acknowledgeAll_spec (fun a r => (hq a r).own) hfold
  intro a' r'
  have hsub : ((db₁.deleteAllPending a (acks.map (·.clientMutationId))).pendingOf a' r').Sublist
      (db.pendingOf a' r') := by
    unfold Database.pendingOf Database.deleteAllPending
    rw [hp]
    exact List.filter_sublist.filter _
  refine ⟨ho a' r', Nat.le_trans hsub.length_le (hq a' r').once, fun m hm => ?_⟩
  -- the record of a mutation that stays is not one of the acknowledged ones
  have hkeep : db₁.getRecord a' r' = db.getRecord a' r' := by
    refine hr a' r' fun m' hm' hk => ?_
    obtain ⟨hin', hacked⟩ := List.mem_filter.mp hm'
    have hsame : m' ∈ db.pendingOf a' r' := by
      cases hk
      exact mem_pendingOf.mpr ⟨hin', rfl, rfl⟩
    obtain rfl := eq_of_length_le_one (hq a' r').once (hsub.subset hm) hsame
    obtain ⟨hmem, -⟩ := mem_pendingOf.mp hm
    have hnot := (List.mem_filter.mp hmem).2
    rw [hacked] at hnot
    exact absurd hnot (by decide)
  have hfits := (hq a' r').fits m (hsub.subset hm)
  rw [← hkeep] at hfits
  exact hfits

theorem savePullConflict_ok {remote : Option VaultItemCiphertext} {serverRevision : Nat} {itemRevision : Option Nat}
    {timestamp : String} (hq : QueueOk db) :
    QueueOk (savePullConflict a r remote serverRevision itemRevision timestamp db) := by
  unfold savePullConflict
  refine QueueOk.setConflict ?_ a r true
  exact hq.same rfl rfl

theorem pullItem_ok {serverRevision : Nat} {timestamp : String} {remote : CiphertextRecord} (hq : QueueOk db)
    (ha : remote.accountId = a) (hown : remote.Own remote.accountId remote.recordId) :
    QueueOk (pullItem a serverRevision timestamp db remote) := by
  unfold pullItem
  split
  · rename_i hnone
    refine hq.upsertRecord ?_ (ha ▸ getForRecord_none.mp hnone)
    exact hown
  · exact savePullConflict_ok hq

theorem pullDelete_ok {serverRevision : Nat} {timestamp : String} {deleted : RemoteDeletedItem} (hq : QueueOk db) :
    QueueOk (pullDelete a serverRevision timestamp db deleted) := by
  unfold pullDelete
  split
  · rename_i hnone
    exact hq.deleteRecord (getForRecord_none.mp hnone)
  · exact savePullConflict_ok hq

theorem foldl_ok {α : Type} {f : Database → α → Database} :
    ∀ {l : List α} {db : Database}, QueueOk db → (∀ x ∈ l, ∀ db, QueueOk db → QueueOk (f db x)) → QueueOk (l.foldl f db)
  | [], _, hq, _ => hq
  | x :: _, db, hq, hf => by
    rw [List.foldl_cons]
    exact foldl_ok (hf x List.mem_cons_self db hq) fun y hy => hf y (List.mem_cons_of_mem _ hy)

theorem applyPull_ok {items : List VaultItemCiphertext} {deletedItems : List RemoteDeletedItem}
    {serverRevision cursor : Nat} {timestamp : String} (hq : QueueOk db)
    (h : applyPull P a items deletedItems serverRevision cursor timestamp db = .ok db') : QueueOk db' := by
  obtain ⟨_, -, h⟩ := except_bind_ok h
  obtain ⟨_, -, h⟩ := except_bind_ok h
  obtain ⟨_, -, h⟩ := except_bind_ok h
  obtain ⟨_, -, h⟩ := except_bind_ok h
  obtain ⟨_, hvalid, h⟩ := except_bind_ok h
  obtain ⟨_, -, h⟩ := except_bind_ok h
  obtain ⟨_, -, h⟩ := except_bind_ok h
  dsimp only at h
  split at h
  · cases h
  cases h
  have hitems : QueueOk ((items.map (parseCiphertextRecord a · timestamp)).foldl
      (pullItem a serverRevision timestamp) db) := by
    refine foldl_ok hq fun record hrecord db hq => pullItem_ok hq ?_ (validate_own (forM_ok hvalid record hrecord))
    obtain ⟨item, -, rfl⟩ := List.mem_map.mp hrecord
    rfl
  exact (foldl_ok hitems fun deleted _ db hq => pullDelete_ok hq).same rfl rfl

theorem saveConflicts_ok {conflicts : List SyncConflict} (hq : QueueOk db)
    (h : saveConflicts P a conflicts db = .ok db') : QueueOk db' := by
  obtain ⟨_, -, h⟩ := except_bind_ok h
  cases h
  have hsaved : QueueOk (conflicts.foldl (fun db c => db.upsertConflict a c.recordId c.toSyncConflictEntity) db) :=
    foldl_ok hq fun c _ db hq => hq.same rfl rfl
  exact hsaved.flags (fun k => k.1 = a && (conflicts.map (·.recordId)).contains k.2) true rfl rfl

theorem setConflictIds_ok {recordIds : List ItemId} (hq : QueueOk db)
    (h : setConflictIds P a recordIds db = .ok db') : QueueOk db' := by
  obtain ⟨_, -, h⟩ := except_bind_ok h
  obtain ⟨_, -, h⟩ := except_bind_ok h
  cases h
  have hcleared : QueueOk (db.clearConflictFlags a) := hq.flags (fun k => k.1 = a) false rfl rfl
  exact hcleared.flags (fun k => k.1 = a && recordIds.contains k.2) true rfl rfl

/-! ## The resolutions of a conflict -/

variable {conflict : SyncConflictEntity}

theorem keepLocal_ok (hq : QueueOk db) (h : keepLocal readings a r conflict db = .ok db') : QueueOk db' := by
  obtain ⟨stored, hstored, h⟩ := except_bind_ok h
  have hstored := orThrow_ok hstored
  cases h
  have hqueued : QueueOk ((db.deleteForRecord a r).upsertPending
      ⟨a, readings.randomUUID 0, r, ((db.getForRecord a r).map (·.operation)).getD
        (if stored.isDeleted then .delete else .upsert), conflict.serverItemRevision.getD 0,
        if ((db.getForRecord a r).map (·.operation)).getD (if stored.isDeleted then .delete else .upsert) =
          OperationKind.upsert then some stored.ciphertextEnvelope else none, readings.now⟩) := by
    refine (hq.deleteForRecord a r).upsertPending ?_
    rw [getRecord_deleteForRecord, hstored]
    -- the operation is the one that the record calls for
    have hoperation : ((db.getForRecord a r).map (·.operation)).getD
        (if stored.isDeleted then .delete else .upsert) = if stored.isDeleted then OperationKind.delete else .upsert := by
      cases hp : db.getForRecord a r with
      | none => rfl
      | some m =>
        have hfits := (hq a r).fits m (getForRecord_some hp)
        unfold PendingMutationEntity.Fits at hfits
        rw [Option.map_some, Option.getD_some]
        split at hfits
        · rename_i hm
          obtain ⟨old, ho, hd, -⟩ := hfits
          cases hstored.symm.trans ho
          rw [hm, hd]
          rfl
        · rename_i hm
          rw [hm, hfits.2 stored hstored]
          rfl
    unfold PendingMutationEntity.Fits
    dsimp only
    rw [hoperation]
    cases hd : stored.isDeleted with
    | true =>
      refine ⟨rfl, fun stored' hs => ?_⟩
      cases hs
      exact hd
    | false => exact ⟨stored, rfl, hd, rfl⟩
  exact (hqueued.setConflict a r false).same rfl rfl

/-- What is stored of a record when the remote side of a conflict wins. -/
theorem applyRemoteConflict_ok (h : applyRemoteConflict P a r conflict db = .ok db') :
    (conflict.remoteCiphertextEnvelope = none ∧ db' = db.deleteRecord a r) ∨
      ∃ remote record, conflict.remoteCiphertextEnvelope = some remote ∧ record.accountId = a ∧
        record.recordId = remote.id ∧ record.ciphertextEnvelope = remote ∧ record.isDeleted = false ∧
        record.Own a remote.id ∧ db' = db.upsertRecord record := by
  unfold applyRemoteConflict at h
  split at h
  · rename_i hr
    cases h
    exact .inl ⟨hr, rfl⟩
  · rename_i remote hr
    obtain ⟨record, hrecord, h⟩ := except_bind_ok h
    obtain ⟨_, hv, hrecord⟩ := except_bind_ok hrecord
    cases hrecord
    cases h
    exact .inr ⟨remote, _, hr, rfl, rfl, rfl, rfl, validate_own hv, rfl⟩

/-- The remote side may have the id of another record. Its pending mutation then
has to be an upsert of the very envelope that is stored. -/
def Harmless (db : Database) (a : UserId) (r : ItemId) (remote : VaultItemCiphertext) : Prop :=
  remote.id = r ∨ ∀ m ∈ db.pendingOf a remote.id, m.operation = .upsert ∧ m.ciphertextEnvelope = some remote

theorem remoteWins_ok {a' : UserId} {r' : ItemId} (hq : QueueOk db)
    (hh : ∀ remote, conflict.remoteCiphertextEnvelope = some remote → (a', r') = (a, remote.id) →
      Harmless db a r remote)
    (h : applyRemoteConflict P a r conflict db = .ok db') :
    RecordOk a' r' ((db'.deleteForRecord a r).getRecord a' r') ((db'.deleteForRecord a r).pendingOf a' r') := by
  rcases applyRemoteConflict_ok h with ⟨-, rfl⟩ | ⟨remote, record, hr, rfl, hid, henv, hdel, hown, rfl⟩
  · exact (hq.deleteForRecord a r).deleteRecord (by rw [pendingOf_deleteForRecord, if_pos rfl]) a' r'
  · have hdrop := hq.deleteForRecord record.accountId r
    have hrow : (((db.upsertRecord record).deleteForRecord record.accountId r).getRecord a' r') =
        if (a', r') = (record.accountId, record.recordId) then some record.toCiphertextRecordEntity
        else db.getRecord a' r' := getRecord_upsertRecord
    have hpending : ((db.upsertRecord record).deleteForRecord record.accountId r).pendingOf a' r' =
        (db.deleteForRecord record.accountId r).pendingOf a' r' := rfl
    rw [hrow, hpending]
    split_ifs with hk
    · cases hk
      refine ⟨fun stored hs => ?_, (hdrop _ _).once, fun m hm => ?_⟩
      · cases hs
        rw [hid]
        exact hown
      · rw [pendingOf_deleteForRecord] at hm
        split at hm
        · cases hm
        · rename_i hne
          rcases hh remote hr (by rw [hid]) with he | hsame
          · exact absurd (by rw [hid, he]) hne
          · rw [hid] at hm
            obtain ⟨hop, hsome⟩ := hsame m hm
            unfold PendingMutationEntity.Fits
            rw [hop]
            exact ⟨_, rfl, hdel, henv.symm ▸ hsome⟩
    · exact hdrop a' r'

theorem acceptRemote_ok (hq : QueueOk db)
    (hh : ∀ remote, conflict.remoteCiphertextEnvelope = some remote → Harmless db a r remote)
    (h : acceptRemote P a r conflict db = .ok db') : QueueOk db' := by
  obtain ⟨db₁, hremote, h⟩ := except_bind_ok h
  cases h
  have hwins : QueueOk (db₁.deleteForRecord a r) := fun a' r' =>
    remoteWins_ok hq (fun remote hr _ => hh remote hr) hremote
  exact hwins.same rfl rfl

theorem createCopy_ok {replacement : Option VaultItemCiphertext} {clientMutationId : Option MutationId}
    (hq : QueueOk db)
    (hh : ∀ remote, conflict.remoteCiphertextEnvelope = some remote →
      (∃ copy, replacement = some copy ∧ copy.id = remote.id) ∨ Harmless db a r remote)
    (h : createCopy P readings a r replacement clientMutationId conflict db = .ok db') : QueueOk db' := by
  obtain ⟨item, hitem, h⟩ := except_bind_ok h
  obtain ⟨mutationId, -, h⟩ := except_bind_ok h
  obtain ⟨_, -, h⟩ := except_bind_ok h
  obtain ⟨_, hv, h⟩ := except_bind_ok h
  obtain ⟨_, -, h⟩ := except_bind_ok h
  obtain ⟨db₁, hremote, h⟩ := except_bind_ok h
  cases h
  have hitem := requireNotNull_ok hitem
  have hcopied : QueueOk (((db₁.deleteForRecord a r).upsertRecord (parseCiphertextRecord a item readings.now)).upsertPending
      ⟨a, mutationId, item.id, .upsert, 0, some item, readings.now⟩) := by
    refine enqueue_ok (fun a' r' hk => remoteWins_ok hq (fun remote hr he => ?_) hremote) (validate_own hv) rfl rfl rfl rfl
    rcases hh remote hr with ⟨copy, hcopy, hid⟩ | hharm
    · cases hitem.symm.trans hcopy
      exact absurd (he.trans (by rw [← hid]; rfl)) hk
    · exact hharm
  exact hcopied.same rfl rfl

/-! ## Backups -/

theorem importCryptoCoreBackup_ok {items : List ImportedItem} {count : Nat} (hq : QueueOk db)
    (h : importCryptoCoreBackup P readings a items db = .ok (db', count)) : QueueOk db' := by
  obtain ⟨_, -, h⟩ := except_bind_ok h
  obtain ⟨_, -, h⟩ := except_bind_ok h
  obtain ⟨_, -, h⟩ := except_bind_ok h
  obtain ⟨_, hvalid, h⟩ := except_bind_ok h
  obtain ⟨_, -, h⟩ := except_bind_ok h
  obtain ⟨_, -, h⟩ := except_bind_ok h
  cases h
  refine foldl_ok hq fun record hrecord db hq => ?_
  have hmem : record.1 ∈ items.map (·.record readings a) := List.fst_mem_of_mem_zipIdx hrecord
  have hown := validate_own (forM_ok hvalid record.1 hmem)
  obtain ⟨item, -, he⟩ := List.mem_map.mp hmem
  exact enqueue_ok (fun a' r' _ => hq a' r') hown (he ▸ rfl) rfl rfl rfl

theorem QueueOk.clear (hq : QueueOk db) (a : UserId) : QueueOk (db.clear a) ∧ ∀ r, (db.clear a).pendingOf a r = [] := by
  have hrow (a' : UserId) (r' : ItemId) : (db.clear a).getRecord a' r' =
      (db.getRecord a' r').filter fun _ => !decide (a' = a) := by
    unfold Database.getRecord Database.clear
    rw [Table.get?_deleteWhere]
  constructor
  · intro a' r'
    have hsub : ((db.clear a).pendingOf a' r').Sublist (db.pendingOf a' r') := List.filter_sublist.filter _
    refine ⟨fun stored hs => ?_, Nat.le_trans hsub.length_le (hq a' r').once, fun m hm => ?_⟩
    · rw [hrow, Option.filter_eq_some_iff] at hs
      exact (hq a' r').own stored hs.1
    · obtain ⟨hin, hacc, -⟩ := mem_pendingOf.mp hm
      have hne : a' ≠ a := by
        have := (List.mem_filter.mp hin).2
        rw [hacc] at this
        exact of_decide_eq_true this
      have hsame : (db.clear a).getRecord a' r' = db.getRecord a' r' := by
        rw [hrow]
        cases db.getRecord a' r' with
        | none => rfl
        | some stored => simp [hne]
      rw [hsame]
      exact (hq a' r').fits m (hsub.subset hm)
  · intro r
    rw [List.eq_nil_iff_forall_not_mem]
    intro m hm
    obtain ⟨hin, hacc, -⟩ := mem_pendingOf.mp hm
    exact of_decide_eq_true (List.mem_filter.mp hin).2 hacc

theorem upsertAll_ok : ∀ {records : List CiphertextRecord} {db : Database}, QueueOk db →
    (∀ r, db.pendingOf a r = []) → (records.map (·.recordId)).Nodup →
    (∀ record ∈ records, record.accountId = a ∧ record.Own record.accountId record.recordId) →
    QueueOk (records.foldl Database.upsertRecord db) ∧
      (∀ r, r ∉ records.map (·.recordId) →
        (records.foldl Database.upsertRecord db).getRecord a r = db.getRecord a r) ∧
      ∀ record ∈ records, (records.foldl Database.upsertRecord db).getRecord a record.recordId =
        some record.toCiphertextRecordEntity
  | [], _, hq, _, _, _ => ⟨hq, fun _ _ => rfl, fun _ hr => absurd hr List.not_mem_nil⟩
  | record :: records, db, hq, hnone, hnodup, hown => by
    obtain ⟨ha, hself⟩ := hown record List.mem_cons_self
    rw [List.map_cons, List.nodup_cons] at hnodup
    obtain ⟨hok, hkeep, hstored⟩ := upsertAll_ok (hq.upsertRecord hself (ha ▸ hnone _)) hnone hnodup.2
      fun other ho => hown other (List.mem_cons_of_mem _ ho)
    rw [List.foldl_cons]
    refine ⟨hok, fun r hr => ?_, fun other ho => ?_⟩
    · rw [List.map_cons, List.mem_cons, not_or] at hr
      rw [hkeep r hr.2, getRecord_upsertRecord, if_neg fun hk => hr.1 (Prod.mk.inj hk).2]
    · rcases List.mem_cons.mp ho with rfl | ho
      · rw [hkeep _ hnodup.1, getRecord_upsertRecord, ha, if_pos rfl]
      · exact hstored other ho

theorem enqueueAll_ok : ∀ {pending : List PendingMutationEntity} {db : Database}, QueueOk db →
    (∀ m ∈ pending, m.Fits (db.getRecord m.accountId m.recordId)) →
    QueueOk (pending.foldl Database.upsertPending db)
  | [], _, hq, _ => hq
  | m :: pending, db, hq, hfits => by
    rw [List.foldl_cons]
    refine enqueueAll_ok (hq.upsertPending (hfits m List.mem_cons_self)) fun m' hm' => ?_
    rw [getRecord_upsertPending]
    exact hfits m' (List.mem_cons_of_mem _ hm')

theorem PendingMutationEntity.Fits.congr {m : PendingMutationEntity} {stored stored' : CiphertextRecordEntity}
    (hf : m.Fits (some stored)) (henv : stored'.ciphertextEnvelope = stored.ciphertextEnvelope)
    (hdel : stored'.isDeleted = stored.isDeleted) : m.Fits (some stored') := by
  unfold Fits at hf ⊢
  split at hf
  · obtain ⟨old, ho, hd, he⟩ := hf
    cases ho
    exact ⟨stored', rfl, hdel.trans hd, henv ▸ he⟩
  · refine ⟨hf.1, fun old ho => ?_⟩
    cases ho
    exact hdel.trans (hf.2 stored rfl)

/-- A mutation of a backup fits the record it has in the backup. -/
theorem backup_fits {db₀ : Database} {backup : Backup} {m : PendingMutationEntity} {record : CiphertextRecord}
    (hq₀ : QueueOk db₀) (hb : createEncryptedBackup P readings a db₀ = .ok backup)
    (hm : m ∈ backup.pendingMutations) (hrecord : record ∈ backup.items.map (·.record a))
    (hid : record.recordId = m.recordId) :
    m.accountId = a ∧ m.Fits (some record.toCiphertextRecordEntity) := by
  obtain ⟨_, -, hb⟩ := except_bind_ok hb
  split at hb
  · cases hb
  cases hb
  obtain ⟨hin, hacc⟩ := List.mem_filter.mp (List.mem_mergeSort.mp hm)
  have ha : m.accountId = a := of_decide_eq_true hacc
  obtain ⟨item, hitem, rfl⟩ := List.mem_map.mp hrecord
  obtain ⟨⟨r, row⟩, hrow, rfl⟩ := List.mem_map.mp hitem
  obtain ⟨⟨⟨a', r'⟩, row'⟩, hsel, he⟩ := List.mem_map.mp (List.mem_mergeSort.mp hrow)
  cases he
  obtain ⟨hget, hacc'⟩ := Table.mem_select.mp hsel
  obtain rfl : a' = a := of_decide_eq_true hacc'
  have hfits := (hq₀ a' m.recordId).fits m (mem_pendingOf.mpr ⟨hin, ha, rfl⟩)
  have hstored : db₀.getRecord a' m.recordId = some row' := hid ▸ hget
  rw [hstored] at hfits
  exact ⟨ha, hfits.congr rfl rfl⟩

theorem restoreEncryptedBackup_ok {readings₀ : Readings} {db₀ : Database} {backup : Backup} (hq : QueueOk db)
    (hq₀ : QueueOk db₀) (hb : createEncryptedBackup P readings₀ a db₀ = .ok backup)
    (h : restoreEncryptedBackup P a backup db = .ok db') : QueueOk db' := by
  obtain ⟨_, -, h⟩ := except_bind_ok h
  obtain ⟨_, -, h⟩ := except_bind_ok h
  obtain ⟨_, -, h⟩ := except_bind_ok h
  obtain ⟨_, hvalid, h⟩ := except_bind_ok h
  obtain ⟨_, hnodup, h⟩ := except_bind_ok h
  obtain ⟨_, -, h⟩ := except_bind_ok h
  obtain ⟨_, hchecked, h⟩ := except_bind_ok h
  obtain ⟨_, -, h⟩ := except_bind_ok h
  obtain ⟨_, -, h⟩ := except_bind_ok h
  obtain ⟨hcleared, hnone⟩ := hq.clear a
  obtain ⟨hstored, -, hrows⟩ := upsertAll_ok hcleared hnone (of_decide_eq_true (require_ok hnodup))
    fun record hrecord => by
      refine ⟨?_, validate_own (forM_ok hvalid record hrecord)⟩
      obtain ⟨item, -, rfl⟩ := List.mem_map.mp hrecord
      rfl
  have hqueued : QueueOk ((backup.pendingMutations.map fun m => { m with accountId := a }).foldl Database.upsertPending
      ((backup.items.map (·.record a)).foldl Database.upsertRecord (db.clear a))) := by
    refine enqueueAll_ok hstored fun m' hm' => ?_
    obtain ⟨m, hm, rfl⟩ := List.mem_map.mp hm'
    -- the check found the record of the mutation
    have hcheck := forM_ok hchecked m hm
    obtain ⟨_, -, hcheck⟩ := except_bind_ok hcheck
    obtain ⟨_, -, hcheck⟩ := except_bind_ok hcheck
    obtain ⟨_, -, hcheck⟩ := except_bind_ok hcheck
    obtain ⟨_, -, hcheck⟩ := except_bind_ok hcheck
    obtain ⟨record, hfound, -⟩ := except_bind_ok hcheck
    have hfound := requireNotNull_ok hfound
    have hrecord := List.mem_of_find?_eq_some hfound
    have hid : record.recordId = m.recordId := by simpa using List.find?_some hfound
    obtain ⟨-, hfits⟩ := backup_fits hq₀ hb hm hrecord hid
    have hrow := hrows record hrecord
    rw [hid] at hrow
    rw [hrow]
    exact hfits
  split at h
  · obtain ⟨_, -, h⟩ := except_bind_ok h
    cases h
    exact hqueued.same rfl rfl
  · cases h
    exact hqueued

theorem clearCiphertexts_ok (hq : QueueOk db) (h : clearCiphertexts P a db = .ok db') : QueueOk db' := by
  obtain ⟨_, -, h⟩ := except_bind_ok h
  cases h
  exact (hq.clear a).1

end

end ZeroVault.Mobile

import ZeroVault.MobileQueue
import ZeroVault.MobileRuns

/-!
# What is stored passes the checks

Every operation checks what it stores, and a few write what they found: the
tombstone of a record, the base of an older mutation, the revision of a saved
conflict. In the states that the repository reaches, every row passes the checks
that a backup of it is read with, but for the length of an envelope, which an
acknowledgement changes (`acknowledge_valid`) without looking.
-/

namespace ZeroVault.Mobile

open Lib Browser

/-! ## Valid rows -/

/-- A stored record passes `validate` but for the length of its envelope. -/
structure CiphertextRecord.Valid (P : Platform) (record : CiphertextRecord) : Prop where
  account : requireIdentifier P record.accountId "account" = .ok ()
  identifier : requireIdentifier P record.recordId "record" = .ok ()
  revision : requireSafeRevision (some record.itemRevision) = .ok ()
  synced : requireTimestamp P record.lastSyncedAt = .ok ()
  envelope : validateCiphertextEnvelope P record = .ok ()

structure PendingMutationEntity.Valid (P : Platform) (m : PendingMutationEntity) : Prop where
  mutation : P.isUuid m.clientMutationId = true
  identifier : requireIdentifier P m.recordId "record" = .ok ()
  base : requireSafeRevision (some m.baseItemRevision) = .ok ()
  payload : m.operation = .upsert ↔ m.ciphertextEnvelope.isSome
  created : requireTimestamp P m.createdAt = .ok ()

structure Database.Valid (P : Platform) (db : Database) : Prop where
  records : ∀ a r row, db.getRecord a r = some row → CiphertextRecord.Valid P ⟨row, a, r⟩
  pending : ∀ m ∈ db.pendingMutations, m.Valid P
  distinct : db.pendingMutations.Pairwise fun m m' => m.clashes m' = false
  conflicts : ∀ k conflict, db.syncConflicts.get? k = some conflict → requireSafeRevision conflict.serverItemRevision = .ok ()
  cursors : ∀ a cursor, db.syncCursors.get? a = some cursor → validateCursor P a cursor = .ok ()

/-- What a platform gives passes its own checks. -/
structure Readings.Valid (P : Platform) (readings : Readings) : Prop where
  now : requireTimestamp P readings.now = .ok ()
  randomUUID : ∀ n, P.isUuid (readings.randomUUID n) = true

section
variable {P : Platform} {db db' : Database} {record : CiphertextRecord} {m m' : PendingMutationEntity}
variable {a : UserId} {r : ItemId}

theorem validate_iff : validate P record = .ok () ↔
    record.Valid P ∧ P.envelopeLength record.ciphertextEnvelope ≤ 1048576 := by
  constructor
  · intro h
    obtain ⟨_, haccount, h⟩ := except_bind_ok h
    obtain ⟨_, hidentifier, h⟩ := except_bind_ok h
    obtain ⟨_, hlength, h⟩ := except_bind_ok h
    obtain ⟨_, hrevision, h⟩ := except_bind_ok h
    obtain ⟨_, hsynced, h⟩ := except_bind_ok h
    exact ⟨⟨haccount, hidentifier, hrevision, hsynced, h⟩, of_decide_eq_true (require_ok hlength)⟩
  · rintro ⟨hv, hlength⟩
    unfold validate
    rw [hv.account, hv.identifier, hv.revision, hv.synced, hv.envelope, require, if_pos (decide_eq_true hlength)]
    rfl

theorem validate_valid {u : Unit} (h : validate P record = .ok u) : record.Valid P := (validate_iff.mp h).1

theorem safe_iff {value : Option Nat} : requireSafeRevision value = .ok () ↔ value.all (· ≤ MAX_SAFE_REVISION) = true := by
  unfold requireSafeRevision require
  split
  · exact iff_of_true rfl (by assumption)
  · exact iff_of_false (by simp) (by assumption)

/-- The bases that a check let pass, and the 0 where there is none. -/
theorem safe_getD {value : Option Nat} (h : requireSafeRevision value = .ok ()) :
    requireSafeRevision (some (value.getD 0)) = .ok () := by
  rw [safe_iff] at h ⊢
  cases value with
  | none => exact decide_eq_true (Nat.zero_le MAX_SAFE_REVISION)
  | some n => exact h

theorem clashes_comm : m.clashes m' = m'.clashes m := by
  unfold PendingMutationEntity.clashes
  simp only [eq_comm]

/-- The flags and the type of a record are no matter of its checks. -/
theorem CiphertextRecord.Valid.congr (h : record.Valid P) {record' : CiphertextRecord}
    (haccount : record'.accountId = record.accountId) (hid : record'.recordId = record.recordId)
    (henvelope : record'.ciphertextEnvelope = record.ciphertextEnvelope)
    (hrevision : record'.itemRevision = record.itemRevision) (hsynced : record'.lastSyncedAt = record.lastSyncedAt) :
    record'.Valid P where
  account := haccount ▸ h.account
  identifier := hid ▸ h.identifier
  revision := hrevision ▸ h.revision
  synced := hsynced ▸ h.synced
  envelope := by
    have henv := h.envelope
    unfold validateCiphertextEnvelope at henv ⊢
    rw [haccount, hid, henvelope, hrevision]
    exact henv

/-! ## The accesses -/

theorem Database.Valid.upsertRecord (hv : db.Valid P) (hrecord : record.Valid P) : (db.upsertRecord record).Valid P :=
  { hv with
    records := fun a r row hrow => by
      rw [getRecord_upsertRecord] at hrow
      split at hrow
      · rename_i hk
        cases hk
        cases hrow
        exact hrecord
      · exact hv.records a r row hrow }

theorem Database.Valid.deleteRecord (hv : db.Valid P) (a : UserId) (r : ItemId) : (db.deleteRecord a r).Valid P :=
  { hv with
    records := fun a' r' row hrow => by
      rw [getRecord_deleteRecord] at hrow
      split at hrow
      · cases hrow
      · exact hv.records a' r' row hrow }

theorem Database.Valid.flags (hv : db.Valid P) {p : UserId × ItemId → Bool} {hasConflict : Bool} {db₁ : Database}
    (hc : db₁ = { db with ciphertexts := db.ciphertexts.updateWhere (fun k _ => p k) fun row => { row with hasConflict } }) :
    db₁.Valid P := by
  have hget (a : UserId) (r : ItemId) : db₁.getRecord a r =
      if p (a, r) then (db.getRecord a r).map fun row => { row with hasConflict } else db.getRecord a r :=
    getRecord_flags (by rw [hc])
  subst hc
  refine { hv with records := fun a r row hrow => ?_ }
  rw [hget] at hrow
  split at hrow
  · obtain ⟨old, hold, rfl⟩ := Option.map_eq_some_iff.mp hrow
    exact (hv.records a r old hold).congr rfl rfl rfl rfl rfl
  · exact hv.records a r row hrow

theorem Database.Valid.filterPending (hv : db.Valid P) (p : PendingMutationEntity → Bool) :
    Database.Valid P { db with pendingMutations := db.pendingMutations.filter p } :=
  { hv with
    pending := fun m hm => hv.pending m (List.mem_of_mem_filter hm)
    distinct := hv.distinct.filter p }

theorem Database.Valid.deleteForRecord (hv : db.Valid P) (a : UserId) (r : ItemId) : (db.deleteForRecord a r).Valid P :=
  hv.filterPending _

theorem Database.Valid.upsertPending (hv : db.Valid P) (hm : m.Valid P) : (db.upsertPending m).Valid P :=
  { hv with
    pending := fun m' hm' => by
      rcases List.mem_append.mp hm' with hm' | hm'
      · exact hv.pending m' (List.mem_of_mem_filter hm')
      · exact List.mem_singleton.mp hm' ▸ hm
    distinct := by
      refine List.pairwise_append.mpr ⟨hv.distinct.filter _, List.pairwise_singleton .., fun x hx y hy => ?_⟩
      have hother := (List.mem_filter.mp hx).2
      rw [List.mem_singleton.mp hy, clashes_comm]
      exact (Bool.not_eq_true' _).mp hother }

theorem Database.Valid.upsertConflict (hv : db.Valid P) {conflict : SyncConflictEntity}
    (hrevision : requireSafeRevision conflict.serverItemRevision = .ok ()) : (db.upsertConflict a r conflict).Valid P :=
  { hv with
    conflicts := fun k old hk => by
      unfold Database.upsertConflict at hk
      rw [Table.get?_set] at hk
      split at hk
      · cases hk
        exact hrevision
      · exact hv.conflicts k old hk }

theorem Database.Valid.deleteConflict (hv : db.Valid P) : (db.deleteConflict a r).Valid P :=
  { hv with
    conflicts := fun k old hk => by
      unfold Database.deleteConflict at hk
      rw [Table.get?_erase] at hk
      split at hk
      · cases hk
      · exact hv.conflicts k old hk }

theorem Database.Valid.setConflictStatus (hv : db.Valid P) {status : String} :
    (db.setConflictStatus a r status).Valid P :=
  { hv with
    conflicts := fun k old hk => by
      unfold Database.setConflictStatus at hk
      rw [Table.get?_updateWhere] at hk
      obtain ⟨conflict, hconflict, rfl⟩ := Option.map_eq_some_iff.mp hk
      have := hv.conflicts k conflict hconflict
      split
      · exact this
      · exact this }

theorem Database.Valid.upsertCursor (hv : db.Valid P) {cursor : SyncCursorEntity}
    (hcursor : validateCursor P a cursor = .ok ()) : (db.upsertCursor a cursor).Valid P :=
  { hv with
    cursors := fun a' old hk => by
      unfold Database.upsertCursor at hk
      rw [Table.get?_set] at hk
      split at hk
      · rename_i ha
        cases hk
        exact ha ▸ hcursor
      · exact hv.cursors a' old hk }

theorem Database.Valid.clear (hv : db.Valid P) (a : UserId) : (db.clear a).Valid P where
  records a' r row hrow := by
    unfold Database.getRecord Database.clear at hrow
    rw [Table.get?_deleteWhere, Option.filter_eq_some_iff] at hrow
    exact hv.records a' r row hrow.1
  pending m hm := hv.pending m (List.mem_of_mem_filter hm)
  distinct := hv.distinct.filter _
  conflicts k conflict hk := by
    unfold Database.clear at hk
    rw [Table.get?_deleteWhere, Option.filter_eq_some_iff] at hk
    exact hv.conflicts k conflict hk.1
  cursors a' cursor hk := by
    unfold Database.clear at hk
    rw [Table.get?_erase] at hk
    split at hk
    · cases hk
    · exact hv.cursors a' cursor hk

theorem emptyDatabase_valid : emptyDatabase.Valid P where
  records _ _ _ h := nomatch h
  pending _ hm := absurd hm List.not_mem_nil
  distinct := .nil
  conflicts _ _ h := nomatch h
  cursors _ _ h := nomatch h

theorem foldl_valid {α : Type} {f : Database → α → Database} :
    ∀ {l : List α} {db : Database}, db.Valid P → (∀ x ∈ l, ∀ db, db.Valid P → (f db x).Valid P) → (l.foldl f db).Valid P
  | [], _, hv, _ => hv
  | x :: _, db, hv, hf => by
    rw [List.foldl_cons]
    exact foldl_valid (hf x List.mem_cons_self db hv) fun y hy => hf y (List.mem_cons_of_mem _ hy)

/-! ## The operations -/

variable {readings : Readings}

theorem upsertLocal_valid {envelope : VaultItemCiphertext} {itemRevision : Nat} {lastSyncedAt : String}
    {baseItemRevision : Option Nat} {clientMutationId : MutationId} (hr : readings.Valid P) (hv : db.Valid P)
    (h : upsertLocalCiphertextAndEnqueue P readings a r envelope itemRevision lastSyncedAt baseItemRevision
      clientMutationId db = .ok db') : db'.Valid P := by
  obtain ⟨_, hrecord, h⟩ := except_bind_ok h
  obtain ⟨_, hbase, h⟩ := except_bind_ok h
  obtain ⟨_, huuid, h⟩ := except_bind_ok h
  cases h
  have hrecord := validate_valid hrecord
  refine ((hv.upsertRecord hrecord).deleteForRecord a r).upsertPending
    ⟨require_ok huuid, hrecord.identifier, ?_, iff_of_true rfl rfl, hr.now⟩
  cases hp : db.getForRecord a r with
  | none => exact safe_getD hbase
  | some m => exact (hv.pending m (mem_pendingOf.mp (getForRecord_some hp)).1).base

theorem markDeleted_valid (hv : db.Valid P) : (db.markDeleted a r).Valid P := by
  unfold Database.markDeleted
  split
  · rename_i row hrow
    exact hv.upsertRecord ((hv.records a r row hrow).congr rfl rfl rfl rfl rfl)
  · exact hv

theorem deleteLocal_valid {baseItemRevision : Option Nat} {clientMutationId : MutationId} {createdAt : String}
    (hv : db.Valid P) (h : deleteLocalAndEnqueue P a r baseItemRevision clientMutationId createdAt db = .ok db') :
    db'.Valid P := by
  obtain ⟨_, -, h⟩ := except_bind_ok h
  obtain ⟨_, hidentifier, h⟩ := except_bind_ok h
  obtain ⟨_, hbase, h⟩ := except_bind_ok h
  obtain ⟨_, huuid, h⟩ := except_bind_ok h
  obtain ⟨_, hcreated, h⟩ := except_bind_ok h
  dsimp only at h
  split at h
  · cases h
    exact (hv.deleteRecord a r).deleteForRecord a r
  · obtain ⟨base, hchosen, h⟩ := except_bind_ok h
    cases h
    refine (markDeleted_valid hv).deleteForRecord a r |>.upsertPending
      ⟨require_ok huuid, hidentifier, ?_, by simp, hcreated⟩
    have hchosen := requireNotNull_ok hchosen
    cases hp : db.getForRecord a r with
    | none =>
      rw [hp] at hchosen
      exact hchosen ▸ hbase
    | some m =>
      rw [hp] at hchosen
      cases hchosen
      exact (hv.pending m (mem_pendingOf.mp (getForRecord_some hp)).1).base

/-- The envelope takes the revision, and may so become longer than `validate` lets it be. -/
theorem acknowledge_valid {acks : List MutationAcknowledgement} {timestamp : String}
    (hacks : ∀ ack ∈ acks, requireSafeRevision (some ack.appliedItemRevision) = .ok ())
    (ht : requireTimestamp P timestamp = .ok ()) (hv : db.Valid P) (h : acknowledge acks timestamp db m = .ok db') :
    db'.Valid P := by
  unfold acknowledge at h
  split at h
  · cases h
    exact hv.deleteRecord ..
  · obtain ⟨revision, hrevision, h⟩ := except_bind_ok h
    obtain ⟨row, hrow, h⟩ := except_bind_ok h
    cases h
    have hrow := hv.records _ _ _ (orThrow_ok hrow)
    obtain ⟨ack, hack, rfl⟩ := Option.map_eq_some_iff.mp (requireNotNull_ok hrevision)
    refine hv.upsertRecord
      ⟨hrow.account, hrow.identifier, hacks ack (List.mem_of_find?_eq_some hack), ht, ?_⟩
    have henvelope := hrow.envelope
    obtain ⟨_, hid, henvelope⟩ := except_bind_ok henvelope
    obtain ⟨_, howner, henvelope⟩ := except_bind_ok henvelope
    obtain ⟨_, -, henvelope⟩ := except_bind_ok henvelope
    unfold validateCiphertextEnvelope
    dsimp only at hid howner ⊢
    rw [hid, howner, require, if_pos (decide_eq_true rfl)]
    exact henvelope

theorem ackMutations_valid {acks : List MutationAcknowledgement} {serverRevision : Nat} {timestamp : String}
    (hv : db.Valid P) (h : ackMutations P a acks serverRevision timestamp db = .ok db') : db'.Valid P := by
  obtain ⟨_, haccount, h⟩ := except_bind_ok h
  obtain ⟨_, hacks, h⟩ := except_bind_ok h
  obtain ⟨_, -, h⟩ := except_bind_ok h
  obtain ⟨_, hrevision, h⟩ := except_bind_ok h
  obtain ⟨_, htimestamp, h⟩ := except_bind_ok h
  dsimp only at h
  split at h
  · cases h
  obtain ⟨db₁, hfold, h⟩ := except_bind_ok h
  split at h
  · cases h
  cases h
  have hacks (ack) (hack : ack ∈ acks) : requireSafeRevision (some ack.appliedItemRevision) = .ok () := by
    obtain ⟨_, -, hsafe⟩ := except_bind_ok (forM_ok hacks ack hack)
    exact hsafe
  -- the loop leaves valid rows, and then only the queue and the cursor change
  have hfolded (l : List PendingMutationEntity) : ∀ {db db' : Database}, db.Valid P →
      l.foldlM (acknowledge acks timestamp) db = .ok db' → db'.Valid P := by
    induction l with
    | nil =>
      intro db db' hv h
      cases h
      exact hv
    | cons m l ih =>
      intro db db' hv h
      rw [List.foldlM_cons] at h
      obtain ⟨db₁, h1, h⟩ := except_bind_ok h
      exact ih (acknowledge_valid hacks htimestamp hv h1) h
  have hv₁ := (hfolded _ hv hfold).filterPending fun m =>
    !(m.accountId = a && (acks.map (·.clientMutationId)).contains m.clientMutationId)
  refine hv₁.upsertCursor (a := a) ?_
  unfold validateCursor
  rw [haccount, hrevision]
  dsimp only
  rw [htimestamp]
  cases hc : (db₁.deleteAllPending a (acks.map (·.clientMutationId))).syncCursors.get? a with
  | none => rfl
  | some current =>
    obtain ⟨_, -, hcursor⟩ := except_bind_ok (hv₁.cursors a current hc)
    obtain ⟨_, -, hcursor⟩ := except_bind_ok hcursor
    split at hcursor
    · obtain ⟨_, -, hcursor⟩ := except_bind_ok hcursor
      exact hcursor
    · exact hcursor

/-! ## Pulls and conflicts -/

theorem setConflict_valid (hv : db.Valid P) {hasConflict : Bool} : (db.setConflict a r hasConflict).Valid P :=
  hv.flags (p := fun k => k = (a, r)) rfl

theorem savePullConflict_valid {remote : Option VaultItemCiphertext} {serverRevision : Nat} {itemRevision : Option Nat}
    {timestamp : String} (hrevision : requireSafeRevision itemRevision = .ok ()) (hv : db.Valid P) :
    (savePullConflict a r remote serverRevision itemRevision timestamp db).Valid P :=
  setConflict_valid (hv.upsertConflict hrevision)

theorem pullItem_valid {serverRevision : Nat} {timestamp : String} (hrecord : record.Valid P)
    (ht : requireTimestamp P timestamp = .ok ()) (hv : db.Valid P) :
    (pullItem a serverRevision timestamp db record).Valid P := by
  unfold pullItem
  split
  · exact hv.upsertRecord { hrecord with synced := ht }
  · exact savePullConflict_valid hrecord.revision hv

theorem pullDelete_valid {serverRevision : Nat} {timestamp : String} {deleted : RemoteDeletedItem}
    (hrevision : requireSafeRevision (some deleted.itemRevision) = .ok ()) (hv : db.Valid P) :
    (pullDelete a serverRevision timestamp db deleted).Valid P := by
  unfold pullDelete
  split
  · exact hv.deleteRecord ..
  · exact savePullConflict_valid hrevision hv

theorem applyPull_valid {items : List VaultItemCiphertext} {deletedItems : List RemoteDeletedItem}
    {serverRevision cursor : Nat} {timestamp : String} (hv : db.Valid P)
    (h : applyPull P a items deletedItems serverRevision cursor timestamp db = .ok db') : db'.Valid P := by
  obtain ⟨_, haccount, h⟩ := except_bind_ok h
  obtain ⟨_, hrevision, h⟩ := except_bind_ok h
  obtain ⟨_, hcursor, h⟩ := except_bind_ok h
  obtain ⟨_, htimestamp, h⟩ := except_bind_ok h
  obtain ⟨_, hitems, h⟩ := except_bind_ok h
  obtain ⟨_, hdeleted, h⟩ := except_bind_ok h
  obtain ⟨_, -, h⟩ := except_bind_ok h
  dsimp only at h
  split at h
  · cases h
  cases h
  refine Database.Valid.upsertCursor ?_ ?_
  · refine foldl_valid (foldl_valid hv fun record hrecord db hv => ?_) fun deleted hd db hv => ?_
    · exact pullItem_valid (validate_valid (forM_ok hitems record hrecord)) htimestamp hv
    · obtain ⟨_, -, hchecked⟩ := except_bind_ok (forM_ok hdeleted deleted hd)
      obtain ⟨_, hsafe, -⟩ := except_bind_ok hchecked
      exact pullDelete_valid hsafe hv
  · unfold validateCursor
    rw [haccount, hrevision]
    dsimp only
    rw [htimestamp]
    exact hcursor

theorem saveConflicts_valid {conflicts : List SyncConflict} (hv : db.Valid P)
    (h : saveConflicts P a conflicts db = .ok db') : db'.Valid P := by
  obtain ⟨_, hchecked, h⟩ := except_bind_ok h
  cases h
  refine Database.Valid.flags (foldl_valid hv fun conflict hc db hv => ?_)
    (p := fun k => k.1 = a && (conflicts.map (·.recordId)).contains k.2) rfl
  have hcheck := forM_ok hchecked conflict hc
  obtain ⟨_, -, hcheck⟩ := except_bind_ok hcheck
  obtain ⟨_, -, hcheck⟩ := except_bind_ok hcheck
  obtain ⟨_, -, hcheck⟩ := except_bind_ok hcheck
  obtain ⟨_, hsafe, -⟩ := except_bind_ok hcheck
  exact hv.upsertConflict hsafe

theorem setConflictIds_valid {recordIds : List ItemId} (hv : db.Valid P)
    (h : setConflictIds P a recordIds db = .ok db') : db'.Valid P := by
  obtain ⟨_, -, h⟩ := except_bind_ok h
  obtain ⟨_, -, h⟩ := except_bind_ok h
  cases h
  exact (hv.flags (p := fun k => k.1 = a) rfl).flags (p := fun k => k.1 = a && recordIds.contains k.2) rfl

variable {conflict : SyncConflictEntity}

theorem applyRemoteConflict_valid (hv : db.Valid P) (h : applyRemoteConflict P a r conflict db = .ok db') :
    db'.Valid P := by
  unfold applyRemoteConflict at h
  split at h
  · cases h
    exact hv.deleteRecord a r
  · obtain ⟨record, hrecord, h⟩ := except_bind_ok h
    obtain ⟨_, hvalid, hrecord⟩ := except_bind_ok hrecord
    cases hrecord
    cases h
    exact hv.upsertRecord ((validate_valid hvalid).congr rfl rfl rfl rfl rfl)

theorem keepLocal_valid (hr : readings.Valid P) (hid : requireIdentifier P r "record" = .ok ())
    (hrevision : requireSafeRevision conflict.serverItemRevision = .ok ()) (hv : db.Valid P)
    (h : keepLocal readings a r conflict db = .ok db') : db'.Valid P := by
  obtain ⟨stored, -, h⟩ := except_bind_ok h
  cases h
  have hpayload (operation : OperationKind) (envelope : VaultItemCiphertext) : operation = .upsert ↔
      (if operation = .upsert then some envelope else none).isSome := by
    cases operation with
    | upsert => exact iff_of_true rfl rfl
    | delete => exact iff_of_false nofun nofun
  exact (setConflict_valid ((hv.deleteForRecord a r).upsertPending
    ⟨hr.randomUUID 0, hid, safe_getD hrevision, hpayload .., hr.now⟩)).deleteConflict

theorem createCopy_valid {replacement : Option VaultItemCiphertext} {clientMutationId : Option MutationId}
    (hr : readings.Valid P) (hv : db.Valid P)
    (h : createCopy P readings a r replacement clientMutationId conflict db = .ok db') : db'.Valid P := by
  obtain ⟨item, -, h⟩ := except_bind_ok h
  obtain ⟨mutationId, -, h⟩ := except_bind_ok h
  obtain ⟨_, -, h⟩ := except_bind_ok h
  obtain ⟨_, hcopy, h⟩ := except_bind_ok h
  obtain ⟨_, huuid, h⟩ := except_bind_ok h
  obtain ⟨db₁, hremote, h⟩ := except_bind_ok h
  cases h
  have hcopy := validate_valid hcopy
  have hmutation : P.isUuid mutationId = true := require_ok huuid
  refine ((((applyRemoteConflict_valid hv hremote).deleteForRecord a r).upsertRecord ?_).upsertPending
    ⟨hmutation, hcopy.identifier, rfl, iff_of_true rfl rfl, hr.now⟩).deleteConflict
  exact hcopy.congr rfl rfl rfl rfl rfl

theorem resolveConflict_valid {resolution : Resolution} (hr : readings.Valid P) (hv : db.Valid P)
    (h : resolveConflict P readings a r resolution db = .ok db') : db'.Valid P := by
  obtain ⟨_, -, h⟩ := except_bind_ok h
  obtain ⟨_, hid, h⟩ := except_bind_ok h
  obtain ⟨conflict, hconflict, h⟩ := except_bind_ok h
  have hrevision := hv.conflicts _ conflict (orThrow_ok hconflict)
  cases resolution with
  | keepLocal => exact keepLocal_valid hr hid hrevision hv h
  | acceptRemote =>
    obtain ⟨db₁, hremote, h⟩ := except_bind_ok h
    cases h
    exact ((applyRemoteConflict_valid hv hremote).deleteForRecord a r).deleteConflict
  | createCopy replacement mutationId => exact createCopy_valid hr hv h
  | skip =>
    cases h
    exact hv.setConflictStatus

/-! ## Backups -/

theorem importCryptoCoreBackup_valid {items : List ImportedItem} {count : Nat} (hr : readings.Valid P)
    (hv : db.Valid P) (h : importCryptoCoreBackup P readings a items db = .ok (db', count)) : db'.Valid P := by
  obtain ⟨_, -, h⟩ := except_bind_ok h
  obtain ⟨_, -, h⟩ := except_bind_ok h
  obtain ⟨_, -, h⟩ := except_bind_ok h
  obtain ⟨_, hvalid, h⟩ := except_bind_ok h
  obtain ⟨_, -, h⟩ := except_bind_ok h
  obtain ⟨_, -, h⟩ := except_bind_ok h
  cases h
  refine foldl_valid hv fun record hrecord db hv => ?_
  have hrecord := validate_valid (forM_ok hvalid record.1 (List.fst_mem_of_mem_zipIdx hrecord))
  exact (hv.upsertRecord hrecord).upsertPending
    ⟨hr.randomUUID record.2, hrecord.identifier, rfl, iff_of_true rfl rfl, hr.now⟩

theorem checkBackupMutation_valid {items : List CiphertextRecord} {u : Unit}
    (h : checkBackupMutation P items m = .ok u) : m.Valid P := by
  obtain ⟨_, huuid, h⟩ := except_bind_ok h
  obtain ⟨_, hid, h⟩ := except_bind_ok h
  obtain ⟨_, hbase, h⟩ := except_bind_ok h
  obtain ⟨_, hpayload, h⟩ := except_bind_ok h
  obtain ⟨_, -, h⟩ := except_bind_ok h
  obtain ⟨_, -, hcreated⟩ := except_bind_ok h
  have hpayload := of_decide_eq_true (require_ok hpayload)
  exact ⟨require_ok huuid, hid, hbase, by rw [hpayload], hcreated⟩

/-- Any backup that is restored, whoever made it. -/
theorem restoreEncryptedBackup_valid {backup : Backup} (hv : db.Valid P)
    (h : restoreEncryptedBackup P a backup db = .ok db') : db'.Valid P := by
  obtain ⟨_, -, h⟩ := except_bind_ok h
  obtain ⟨_, -, h⟩ := except_bind_ok h
  obtain ⟨_, -, h⟩ := except_bind_ok h
  obtain ⟨_, hvalid, h⟩ := except_bind_ok h
  obtain ⟨_, -, h⟩ := except_bind_ok h
  obtain ⟨_, -, h⟩ := except_bind_ok h
  obtain ⟨_, hchecked, h⟩ := except_bind_ok h
  obtain ⟨_, -, h⟩ := except_bind_ok h
  obtain ⟨_, -, h⟩ := except_bind_ok h
  have hqueued : ((backup.pendingMutations.map fun m => { m with accountId := a }).foldl Database.upsertPending
      ((backup.items.map (·.record a)).foldl Database.upsertRecord (db.clear a))).Valid P := by
    refine foldl_valid (foldl_valid (hv.clear a) fun record hrecord db hv => ?_) fun m' hm' db hv => ?_
    · exact hv.upsertRecord (validate_valid (forM_ok hvalid record hrecord))
    · obtain ⟨m, hm, rfl⟩ := List.mem_map.mp hm'
      have hm := checkBackupMutation_valid (forM_ok hchecked m hm)
      exact hv.upsertPending ⟨hm.mutation, hm.identifier, hm.base, hm.payload, hm.created⟩
  split at h
  · obtain ⟨_, hcursor, h⟩ := except_bind_ok h
    cases h
    exact hqueued.upsertCursor hcursor
  · cases h
    exact hqueued

/-! ## Runs -/

theorem Op.run_valid {op : Op} (hr : readings.Valid P) (hv : db.Valid P) (h : op.run P readings a db = .ok db') :
    db'.Valid P := by
  cases op with
  | upsertLocalCiphertextAndEnqueue => exact upsertLocal_valid hr hv h
  | deleteLocalAndEnqueue => exact deleteLocal_valid hv h
  | ackMutations => exact ackMutations_valid hv h
  | applyPull => exact applyPull_valid hv h
  | saveConflicts => exact saveConflicts_valid hv h
  | setConflictIds => exact setConflictIds_valid hv h
  | resolveConflict => exact resolveConflict_valid hr hv h
  | clearCiphertexts =>
    obtain ⟨_, -, h⟩ := except_bind_ok h
    cases h
    exact hv.clear a
  | importCryptoCoreBackup items =>
    have h : (Mobile.importCryptoCoreBackup P readings a items db).map (·.1) = .ok db' := h
    cases hi : Mobile.importCryptoCoreBackup P readings a items db with
    | error => rw [hi] at h; cases h
    | ok answer =>
      rw [hi] at h
      cases h
      exact importCryptoCoreBackup_valid hr hv hi

inductive Reached (P : Platform) : Database → Prop
  | empty : Reached P emptyDatabase
  | step {db db' : Database} {readings : Readings} (a : UserId) (op : Op) : Reached P db → readings.Valid P →
      op.run P readings a db = .ok db' → Reached P db'
  | restore {db db' : Database} (a : UserId) (backup : Backup) : Reached P db →
      restoreEncryptedBackup P a backup db = .ok db' → Reached P db'

theorem Reached.valid (h : Reached P db) : db.Valid P := by
  induction h with
  | empty => exact emptyDatabase_valid
  | step a op _ hr h ih => exact op.run_valid hr ih h
  | restore a backup _ h ih => exact restoreEncryptedBackup_valid ih h

end

end ZeroVault.Mobile

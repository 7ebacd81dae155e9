import ZeroVault.MobileBackup

/-!
# Where the records and conflicts of the mobile app come from

The revision of a record is one that it had, one that was acknowledged, one that
the caller gave, or one that the server told (`Op.run_from`). What the server
tells comes as a page, or as the remote side of a conflict.
-/

namespace ZeroVault.Mobile

open Lib Browser

/-! ## Where rows and conflicts come from -/

/-- Every row has the revision of a row before, or one that is given. -/
def RowsFrom (db db' : Database) (given : UserId → ItemId → Nat → Prop) : Prop :=
  ∀ a r row', db'.getRecord a r = some row' →
    (∃ row, db.getRecord a r = some row ∧ row'.itemRevision = row.itemRevision) ∨ given a r row'.itemRevision

/-- The record and the revision of a server's side: its item, or the deletion of the record `r`. -/
def RemoteSide (r : ItemId) (remote : Option VaultItemCiphertext) (itemRevision : Option Nat) (x : ItemId) (n : Nat) : Prop :=
  (∃ item, remote = some item ∧ item.id = x ∧ item.revision = n) ∨ remote = none ∧ r = x ∧ itemRevision = some n

def SyncConflictEntity.Remote (conflict : SyncConflictEntity) (r : ItemId) (x : ItemId) (n : Nat) : Prop :=
  RemoteSide r conflict.remoteCiphertextEnvelope conflict.serverItemRevision x n

/-- Every conflict has the server's side of one before, or one that is given. -/
def ConflictsFrom (db db' : Database) (given : UserId → ItemId → ItemId → Nat → Prop) : Prop :=
  ∀ a r conflict', db'.syncConflicts.get? (a, r) = some conflict' → ∀ x n, conflict'.Remote r x n →
    (∃ conflict, db.syncConflicts.get? (a, r) = some conflict ∧ conflict.Remote r x n) ∨ given a r x n

section
variable {db db₁ db' : Database} {given given' : UserId → ItemId → Nat → Prop} {a : UserId} {r : ItemId}
variable {givenC : UserId → ItemId → ItemId → Nat → Prop}

theorem getRecord_clear {a' : UserId} : (db.clear a).getRecord a' r =
    (db.getRecord a' r).filter fun _ => !decide (a' = a) := by
  unfold Database.getRecord Database.clear
  rw [Table.get?_deleteWhere]

theorem RowsFrom.same (h : db'.ciphertexts = db.ciphertexts) : RowsFrom db db' given := fun a r row' hrow =>
  .inl ⟨row', by unfold Database.getRecord at hrow ⊢; rwa [← h], rfl⟩

theorem RowsFrom.refl : RowsFrom db db given := .same rfl

theorem RowsFrom.trans (h : RowsFrom db db₁ given) (h' : RowsFrom db₁ db' given) : RowsFrom db db' given := by
  intro a r row' hrow
  rcases h' a r row' hrow with ⟨row₁, hrow₁, hrev⟩ | hg
  · rw [hrev]
    exact h a r row₁ hrow₁
  · exact .inr hg

theorem RowsFrom.mono (h : RowsFrom db db' given) (hg : ∀ a r n, given a r n → given' a r n) : RowsFrom db db' given' :=
  fun a r row' hrow => (h a r row' hrow).imp_right (hg a r _)

theorem RowsFrom.upsertRecord {record : CiphertextRecord}
    (hg : given record.accountId record.recordId record.itemRevision) : RowsFrom db (db.upsertRecord record) given := by
  intro a r row' hrow
  rw [getRecord_upsertRecord] at hrow
  split at hrow
  · rename_i hk
    cases hk
    cases hrow
    exact .inr hg
  · exact .inl ⟨row', hrow, rfl⟩

theorem RowsFrom.deleteRecord : RowsFrom db (db.deleteRecord a r) given := by
  intro a' r' row' hrow
  rw [getRecord_deleteRecord] at hrow
  split at hrow
  · cases hrow
  · exact .inl ⟨row', hrow, rfl⟩

theorem RowsFrom.flags {p : UserId × ItemId → Bool} {hasConflict : Bool}
    (h : db'.ciphertexts = db.ciphertexts.updateWhere (fun k _ => p k) fun row => { row with hasConflict }) :
    RowsFrom db db' given := by
  intro a r row' hrow
  rw [getRecord_flags h] at hrow
  split at hrow
  · obtain ⟨row, hold, rfl⟩ := Option.map_eq_some_iff.mp hrow
    exact .inl ⟨row, hold, rfl⟩
  · exact .inl ⟨row', hrow, rfl⟩

theorem RowsFrom.foldl {α : Type} {f : Database → α → Database} :
    ∀ {l : List α} {db : Database}, (∀ x ∈ l, ∀ db, RowsFrom db (f db x) given) → RowsFrom db (l.foldl f db) given
  | [], _, _ => .refl
  | x :: _, db, hf => (hf x List.mem_cons_self db).trans
      (RowsFrom.foldl fun y hy => hf y (List.mem_cons_of_mem _ hy))

theorem RowsFrom.clear : RowsFrom db (db.clear a) given := by
  intro a' r' row' hrow
  rw [getRecord_clear, Option.filter_eq_some_iff] at hrow
  exact .inl ⟨row', hrow.1, rfl⟩

theorem RowsFrom.markDeleted : RowsFrom db (db.markDeleted a r) given := by
  intro a' r' row' hrow
  rw [getRecord_markDeleted] at hrow
  split at hrow
  · rename_i hk
    cases hk
    obtain ⟨row, hold, rfl⟩ := Option.map_eq_some_iff.mp hrow
    exact .inl ⟨row, hold, rfl⟩
  · exact .inl ⟨row', hrow, rfl⟩

theorem syncConflicts_markDeleted : (db.markDeleted a r).syncConflicts = db.syncConflicts := by
  unfold Database.markDeleted
  split
  · rfl
  · rfl

theorem ConflictsFrom.same (h : db'.syncConflicts = db.syncConflicts) : ConflictsFrom db db' givenC :=
  fun _ _ conflict' hc _ _ hr => .inl ⟨conflict', h ▸ hc, hr⟩

theorem ConflictsFrom.refl : ConflictsFrom db db givenC := .same rfl

theorem ConflictsFrom.trans (h : ConflictsFrom db db₁ givenC) (h' : ConflictsFrom db₁ db' givenC) :
    ConflictsFrom db db' givenC := by
  intro a r conflict' hc x n hr
  rcases h' a r conflict' hc x n hr with ⟨conflict₁, hc₁, hr₁⟩ | hg
  · exact h a r conflict₁ hc₁ x n hr₁
  · exact .inr hg

theorem ConflictsFrom.mono {givenC' : UserId → ItemId → ItemId → Nat → Prop} (h : ConflictsFrom db db' givenC)
    (hg : ∀ a r x n, givenC a r x n → givenC' a r x n) : ConflictsFrom db db' givenC' :=
  fun a r conflict' hc x n hr => (h a r conflict' hc x n hr).imp_right (hg a r x n)

theorem ConflictsFrom.upsertConflict {conflict : SyncConflictEntity}
    (hg : ∀ x n, conflict.Remote r x n → givenC a r x n) : ConflictsFrom db (db.upsertConflict a r conflict) givenC := by
  intro a' r' conflict' hc x n hr
  rw [show (db.upsertConflict a r conflict).syncConflicts.get? (a', r') =
    if (a', r') = (a, r) then some conflict else db.syncConflicts.get? (a', r') from Table.get?_set ..] at hc
  split at hc
  · rename_i hk
    cases hk
    cases hc
    exact .inr (hg x n hr)
  · exact .inl ⟨conflict', hc, hr⟩

theorem ConflictsFrom.deleteConflict : ConflictsFrom db (db.deleteConflict a r) givenC := by
  intro a' r' conflict' hc x n hr
  rw [show (db.deleteConflict a r).syncConflicts.get? (a', r') =
    if (a', r') = (a, r) then none else db.syncConflicts.get? (a', r') from Table.get?_erase ..] at hc
  split at hc
  · cases hc
  · exact .inl ⟨conflict', hc, hr⟩

theorem ConflictsFrom.setConflictStatus {status : String} :
    ConflictsFrom db (db.setConflictStatus a r status) givenC := by
  intro a' r' conflict' hc x n hr
  unfold Database.setConflictStatus at hc
  dsimp only at hc
  rw [Table.get?_updateWhere] at hc
  obtain ⟨conflict, hold, rfl⟩ := Option.map_eq_some_iff.mp hc
  refine .inl ⟨conflict, hold, ?_⟩
  split at hr
  · exact hr
  · exact hr

theorem ConflictsFrom.clear : ConflictsFrom db (db.clear a) givenC := by
  intro a' r' conflict' hc x n hr
  unfold Database.clear at hc
  rw [Table.get?_deleteWhere, Option.filter_eq_some_iff] at hc
  exact .inl ⟨conflict', hc.1, hr⟩

theorem ConflictsFrom.foldl {α : Type} {f : Database → α → Database} :
    ∀ {l : List α} {db : Database}, (∀ x ∈ l, ∀ db, ConflictsFrom db (f db x) givenC) →
      ConflictsFrom db (l.foldl f db) givenC
  | [], _, _ => .refl
  | x :: _, db, hf => (hf x List.mem_cons_self db).trans
      (ConflictsFrom.foldl fun y hy => hf y (List.mem_cons_of_mem _ hy))

end

/-! ## What an operation brings -/

def Op.Acknowledges (a : UserId) (db : Database) : Op → ItemId → Nat → Prop
  | ackMutations acks _ _, r, n => ∃ m ∈ db.pendingMutations, m.accountId = a ∧ m.recordId = r ∧
      ∃ ack ∈ acks, ack.clientMutationId = m.clientMutationId ∧ ack.appliedItemRevision = n
  | _, _, _ => False

/-- The revisions that the caller gives to records of its own. -/
def Op.Writes : Op → ItemId → Nat → Prop
  | upsertLocalCiphertextAndEnqueue itemId _ itemRevision _ _ _, r, n => itemId = r ∧ itemRevision = n
  | resolveConflict _ (.createCopy (some replacement) _), r, n => replacement.id = r ∧ replacement.revision = n
  | importCryptoCoreBackup _, _, n => n = 0
  | _, _, _ => False

/-- The server's sides that the operation takes from an answer of the server. -/
def Op.Tells : Op → ItemId → ItemId → Nat → Prop
  | saveConflicts conflicts, r, x, n => ∃ c ∈ conflicts, c.recordId = r ∧ c.Remote r x n
  | applyPull items deletedItems _ _ _, r, x, n => r = x ∧
      ((∃ item ∈ items, item.id = x ∧ item.revision = n) ∨ ∃ d ∈ deletedItems, d.recordId = x ∧ d.itemRevision = n)
  | _, _, _, _ => False

def Op.Brings (a : UserId) (db : Database) (op : Op) (r : ItemId) (n : Nat) : Prop :=
  op.Acknowledges a db r n ∨ op.Writes r n ∨ (∃ r', op.Tells r' r n) ∨
    ∃ r' conflict, db.syncConflicts.get? (a, r') = some conflict ∧ conflict.Remote r' r n

section
variable {P : Platform} {readings : Readings} {db db' : Database} {a : UserId} {r : ItemId}
variable {given : UserId → ItemId → Nat → Prop}

theorem acknowledge_from {acks : List MutationAcknowledgement} {timestamp : String} {m : PendingMutationEntity}
    (h : acknowledge acks timestamp db m = .ok db') :
    RowsFrom db db' (fun a r n => a = m.accountId ∧ r = m.recordId ∧
      ∃ ack ∈ acks, ack.clientMutationId = m.clientMutationId ∧ ack.appliedItemRevision = n) ∧
    db'.syncConflicts = db.syncConflicts := by
  unfold acknowledge at h
  split at h
  · cases h
    exact ⟨.deleteRecord, rfl⟩
  · obtain ⟨revision, hrevision, h⟩ := except_bind_ok h
    obtain ⟨stored, -, h⟩ := except_bind_ok h
    cases h
    obtain ⟨ack, hfind, rfl⟩ := Option.map_eq_some_iff.mp (requireNotNull_ok hrevision)
    refine ⟨.upsertRecord ⟨rfl, rfl, ack, List.mem_of_find?_eq_some hfind, ?_, rfl⟩, rfl⟩
    simpa using List.find?_some hfind

theorem acknowledgeAll_from {acks : List MutationAcknowledgement} {timestamp : String} :
    ∀ {l : List PendingMutationEntity} {db db' : Database}, l.foldlM (acknowledge acks timestamp) db = .ok db' →
      RowsFrom db db' (fun a r n => ∃ m ∈ l, m.accountId = a ∧ m.recordId = r ∧
        ∃ ack ∈ acks, ack.clientMutationId = m.clientMutationId ∧ ack.appliedItemRevision = n) ∧
      db'.syncConflicts = db.syncConflicts
  | [], _, _, h => by
    cases h
    exact ⟨.refl, rfl⟩
  | m :: l, _, _, h => by
    rw [List.foldlM_cons] at h
    obtain ⟨db₁, h1, h⟩ := except_bind_ok h
    obtain ⟨hrows1, hc1⟩ := acknowledge_from h1
    obtain ⟨hrows, hc⟩ := acknowledgeAll_from h
    refine ⟨?_, hc.trans hc1⟩
    refine (hrows1.mono ?_).trans (hrows.mono ?_)
    · rintro _ _ n ⟨rfl, rfl, hack⟩
      exact ⟨m, List.mem_cons_self, rfl, rfl, hack⟩
    · rintro _ _ n ⟨m', hm', hack⟩
      exact ⟨m', List.mem_cons_of_mem _ hm', hack⟩

theorem ackMutations_from {acks : List MutationAcknowledgement} {serverRevision : Nat} {timestamp : String}
    (h : ackMutations P a acks serverRevision timestamp db = .ok db') :
    RowsFrom db db' (fun a' r n => a' = a ∧ (Op.ackMutations acks serverRevision timestamp).Acknowledges a db r n) ∧
      db'.syncConflicts = db.syncConflicts := by
  obtain ⟨_, -, h⟩ := except_bind_ok h
  obtain ⟨_, -, h⟩ := except_bind_ok h
  obtain ⟨_, -, h⟩ := except_bind_ok h
  obtain ⟨_, -, h⟩ := except_bind_ok h
  obtain ⟨_, -, h⟩ := except_bind_ok h
  dsimp only at h
  split at h
  · cases h
  obtain ⟨db₁, hfold, h⟩ := except_bind_ok h
  split at h
  · cases h
  cases h
  obtain ⟨hrows, hc⟩ := acknowledgeAll_from hfold
  refine ⟨(hrows.mono ?_).trans (.same rfl), hc⟩
  rintro _ _ n ⟨m, hm, rfl, rfl, hack⟩
  obtain ⟨hmem, hsel⟩ := List.mem_filter.mp hm
  have ha : m.accountId = a := of_decide_eq_true (Bool.and_eq_true_iff.mp hsel).1
  exact ⟨ha, m, hmem, ha, rfl, hack⟩

theorem savePullConflict_rows {remote : Option VaultItemCiphertext} {serverRevision : Nat} {itemRevision : Option Nat}
    {timestamp : String} :
    RowsFrom db (savePullConflict a r remote serverRevision itemRevision timestamp db) given :=
  RowsFrom.flags (p := fun k => k = (a, r)) rfl

theorem savePullConflict_conflicts {remote : Option VaultItemCiphertext} {serverRevision : Nat}
    {itemRevision : Option Nat} {timestamp : String} {givenC : UserId → ItemId → ItemId → Nat → Prop}
    (hg : ∀ x n, RemoteSide r remote itemRevision x n → givenC a r x n) :
    ConflictsFrom db (savePullConflict a r remote serverRevision itemRevision timestamp db) givenC := by
  have hsaved : ConflictsFrom db (db.upsertConflict a r ⟨.itemRevisionAdvanced,
      (db.getRecord a r).map (·.ciphertextEnvelope), remote, serverRevision, itemRevision, "UNRESOLVED", timestamp⟩) givenC :=
    .upsertConflict hg
  exact hsaved.trans (.same rfl)

variable {serverRevision cursor : Nat} {timestamp : String}

theorem pullItem_from {item : VaultItemCiphertext} :
    RowsFrom db (pullItem a serverRevision timestamp db (parseCiphertextRecord a item timestamp))
      (fun a' r n => a' = a ∧ item.id = r ∧ item.revision = n) ∧
    ConflictsFrom db (pullItem a serverRevision timestamp db (parseCiphertextRecord a item timestamp))
      (fun a' r x n => a' = a ∧ r = x ∧ item.id = x ∧ item.revision = n) := by
  unfold pullItem
  split
  · exact ⟨.upsertRecord ⟨rfl, rfl, rfl⟩, .same rfl⟩
  · refine ⟨savePullConflict_rows, savePullConflict_conflicts fun x n hr => ?_⟩
    rcases hr with ⟨_, he, hid, hrev⟩ | ⟨hnone, -, -⟩
    · cases he
      exact ⟨rfl, hid, hid, hrev⟩
    · cases hnone

theorem pullDelete_rows {deleted : RemoteDeletedItem} :
    RowsFrom db (pullDelete a serverRevision timestamp db deleted) given := by
  unfold pullDelete
  split
  · exact .deleteRecord
  · exact savePullConflict_rows

theorem pullDelete_conflicts {deleted : RemoteDeletedItem} :
    ConflictsFrom db (pullDelete a serverRevision timestamp db deleted)
      (fun a' r x n => a' = a ∧ r = x ∧ deleted.recordId = x ∧ deleted.itemRevision = n) := by
  unfold pullDelete
  split
  · exact .same rfl
  · refine savePullConflict_conflicts fun x n hr => ?_
    rcases hr with ⟨_, he, -, -⟩ | ⟨-, hid, hrev⟩
    · cases he
    · exact ⟨rfl, hid, hid, Option.some.inj hrev⟩

def pulledItems (a : UserId) (serverRevision : Nat) (timestamp : String) (items : List VaultItemCiphertext)
    (db : Database) : Database :=
  items.foldl (fun db item => pullItem a serverRevision timestamp db (parseCiphertextRecord a item timestamp)) db

def pulled (a : UserId) (serverRevision : Nat) (timestamp : String) (items : List VaultItemCiphertext)
    (deletedItems : List RemoteDeletedItem) (db : Database) : Database :=
  deletedItems.foldl (pullDelete a serverRevision timestamp) (pulledItems a serverRevision timestamp items db)

theorem applyPull_eq {items : List VaultItemCiphertext} {deletedItems : List RemoteDeletedItem}
    (h : applyPull P a items deletedItems serverRevision cursor timestamp db = .ok db') :
    (items.map (·.id) ++ deletedItems.map (·.recordId)).Nodup ∧
    db' = (pulled a serverRevision timestamp items deletedItems db).upsertCursor a
      ⟨serverRevision, some timestamp, some cursor⟩ := by
  obtain ⟨_, -, h⟩ := except_bind_ok h
  obtain ⟨_, -, h⟩ := except_bind_ok h
  obtain ⟨_, -, h⟩ := except_bind_ok h
  obtain ⟨_, -, h⟩ := except_bind_ok h
  obtain ⟨_, -, h⟩ := except_bind_ok h
  obtain ⟨_, -, h⟩ := except_bind_ok h
  obtain ⟨_, hnodup, h⟩ := except_bind_ok h
  dsimp only at h hnodup
  split at h
  · cases h
  cases h
  have hids := of_decide_eq_true (require_ok hnodup)
  rw [List.map_map] at hids
  refine ⟨hids, ?_⟩
  unfold pulled pulledItems
  rw [List.foldl_map]

theorem applyPull_from {items : List VaultItemCiphertext} {deletedItems : List RemoteDeletedItem}
    (h : applyPull P a items deletedItems serverRevision cursor timestamp db = .ok db') :
    RowsFrom db db' (fun a' r n => a' = a ∧ (Op.applyPull items deletedItems serverRevision cursor timestamp).Tells r r n) ∧
    ConflictsFrom db db' (fun a' r x n => a' = a ∧
      (Op.applyPull items deletedItems serverRevision cursor timestamp).Tells r x n) := by
  obtain ⟨-, rfl⟩ := applyPull_eq h
  constructor
  · have hitems : RowsFrom db (pulledItems a serverRevision timestamp items db) (fun a' r n => a' = a ∧
        (Op.applyPull items deletedItems serverRevision cursor timestamp).Tells r r n) := by
      refine RowsFrom.foldl fun item hitem db₁ => pullItem_from.1.mono ?_
      rintro _ r n ⟨rfl, hid, hrev⟩
      exact ⟨rfl, rfl, .inl ⟨item, hitem, hid, hrev⟩⟩
    have hdeleted : RowsFrom (pulledItems a serverRevision timestamp items db)
        (pulled a serverRevision timestamp items deletedItems db) (fun a' r n => a' = a ∧
        (Op.applyPull items deletedItems serverRevision cursor timestamp).Tells r r n) :=
      RowsFrom.foldl fun _ _ _ => pullDelete_rows
    exact (hitems.trans hdeleted).trans (.same rfl)
  · have hitems : ConflictsFrom db (pulledItems a serverRevision timestamp items db) (fun a' r x n => a' = a ∧
        (Op.applyPull items deletedItems serverRevision cursor timestamp).Tells r x n) := by
      refine ConflictsFrom.foldl fun item hitem db₁ => pullItem_from.2.mono ?_
      rintro _ r x n ⟨ha, hr, hid, hrev⟩
      exact ⟨ha, hr, .inl ⟨item, hitem, hid, hrev⟩⟩
    have hdeleted : ConflictsFrom (pulledItems a serverRevision timestamp items db)
        (pulled a serverRevision timestamp items deletedItems db) (fun a' r x n => a' = a ∧
        (Op.applyPull items deletedItems serverRevision cursor timestamp).Tells r x n) := by
      refine ConflictsFrom.foldl fun deleted hdeleted db₁ => pullDelete_conflicts.mono ?_
      rintro _ r x n ⟨ha, hr, hid, hrev⟩
      exact ⟨ha, hr, .inr ⟨deleted, hdeleted, hid, hrev⟩⟩
    exact (hitems.trans hdeleted).trans (.same rfl)

theorem saveConflicts_from {conflicts : List SyncConflict} (h : saveConflicts P a conflicts db = .ok db') :
    RowsFrom db db' given ∧
      ConflictsFrom db db' (fun a' r x n => a' = a ∧ (Op.saveConflicts conflicts).Tells r x n) := by
  obtain ⟨_, -, h⟩ := except_bind_ok h
  cases h
  constructor
  · have hloop : RowsFrom db (conflicts.foldl (fun db c => db.upsertConflict a c.recordId c.toSyncConflictEntity) db)
        given := .foldl fun _ _ _ => .same rfl
    exact hloop.trans (.flags (p := fun k => k.1 = a && (conflicts.map (·.recordId)).contains k.2) rfl)
  · have hloop : ConflictsFrom db (conflicts.foldl
        (fun db c => db.upsertConflict a c.recordId c.toSyncConflictEntity) db)
        (fun a' r x n => a' = a ∧ (Op.saveConflicts conflicts).Tells r x n) :=
      .foldl fun c hc _ => .upsertConflict fun x n hr => ⟨rfl, c, hc, rfl, hr⟩
    exact hloop.trans (.same rfl)

variable {conflict : SyncConflictEntity}

theorem applyRemoteConflict_from (h : applyRemoteConflict P a r conflict db = .ok db') :
    RowsFrom db db' (fun a' x n => a' = a ∧ conflict.Remote r x n) ∧ db'.syncConflicts = db.syncConflicts := by
  unfold applyRemoteConflict at h
  split at h
  · cases h
    exact ⟨.deleteRecord, rfl⟩
  · rename_i remote hr
    obtain ⟨record, hrecord, h⟩ := except_bind_ok h
    obtain ⟨_, -, hrecord⟩ := except_bind_ok hrecord
    cases hrecord
    cases h
    exact ⟨.upsertRecord ⟨rfl, .inl ⟨remote, hr, rfl, rfl⟩⟩, rfl⟩

theorem keepLocal_from {givenC : UserId → ItemId → ItemId → Nat → Prop}
    (h : keepLocal readings a r conflict db = .ok db') : RowsFrom db db' given ∧ ConflictsFrom db db' givenC := by
  obtain ⟨stored, -, h⟩ := except_bind_ok h
  cases h
  exact ⟨.flags (p := fun k => k = (a, r)) rfl, .deleteConflict⟩

theorem acceptRemote_from {givenC : UserId → ItemId → ItemId → Nat → Prop}
    (h : acceptRemote P a r conflict db = .ok db') :
    RowsFrom db db' (fun a' x n => a' = a ∧ conflict.Remote r x n) ∧ ConflictsFrom db db' givenC := by
  obtain ⟨db₁, hremote, h⟩ := except_bind_ok h
  cases h
  obtain ⟨hrows, hc⟩ := applyRemoteConflict_from hremote
  refine ⟨hrows.trans (.same rfl), ?_⟩
  have hsame : ConflictsFrom db (db₁.deleteForRecord a r) givenC := .same hc
  exact hsame.trans .deleteConflict

theorem createCopy_from {givenC : UserId → ItemId → ItemId → Nat → Prop} {replacement : Option VaultItemCiphertext}
    {clientMutationId : Option MutationId}
    (h : createCopy P readings a r replacement clientMutationId conflict db = .ok db') :
    RowsFrom db db' (fun a' x n => a' = a ∧
      ((Op.resolveConflict r (.createCopy replacement clientMutationId)).Writes x n ∨ conflict.Remote r x n)) ∧
    ConflictsFrom db db' givenC := by
  obtain ⟨item, hitem, h⟩ := except_bind_ok h
  obtain ⟨mutationId, -, h⟩ := except_bind_ok h
  obtain ⟨_, -, h⟩ := except_bind_ok h
  obtain ⟨_, -, h⟩ := except_bind_ok h
  obtain ⟨_, -, h⟩ := except_bind_ok h
  obtain ⟨db₁, hremote, h⟩ := except_bind_ok h
  cases h
  cases requireNotNull_ok hitem
  obtain ⟨hrows, hc⟩ := applyRemoteConflict_from hremote
  constructor
  · have hcopied : RowsFrom (db₁.deleteForRecord a r) ((db₁.deleteForRecord a r).upsertRecord
        (parseCiphertextRecord a item readings.now)) (fun a' x n => a' = a ∧
        ((Op.resolveConflict r (.createCopy (some item) clientMutationId)).Writes x n ∨ conflict.Remote r x n)) :=
      .upsertRecord ⟨rfl, .inl ⟨rfl, rfl⟩⟩
    have hdropped : RowsFrom db₁ (db₁.deleteForRecord a r) (fun a' x n => a' = a ∧
        ((Op.resolveConflict r (.createCopy (some item) clientMutationId)).Writes x n ∨ conflict.Remote r x n)) := .same rfl
    exact (((hrows.mono fun _ _ _ hg => ⟨hg.1, .inr hg.2⟩).trans hdropped).trans hcopied).trans (.same rfl)
  · have hsame : ConflictsFrom db ((db₁.deleteForRecord a r).upsertRecord
        (parseCiphertextRecord a item readings.now)) givenC := .same hc
    exact hsame.trans .deleteConflict

theorem importCryptoCoreBackup_from {items : List ImportedItem} {count : Nat}
    (h : importCryptoCoreBackup P readings a items db = .ok (db', count)) :
    RowsFrom db db' (fun a' _ n => a' = a ∧ n = 0) ∧ db'.syncConflicts = db.syncConflicts := by
  obtain ⟨_, -, h⟩ := except_bind_ok h
  obtain ⟨_, -, h⟩ := except_bind_ok h
  obtain ⟨_, -, h⟩ := except_bind_ok h
  obtain ⟨_, -, h⟩ := except_bind_ok h
  obtain ⟨_, -, h⟩ := except_bind_ok h
  obtain ⟨_, -, h⟩ := except_bind_ok h
  cases h
  constructor
  · refine .foldl fun record hrecord db => ?_
    obtain ⟨item, -, he⟩ := List.mem_map.mp (List.fst_mem_of_mem_zipIdx hrecord)
    have hstored : RowsFrom db (db.upsertRecord record.1) (fun a' _ n => a' = a ∧ n = 0) :=
      .upsertRecord ⟨he ▸ rfl, he ▸ rfl⟩
    exact hstored.trans (.same rfl)
  · exact foldl_frame (f := importRecord readings) (g := (·.syncConflicts)) (fun _ _ => rfl) _ db

theorem Op.run_from {op : Op} (h : op.run P readings a db = .ok db') :
    RowsFrom db db' (fun a' r n => a' = a ∧ op.Brings a db r n) ∧
      ConflictsFrom db db' (fun a' r x n => a' = a ∧ op.Tells r x n) := by
  -- a revision in a new row is one that the caller, the server or the old row gave
  cases op with
  | upsertLocalCiphertextAndEnqueue itemId envelope itemRevision lastSyncedAt base mutationId =>
    obtain ⟨_, -, h⟩ := except_bind_ok h
    obtain ⟨_, -, h⟩ := except_bind_ok h
    obtain ⟨_, -, h⟩ := except_bind_ok h
    cases h
    refine ⟨?_, .same rfl⟩
    have hstored : RowsFrom db (db.upsertRecord ⟨⟨envelope, itemRevision, lastSyncedAt, false, none, false⟩, a, itemId⟩)
        (fun a' r n => a' = a ∧ (Op.upsertLocalCiphertextAndEnqueue itemId envelope itemRevision lastSyncedAt base
          mutationId).Brings a db r n) :=
      .upsertRecord ⟨rfl, .inr (.inl ⟨rfl, rfl⟩)⟩
    exact hstored.trans (.same rfl)
  | deleteLocalAndEnqueue recordId base mutationId createdAt =>
    obtain ⟨_, -, h⟩ := except_bind_ok h
    obtain ⟨_, -, h⟩ := except_bind_ok h
    obtain ⟨_, -, h⟩ := except_bind_ok h
    obtain ⟨_, -, h⟩ := except_bind_ok h
    obtain ⟨_, -, h⟩ := except_bind_ok h
    dsimp only at h
    split at h
    · cases h
      exact ⟨RowsFrom.deleteRecord.trans (.same rfl), .same rfl⟩
    · obtain ⟨_, -, h⟩ := except_bind_ok h
      cases h
      exact ⟨RowsFrom.markDeleted.trans (.same rfl), .same syncConflicts_markDeleted⟩
  | ackMutations acks serverRevision timestamp =>
    obtain ⟨hrows, hc⟩ := ackMutations_from h
    exact ⟨hrows.mono fun _ _ _ hg => ⟨hg.1, .inl hg.2⟩, .same hc⟩
  | applyPull items deletedItems serverRevision cursor timestamp =>
    obtain ⟨hrows, hc⟩ := applyPull_from h
    exact ⟨hrows.mono fun _ r _ hg => ⟨hg.1, .inr (.inr (.inl ⟨r, hg.2⟩))⟩, hc⟩
  | saveConflicts conflicts => exact saveConflicts_from h
  | setConflictIds recordIds =>
    obtain ⟨_, -, h⟩ := except_bind_ok h
    obtain ⟨_, -, h⟩ := except_bind_ok h
    cases h
    refine ⟨?_, .same rfl⟩
    have hcleared : RowsFrom db (db.clearConflictFlags a) (fun a' r n => a' = a ∧ (Op.setConflictIds recordIds).Brings a db r n) :=
      .flags (p := fun k => k.1 = a) rfl
    exact hcleared.trans (.flags (p := fun k => k.1 = a && recordIds.contains k.2) rfl)
  | resolveConflict recordId resolution =>
    obtain ⟨_, -, h⟩ := except_bind_ok h
    obtain ⟨_, -, h⟩ := except_bind_ok h
    obtain ⟨conflict, hconflict, h⟩ := except_bind_ok h
    have hconflict := orThrow_ok hconflict
    cases resolution with
    | keepLocal => exact keepLocal_from h
    | acceptRemote =>
      obtain ⟨hrows, hc⟩ := acceptRemote_from h
      exact ⟨hrows.mono fun _ _ _ hg => ⟨hg.1, .inr (.inr (.inr ⟨recordId, conflict, hconflict, hg.2⟩))⟩, hc⟩
    | createCopy replacement mutationId =>
      obtain ⟨hrows, hc⟩ := createCopy_from h
      refine ⟨hrows.mono fun _ _ _ hg => ⟨hg.1, ?_⟩, hc⟩
      rcases hg.2 with hw | hr
      · exact .inr (.inl hw)
      · exact .inr (.inr (.inr ⟨recordId, conflict, hconflict, hr⟩))
    | skip =>
      cases h
      exact ⟨.same rfl, .setConflictStatus⟩
  | clearCiphertexts =>
    obtain ⟨_, -, h⟩ := except_bind_ok h
    cases h
    exact ⟨.clear, .clear⟩
  | importCryptoCoreBackup items =>
    have h : (Mobile.importCryptoCoreBackup P readings a items db).map (·.1) = .ok db' := h
    cases hi : Mobile.importCryptoCoreBackup P readings a items db with
    | error => rw [hi] at h; cases h
    | ok answer =>
      rw [hi] at h
      cases h
      obtain ⟨hrows, hc⟩ := importCryptoCoreBackup_from hi
      exact ⟨hrows.mono fun _ _ _ hg => ⟨hg.1, .inr (.inl hg.2)⟩, .same hc⟩

/-- A backup of `db₀`, restored. -/
theorem restoreEncryptedBackup_from {readings₀ : Readings} {db₀ : Database} {backup : Backup}
    {givenC : UserId → ItemId → ItemId → Nat → Prop} (hb : createEncryptedBackup P readings₀ a db₀ = .ok backup)
    (h : restoreEncryptedBackup P a backup db = .ok db') :
    RowsFrom db db' (fun a' r n => a' = a ∧ ∃ row, db₀.getRecord a r = some row ∧ row.itemRevision = n) ∧
      ConflictsFrom db db' givenC := by
  obtain ⟨-, rfl⟩ := createEncryptedBackup_eq hb
  obtain ⟨_, -, h⟩ := except_bind_ok h
  obtain ⟨_, -, h⟩ := except_bind_ok h
  obtain ⟨_, -, h⟩ := except_bind_ok h
  obtain ⟨_, -, h⟩ := except_bind_ok h
  obtain ⟨_, -, h⟩ := except_bind_ok h
  obtain ⟨_, -, h⟩ := except_bind_ok h
  obtain ⟨_, -, h⟩ := except_bind_ok h
  obtain ⟨_, -, h⟩ := except_bind_ok h
  obtain ⟨_, -, h⟩ := except_bind_ok h
  dsimp only at h
  rw [show ((db₀.listIncludingTombstones a).map fun r => (⟨r.1, r.2.ciphertextEnvelope, r.2.itemRevision,
      r.2.lastSyncedAt, r.2.isDeleted⟩ : BackupItem)).map (·.record a) = backupRecords a db₀ from List.map_map] at h
  have hrows : RowsFrom (db.clear a) ((backupRecords a db₀).foldl Database.upsertRecord (db.clear a))
      (fun a' r n => a' = a ∧ ∃ row, db₀.getRecord a r = some row ∧ row.itemRevision = n) :=
    .foldl fun record hrecord _ => by
      obtain ⟨r, row, hrow, rfl⟩ := mem_backupRecords.mp hrecord
      exact .upsertRecord ⟨rfl, row, hrow, rfl⟩
  have hconflicts : ((backupRecords a db₀).foldl Database.upsertRecord (db.clear a)).syncConflicts =
      (db.clear a).syncConflicts :=
    foldl_frame (f := Database.upsertRecord) (g := (·.syncConflicts)) (fun _ _ => rfl) _ _
  have hcleared : ConflictsFrom db (db.clear a) givenC := .clear
  generalize hstored : (backupRecords a db₀).foldl Database.upsertRecord (db.clear a) = stored at h hrows hconflicts
  have hqueued : ∀ pending : List PendingMutationEntity,
      (pending.foldl Database.upsertPending stored).ciphertexts = stored.ciphertexts ∧
      (pending.foldl Database.upsertPending stored).syncConflicts = stored.syncConflicts := fun pending =>
    ⟨foldl_frame (f := Database.upsertPending) (g := (·.ciphertexts)) (fun _ _ => rfl) pending stored,
      foldl_frame (f := Database.upsertPending) (g := (·.syncConflicts)) (fun _ _ => rfl) pending stored⟩
  split at h
  · obtain ⟨_, -, h⟩ := except_bind_ok h
    cases h
    exact ⟨(RowsFrom.clear.trans hrows).trans (.same (hqueued _).1),
      hcleared.trans (.same ((hqueued _).2.trans hconflicts))⟩
  · cases h
    exact ⟨(RowsFrom.clear.trans hrows).trans (.same (hqueued _).1),
      hcleared.trans (.same ((hqueued _).2.trans hconflicts))⟩

end

end ZeroVault.Mobile

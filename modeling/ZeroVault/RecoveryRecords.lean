import ZeroVault.RecoverySound

/-!
# Recovery records stay in agreement

A user's recovery packet is stored twice, beside the user and in a row of its
own with its signing key and generation. `recovery_records_agree`: the two copies
are equal in every reachable store, every row is that of one committed request,
and of the requests prepared from one generation at most one takes effect.
-/

namespace ZeroVault

open Lib

/-- The packet and signing key that a request asks the store to keep. -/
def AccountCall.newRecovery : AccountCall → Option (RecoveryPacketV2 × String)
  | mobileRegisterFinish _ _ request => some (request.encryptedRecoveryPacket, request.recoverySigningPublicKey)
  | recoveryFinish _ request _ => some (request.newEncryptedRecoveryPacket, request.newRecoverySigningPublicKey)
  | migrateRecovery _ _ packet key | rotateRecovery _ _ packet key => some (packet, key)
  | _ => none

def Db.recoveryRow (s : Db) (u : UserId) : Option RecoveryPacketRow := s.recoveryPackets.get? u

/-- `users.encrypted_recovery_packet`. -/
def Db.recoveryCopy (s : Db) (u : UserId) : Option StoredRecoveryPacket :=
  (s.users.get? u).map (·.encryptedRecoveryPacket)

/-- The generation a request is prepared from; a user without a row is at 0. -/
def Db.generation (s : Db) (u : UserId) : Nat := (s.recoveryGeneration u).getD 0

structure Agree (s : Db) : Prop where
  owner : ∀ u row, s.recoveryRow u = some row → s.recoveryCopy u ≠ none
  copy : ∀ u row, s.recoveryRow u = some row → row.protocolVersion = 2 →
    s.recoveryCopy u = some row.encryptedRecoveryPacket

def Unmigrated (s : Db) : Prop :=
  ∀ u row, s.recoveryRow u = some row → row.protocolVersion = 1 ∧ s.recoveryCopy u ≠ none

/-- The row of `u` is missing or of version 1. -/
def Legacy (u : UserId) (s : Db) : Prop := ∀ row, s.recoveryRow u = some row → row.protocolVersion ≠ 2

def PacketStmt.userId : PacketStmt → UserId
  | insert userId _ | migrate userId _ _ | rotate userId _ _ _ _ | finish userId _ _ _ => userId

/-! ## One statement -/

section
variable {u id : UserId} {b : Db} {t : Table UserId RecoveryPacketRow}

theorem generation_of {row : RecoveryPacketRow} (h : b.recoveryRow u = some row) : b.generation u = row.generation := by
  unfold Db.generation Db.recoveryGeneration
  rw [show b.recoveryPackets.get? u = some row from h]; rfl

theorem generation_none (h : b.recoveryRow u = none) : b.generation u = 0 := by
  unfold Db.generation Db.recoveryGeneration
  rw [show b.recoveryPackets.get? u = none from h]; rfl

theorem packets_other {q : PacketStmt} (h : q.exec b = some t) (hu : u ≠ q.userId) : t.get? u = b.recoveryRow u := by
  unfold Db.recoveryRow
  cases q with
  | insert id row =>
    have hid : u ≠ id := hu
    simp only [PacketStmt.exec] at h
    split at h
    · rw [Table.get?_insert h, if_neg hid]
    · cases h
  | migrate id packet key =>
    have hid : u ≠ id := hu
    simp only [PacketStmt.exec] at h
    split at h
    · split at h
      · rw [← Option.some.inj h, Table.get?_set, if_neg hid]
      · cases h
    · split at h
      · rw [← Option.some.inj h, Table.get?_set, if_neg hid]
      · rw [← Option.some.inj h]
  | rotate id generation epoch packet key =>
    have hid : u ≠ id := hu
    rw [← Option.some.inj h, Table.get?_updateWhere]
    simp [hid]
  | finish id generation packet key =>
    have hid : u ≠ id := hu
    rw [← Option.some.inj h, Table.get?_updateWhere]
    simp [hid]

/-- A migration leaves a version-2 row and moves any other to its key. -/
theorem migrate_row {packet : RecoveryPacketV2} {key : String}
    (h : PacketStmt.exec b (.migrate id packet key) = some t) : t.get? id = b.recoveryRow id ∨
      Legacy id b ∧ (b.recoveryRow id = none → b.users.contains id = true) ∧
        t.get? id = some ⟨.v2 packet, 2, some key, b.generation id + 1⟩ := by
  simp only [PacketStmt.exec] at h
  cases hold : b.recoveryPackets.get? id with
  | none =>
    simp only [hold] at h
    split at h
    · rename_i huser
      refine .inr ⟨fun row hrow => ?_, fun _ => huser, ?_⟩
      · cases hrow.symm.trans hold
      · rw [← Option.some.inj h, Table.get?_set, if_pos rfl, generation_none hold]
    · cases h
  | some row =>
    simp only [hold] at h
    split at h
    · rename_i hv
      refine .inr ⟨fun row' hrow' => ?_, fun hnone => ?_, ?_⟩
      · cases hrow'.symm.trans hold
        rw [hv]; decide
      · cases hnone.symm.trans hold
      · rw [← Option.some.inj h, Table.get?_set, if_pos rfl, generation_of hold]; rfl
    · exact .inl (by rw [← Option.some.inj h]; rfl)

theorem rotate_row {generation epoch : Nat} {packet : RecoveryPacketV2} {key : String}
    (h : PacketStmt.exec b (.rotate id generation epoch packet key) = some t) : t.get? id = b.recoveryRow id ∨
      b.generation id = generation ∧ epochHolds b id (some epoch) = true ∧
        t.get? id = some ⟨.v2 packet, 2, some key, generation + 1⟩ := by
  rw [← Option.some.inj h, Table.get?_updateWhere]
  unfold Db.recoveryRow
  cases hold : b.recoveryPackets.get? id with
  | none => exact .inl rfl
  | some row =>
    rw [Option.map_some]
    split
    · rename_i hcond
      simp only [decide_true, Bool.true_and, Bool.and_eq_true, decide_eq_true_eq] at hcond
      obtain ⟨⟨-, hgen⟩, hepoch⟩ := hcond
      exact .inr ⟨(generation_of hold).trans hgen, hepoch, by rw [← hgen]; rfl⟩
    · exact .inl rfl

end

/-! ## One transaction -/

/-- What a transaction does to the record of `u`: the row stays, with its copy
in step, or both are the request's. -/
inductive RecordStep (c : AccountCall) (u : UserId) (b a : Db) : Prop
  | same : a.recoveryRow u = b.recoveryRow u →
      (b.recoveryCopy u = none ∨ a.recoveryCopy u = b.recoveryCopy u ∨
        ∃ row, a.recoveryRow u = some row ∧ a.recoveryCopy u = some row.encryptedRecoveryPacket) →
      RecordStep c u b a
  | written (packet : RecoveryPacketV2) (key : String) (generation : Nat) :
      c.newRecovery = some (packet, key) →
      a.recoveryRow u = some ⟨.v2 packet, 2, some key, generation⟩ → a.recoveryCopy u = some (.v2 packet) →
      (generation = b.generation u + 1 ∨
        generation = 0 ∧ b.recoveryRow u = none ∧ b.recoveryCopy u = none) → RecordStep c u b a

section
variable {c : AccountCall} {u id : UserId} {b a : Db} {stmts : List AccountStmt}

theorem frame_same (hx : execAll AccountStmt.exec stmts b = some a)
    (hq : ∀ q ∈ stmts, q.table ≠ .users ∧ q.table ≠ .packets) : RecordStep c u b a := by
  have hrow := batch_frame Db.recoveryPackets (fun hf => hf.packets) hx fun q hm => (hq q hm).2
  have husers := batch_frame Db.users (fun hf => hf.users) hx fun q hm => (hq q hm).1
  refine .same ?_ (.inr (.inl ?_))
  · unfold Db.recoveryRow; rw [hrow]
  · unfold Db.recoveryCopy; rw [husers]

theorem createUser_records {row : UserRow}
    (hx : execAll AccountStmt.exec [.users (.insert id row)] b = some a) : RecordStep c u b a := by
  have hrow := batch_frame Db.recoveryPackets (fun hf => hf.packets) hx (by simp [AccountStmt.table])
  obtain ⟨_, hq, ⟨⟩⟩ := (execAll_cons _).mp hx
  refine .same (by unfold Db.recoveryRow; rw [hrow]) ?_
  have hins := exec_users hq
  have hnone := users_insert hins
  simp only [UsersStmt.exec] at hins
  split at hins
  · cases hins
  by_cases hu : u = id
  · subst hu
    exact .inl (by unfold Db.recoveryCopy; rw [hnone]; rfl)
  · refine .inr (.inl ?_)
    unfold Db.recoveryCopy
    rw [Table.get?_insert hins, if_neg hu]

theorem createAccount_row {A : Ambient} {request : MobileRegisterFinishRequest} {device : TrustedDevice}
    {hash tokenHash csrf : String} {expiresAt : Instant}
    (hx : execAll AccountStmt.exec (mobileAccountStmts A request device hash tokenHash csrf expiresAt) b = some a) :
    (a.recoveryRow u = b.recoveryRow u ∧ a.recoveryCopy u = b.recoveryCopy u) ∨
      (b.recoveryRow u = none ∧ b.recoveryCopy u = none) ∧
        a.recoveryRow u = some ⟨.v2 request.encryptedRecoveryPacket, 2, some request.recoverySigningPublicKey, 0⟩ ∧
        a.recoveryCopy u = some (.v2 request.encryptedRecoveryPacket) := by
  obtain ⟨m, hq, hpost⟩ := (execAll_cons _).mp hx
  have husers := batch_frame Db.users (fun hf => hf.users) hpost (by simp [AccountStmt.table])
  have hins := exec_users hq
  have hnone := users_insert hins
  simp only [UsersStmt.exec] at hins
  split at hins
  · cases hins
  obtain ⟨m', m'', hm, hp, hlast⟩ :=
    batch_split Db.recoveryPackets (fun hf => hf.packets) [_] hx (by simp [AccountStmt.table])
  have hrows := batch_frame Db.recoveryPackets (fun hf => hf.packets) hlast (by simp [AccountStmt.table])
  have hput := exec_packets hp
  simp only [PacketStmt.exec] at hput
  unfold Db.recoveryRow Db.recoveryCopy
  split at hput
  · rw [hrows, husers, Table.get?_insert hput, Table.get?_insert hins, ← hm]
    by_cases hu : u = A.random "userId"
    · subst hu
      rw [if_pos rfl, if_pos rfl, hnone, Table.get?_of_insert hput]
      exact .inr ⟨⟨rfl, rfl⟩, rfl, rfl⟩
    · rw [if_neg hu, if_neg hu]
      exact .inl ⟨rfl, rfl⟩
  · cases hput

theorem finish_records {A : Ambient} {user : StoredUser} {challengeId signature hash : String}
    {challenge : RecoveryChallengeRow} {request : RecoveryFinishUnsignedRequest}
    (hx : execAll AccountStmt.exec
      (finishRecoveryStmts A user challengeId challenge request.normalized hash) b = some a) :
    RecordStep (.recoveryFinish A request signature) u b a := by
  have hr := finish_recovered hx
  obtain ⟨c, ur, row, hc⟩ := finish_claimed hx
  by_cases hu : u = user.1
  · subst hu
    refine .written _ _ (row.generation + 1) rfl ?_ ?_ (.inl ?_)
    · unfold Db.recoveryRow
      rw [hr.packets, show b.recoveryPackets.get? user.1 = some row from hc.record, Option.map_some, if_pos rfl]; rfl
    · unfold Db.recoveryCopy
      rw [hr.users, show b.users.get? user.1 = some ur from hc.account, Option.map_some, if_pos rfl]; rfl
    · rw [generation_of (show b.recoveryRow user.1 = some row from hc.record)]
  · refine .same ?_ (.inr (.inl ?_))
    · unfold Db.recoveryRow; rw [hr.packets]; simp [hu]
    · unfold Db.recoveryCopy; rw [hr.users]; simp [hu]

theorem holds_packet {row : RecoveryPacketRow} {packet : RecoveryPacketV2} {key : String}
    (h : row.holds packet key = true) : row.encryptedRecoveryPacket = .v2 packet := by
  unfold RecoveryPacketRow.holds at h
  simp only [Bool.and_eq_true, decide_eq_true_eq] at h
  exact h.1.2

/-- A copy is only ever replaced by the packet that its row holds. -/
theorem update_copy {p : UserId → UserRow → Bool} {packet : RecoveryPacketV2}
    (ha : b.users.updateWhere p (fun r => { r with encryptedRecoveryPacket := .v2 packet }) = a.users)
    (hp : ∀ user, p u user = true → ∃ row, b.recoveryRow u = some row ∧ row.encryptedRecoveryPacket = .v2 packet) :
    b.recoveryCopy u = none ∨ a.recoveryCopy u = b.recoveryCopy u ∨
      ∃ row, b.recoveryRow u = some row ∧ a.recoveryCopy u = some row.encryptedRecoveryPacket := by
  unfold Db.recoveryCopy
  rw [← ha, Table.get?_updateWhere]
  cases hu : b.users.get? u with
  | none => exact .inl rfl
  | some user =>
    right
    simp only [Option.map_some]
    by_cases h : p u user = true
    · obtain ⟨row, hrow, he⟩ := hp user h
      exact .inr ⟨row, hrow, by rw [if_pos h, he]⟩
    · exact .inl (by rw [if_neg h])

theorem update_copied {p : UserId → UserRow → Bool} {packet : RecoveryPacketV2}
    (ha : b.users.updateWhere p (fun r => { r with encryptedRecoveryPacket := .v2 packet }) = a.users)
    {user : UserRow} (hu : b.users.get? u = some user) (hp : p u user = true) :
    a.recoveryCopy u = some (.v2 packet) := by
  unfold Db.recoveryCopy
  rw [← ha, Table.get?_updateWhere, hu, Option.map_some, Option.map_some, if_pos hp]

theorem copy_user (h : b.recoveryCopy u ≠ none) : ∃ user, b.users.get? u = some user := by
  unfold Db.recoveryCopy at h
  rw [ne_eq, Option.map_eq_none_iff] at h
  exact Option.ne_none_iff_exists'.mp h

/-- A batch that writes a row and then the copy of whoever's row holds the packet. -/
theorem rekey_records {q : PacketStmt} {r : UsersStmt} {p : Db → UserId → UserRow → Bool} {packet : RecoveryPacketV2}
    (hx : execAll AccountStmt.exec [.packets q, .users r] b = some a)
    (hr : ∀ m, r.exec m = some (m.users.updateWhere (p m) fun r => { r with encryptedRecoveryPacket := .v2 packet }))
    (hp : ∀ m user, p m u user = true →
      ∃ row, m.recoveryRow u = some row ∧ row.encryptedRecoveryPacket = .v2 packet)
    (hq : ∀ m, m.users = b.users → q.exec b = some m.recoveryPackets → m.recoveryRow u = b.recoveryRow u ∨
      ∃ key user, c.newRecovery = some (packet, key) ∧ b.users.get? u = some user ∧ p m u user = true ∧
        m.recoveryRow u = some ⟨.v2 packet, 2, some key, b.generation u + 1⟩) : RecordStep c u b a := by
  obtain ⟨m, hpacket, hrest⟩ := (execAll_cons _).mp hx
  obtain ⟨_, huser, ⟨⟩⟩ := (execAll_cons _).mp hrest
  have hmu : m.users = b.users := (exec_frame hpacket).users (by simp [AccountStmt.table])
  have hrows : a.recoveryPackets = m.recoveryPackets := (exec_frame huser).packets (by simp [AccountStmt.table])
  have har : a.recoveryRow u = m.recoveryRow u := by unfold Db.recoveryRow; rw [hrows]
  have husers := Option.some.inj ((hr m).symm.trans (exec_users huser))
  rcases hq m hmu (exec_packets hpacket) with hrow | ⟨key, user, hc, hu, hpu, hrow⟩
  · have hmc : m.recoveryCopy u = b.recoveryCopy u := by unfold Db.recoveryCopy; rw [hmu]
    have hcopy := update_copy husers (hp m)
    rw [hmc, ← har] at hcopy
    exact .same (har.trans hrow) hcopy
  · exact .written packet key _ hc (har.trans hrow) (update_copied husers (by rw [hmu]; exact hu) hpu) (.inl rfl)

theorem migrate_records {A : Ambient} {cred : Credentials} {packet : RecoveryPacketV2} {key : String} (hs : Agree b)
    (hx : execAll AccountStmt.exec (migrateStmts id packet key) b = some a) :
    RecordStep (.migrateRecovery A cred packet key) u b a := by
  refine rekey_records (p := fun m k _ => k = id && (m.recoveryPackets.get? k).any (·.holds packet key)) hx
    (fun m => rfl) (fun m user hup => ?_) fun m hmu hput => ?_
  · simp only [Bool.and_eq_true, Option.any_eq_true] at hup
    obtain ⟨-, row, hrow, hholds⟩ := hup
    exact ⟨row, hrow, holds_packet hholds⟩
  by_cases hu : u = id
  · subst hu
    rcases migrate_row hput with hsame | ⟨-, hcontains, hrow⟩
    · exact .inl hsame
    have huser : ∃ user, b.users.get? u = some user := by
      cases hold : b.recoveryRow u with
      | none => exact Table.contains_eq_true.mp (hcontains hold)
      | some row => exact copy_user (hs.owner u row hold)
    obtain ⟨user, huser⟩ := huser
    refine .inr ⟨key, user, rfl, huser, ?_, hrow⟩
    rw [hrow]
    simp [RecoveryPacketRow.holds]
  · exact .inl (packets_other hput hu)

theorem rotate_records {A : Ambient} {cred : Credentials} {user : StoredUser} {generation : Nat}
    {packet : RecoveryPacketV2} {key : String}
    (hx : execAll AccountStmt.exec (rotateRecoveryStmts user generation packet key) b = some a) :
    RecordStep (.rotateRecovery A cred packet key) u b a := by
  refine rekey_records (p := fun m k r => k = user.1 && r.authEpoch = user.2.authEpoch &&
    (m.recoveryPackets.get? k).any fun p => p.generation = generation + 1 && p.holds packet key) hx
    (fun m => rfl) (fun m row hup => ?_) fun m hmu hput => ?_
  · simp only [Bool.and_eq_true, Option.any_eq_true] at hup
    obtain ⟨-, row, hrow, -, hholds⟩ := hup
    exact ⟨row, hrow, holds_packet hholds⟩
  by_cases hu : u = user.1
  · subst hu
    rcases rotate_row hput with hsame | ⟨hgen, hepoch, hrow⟩
    · exact .inl hsame
    obtain ⟨ur, hur, hep⟩ := (Option.any_eq_true ..).mp hepoch
    simp only [Option.all_some, decide_eq_true_eq] at hep
    refine .inr ⟨key, ur, rfl, hur, ?_, by rw [hgen]; exact hrow⟩
    rw [hrow]
    simp [RecoveryPacketRow.holds, hep]
  · exact .inl (packets_other hput hu)

variable {K : Crypto} {tr : AccountTrace}

theorem transacts_records (ht : Transacts K c tr stmts) (hs : Agree b)
    (hx : execAll AccountStmt.exec stmts b = some a) : RecordStep c u b a := by
  cases ht with
  | createUser => exact createUser_records hx
  | createAccount =>
    rcases createAccount_row (u := u) hx with ⟨hrow, hcopy⟩ | ⟨⟨hrow, hcopy⟩, hrow', hcopy'⟩
    · exact .same hrow (.inr (.inl hcopy))
    · exact .written _ _ 0 rfl hrow' hcopy' (.inr ⟨rfl, hrow, hcopy⟩)
  | finishRecovery => exact finish_records hx
  | migrateRecovery => exact migrate_records hs hx
  | rotateRecovery => exact rotate_records hx
  | registerLogin _ _ _ _ _ _ _ hreg | registerPost _ _ _ _ hreg =>
    cases hreg with
    | insert => exact frame_same hx (by simp [insertDeviceStmt, AccountStmt.table])
    | replace => exact frame_same hx (by simp [replaceDeviceStmts, AccountStmt.table])
    | update _ _ reset => cases reset <;> exact frame_same hx (by simp [updateDeviceStmts, AccountStmt.table])
  | rotateSession => exact frame_same hx (by simp [rotateStmts, AccountStmt.table])
  | withdraw => exact frame_same hx (by simp [withdrawStmts, AccountStmt.table])
  | approve => exact frame_same hx (by simp [approveStmts, AccountStmt.table])
  | _ => exact frame_same hx (by simp [AccountStmt.table])

theorem guar_records {e : Step Db (Access AccountStmt)} (hg : c.guar K tr e) (hs : Agree e.before) :
    RecordStep c u e.before e.after := by
  rcases hg.cases with ⟨stmts, -, hx, ht⟩ | ⟨-, he⟩
  · exact transacts_records ht hs hx
  · rw [he]; exact .same rfl (.inr (.inl rfl))

theorem RecordStep.agree (h : ∀ u, RecordStep c u b a) (hs : Agree b) : Agree a := by
  constructor
  · intro u row hrow
    cases h u with
    | same he hcopy =>
      rw [he] at hrow
      rcases hcopy with hn | hc | ⟨row', hrow', hc⟩
      · exact absurd hn (hs.owner u row hrow)
      · rw [hc]; exact hs.owner u row hrow
      · rw [hc]; exact nofun
    | written _ _ _ _ _ hc _ => rw [hc]; exact nofun
  · intro u row hrow hv
    cases h u with
    | same he hcopy =>
      rcases hcopy with hn | hc | ⟨row', hrow', hc⟩
      · rw [he] at hrow
        exact absurd hn (hs.owner u row hrow)
      · rw [he] at hrow
        rw [hc]
        exact hs.copy u row hrow hv
      · cases hrow.symm.trans hrow'
        exact hc
    | written _ _ _ _ hr hc _ =>
      cases hrow.symm.trans hr
      exact hc

/-- A row that is still legacy has not been touched. -/
def LegacyKept (s s' : Db) : Prop := ∀ u, Legacy u s' → s.recoveryRow u = s'.recoveryRow u

theorem RecordStep.legacy (h : ∀ u, RecordStep c u b a) : LegacyKept b a := by
  intro u hl
  cases h u with
  | same he _ => exact he.symm
  | written _ _ _ _ hr _ _ => exact absurd rfl (hl _ hr)

end

/-! ## Prepared requests -/

/-- The transaction was prepared from generation `g` of `u`: its call read the
record at `g`, of version 1 for a migration, and a rotation or a recovery names
`g` in its conditions. -/
inductive PreparedFrom (u : UserId) (g : Nat) (tr : AccountTrace) : List AccountStmt → Prop
  | migrate (packet : RecoveryPacketV2) (key : String) : Saw (fun s => Legacy u s ∧ s.generation u = g) tr →
      PreparedFrom u g tr (migrateStmts u packet key)
  | rotate (user : StoredUser) (packet : RecoveryPacketV2) (key : String) : user.1 = u →
      Saw (fun s => s.generation u = g) tr → PreparedFrom u g tr (rotateRecoveryStmts user g packet key)
  | finish (A : Ambient) (user : StoredUser) (challengeId : String) (challenge : RecoveryChallengeRow)
      (request : RecoveryFinishUnsignedRequest) (hash : String) : user.1 = u → challenge.recoveryGeneration = some g →
      Saw (fun s => s.generation u = g) tr →
      PreparedFrom u g tr (finishRecoveryStmts A user challengeId challenge request hash)

def AccountCall.Prepares (c : AccountCall) (tr : AccountTrace) (stmts : List AccountStmt) : Prop :=
  match c with
  | migrateRecovery .. => ∀ u packet key, stmts = migrateStmts u packet key → ∃ g, PreparedFrom u g tr stmts
  | rotateRecovery .. =>
    ∀ user g packet key, stmts = rotateRecoveryStmts user g packet key → PreparedFrom user.1 g tr stmts
  | _ => True

section
variable {F : Formats} {K : Crypto} {P : AccountTrace → List AccountStmt → Prop} {tr : AccountTrace} {u : UserId}

theorem record_generation {row : RecoveryPacketRow} {record : RecoveryRecord} (h : row.record = some record) :
    record.generation = row.generation ∧ (record.protocolVersion ≠ 2 → row.protocolVersion ≠ 2) := by
  unfold RecoveryPacketRow.record at h
  split at h
  · split at h
    · split at h
      · cases h
        exact ⟨rfl, fun hv => absurd rfl hv⟩
      · cases h
    · cases h
  · rename_i hv
    cases h
    exact ⟨rfl, fun _ => hv⟩

theorem getRecoveryRecord_reads : AccountSat P (fun tr' r => ∀ record, r = some record →
    Saw (fun s => s.generation u = record.generation ∧ (record.protocolVersion ≠ 2 → Legacy u s)) tr')
    (getRecoveryRecord u) tr := by
  refine read_sat.bind fun tr1 row _ hrow => ?_
  obtain ⟨s, hs, hrow⟩ := hrow
  split
  · rename_i row
    refine TrySat.pure fun record hr => ?_
    obtain ⟨hgen, hv⟩ := record_generation hr
    refine ⟨s, hs, (generation_of hrow).trans hgen.symm, fun hne row' hrow' => ?_⟩
    cases hrow.symm.trans hrow'
    exact hv hne
  · refine read_sat.bind fun tr2 user h2 _ => TrySat.pure fun record hr => ?_
    obtain ⟨ur, -, rfl⟩ := Option.map_eq_some_iff.mp hr
    refine ⟨s, h2.subset hs, generation_none hrow, fun _ row' hrow' => ?_⟩
    cases hrow.symm.trans hrow'

theorem migrateRecovery_prepares {A : Ambient} {cred : Credentials} {packet : RecoveryPacketV2} {key : String} :
    AccountSat (AccountCall.Prepares (.migrateRecovery A cred packet key)) (fun _ _ => True)
      (migrateRecoveryRoute K A cred packet key) tr := by
  refine (authenticated_sat fun _ t u packet key he => by simp [migrateStmts] at he).bind fun tr1 session _ _ => ?_
  split
  · exact TrySat.throw
  refine getRecoveryRecord_sat.bind fun tr2 _ _ _ => ?_
  split
  · exact TrySat.throw
  refine TrySat.bind (R := fun _ _ => True) ?_ fun _ _ _ _ => TrySat.pure trivial
  refine getRecoveryRecord_reads.bind fun tr3 current _ hread => ?_
  split
  · exact TrySat.throw
  rename_i current
  split
  · exact TrySat.throw
  rename_i hv
  refine (accountBatch_sat ?_).bind fun _ _ _ _ => getRecoveryRecord_sat.bind fun _ _ _ _ => ?_
  · intro u' packet' key' he
    simp only [migrateStmts, List.cons.injEq, AccountStmt.packets.injEq, PacketStmt.migrate.injEq, and_true] at he
    obtain ⟨⟨rfl, -⟩, -⟩ := he
    obtain ⟨s, hs, hgen, hl⟩ := hread current rfl
    exact ⟨_, .migrate _ _ ⟨s, hs, hl hv, hgen⟩⟩
  · split
    · exact TrySat.pure trivial
    · exact TrySat.throw

theorem rotateRecovery_prepares {A : Ambient} {cred : Credentials} {packet : RecoveryPacketV2} {key : String} :
    AccountSat (AccountCall.Prepares (.rotateRecovery A cred packet key)) (fun _ _ => True)
      (rotateRecoveryRoute K A cred packet key) tr := by
  refine (authenticated_sat fun _ t user g packet key he => by simp [rotateRecoveryStmts] at he).bind
    fun tr1 session _ _ => ?_
  split
  · exact TrySat.throw
  refine read_sat.bind fun tr2 user _ _ => getRecoveryRecord_reads.bind fun tr3 record _ hread => ?_
  cases user with
  | none => exact TrySat.throw
  | some user =>
  cases record with
  | none => exact TrySat.throw
  | some record =>
    dsimp only
    split
    · exact TrySat.throw
    refine TrySat.bind (R := fun _ _ => True) (rotateRecoveryV2_sat ?_) fun _ _ _ _ => TrySat.pure trivial
    intro user' g' packet' key' he
    simp only [rotateRecoveryStmts, List.cons.injEq, AccountStmt.packets.injEq, PacketStmt.rotate.injEq,
      and_true] at he
    obtain ⟨⟨hid, hgen, -⟩, -⟩ := he
    obtain ⟨s, hs, hg, -⟩ := hread record rfl
    rw [← hid, ← hgen]
    exact .rotate _ _ _ rfl ⟨s, hs, hg⟩

theorem AccountCall.sat_prepared (c : AccountCall) :
    Sat (Guar AccountStmt.exec fun tr stmts => Transacts K c tr stmts ∧ c.Prepares tr stmts)
      (Returns fun _ _ => True) (c.code F K) [] := by
  have hsat : AccountSat (Transacts K c) (fun _ _ => True) (c.code F K) [] := c.sat F K
  have hprepares : AccountSat c.Prepares (fun _ _ => True) (c.code F K) [] := by
    cases c with
    | migrateRecovery A cred packet key => exact migrateRecovery_prepares
    | rotateRecovery A cred packet key => exact rotateRecovery_prepares
    | _ => exact hsat.weaken fun _ _ _ => trivial
  exact TrySat.both hsat hprepares

end

/-! ## Changes of a record -/

/-- The access commits `stmts` and changes the row of `u`. -/
def Renews (e : Step Db (Access AccountStmt)) (u : UserId) (stmts : List AccountStmt) : Prop :=
  e.label = .commit stmts ∧ e.after.recoveryRow u ≠ e.before.recoveryRow u

/-- The access of the call put the whole row there. -/
structure WrittenBy (c : AccountCall) (e : Step Db (Access AccountStmt)) (u : UserId) (row : RecoveryPacketRow) : Prop
    where
  committed : ∃ stmts, Renews e u stmts
  after : e.after.recoveryRow u = some row
  request : ∃ packet key, c.newRecovery = some (packet, key) ∧ row.encryptedRecoveryPacket = .v2 packet ∧
    row.signingPublicKey = some key

section
variable {K : Crypto} {c : AccountCall} {tr : AccountTrace} {stmts : List AccountStmt} {b a : Db} {u : UserId} {g : Nat}

theorem batch_userId (hx : execAll AccountStmt.exec stmts b = some a) (hne : a.recoveryRow u ≠ b.recoveryRow u) :
    ∃ q, .packets q ∈ stmts ∧ q.userId = u := by
  obtain ⟨pre, q, post, m, m', rfl, -, hq, hm, hm'⟩ :=
    execAll_appears AccountStmt.exec (P := fun s => s.recoveryRow u ≠ b.recoveryRow u) hx (fun h => h rfl) hne
  have hmb : m.recoveryRow u = b.recoveryRow u := Decidable.of_not_not hm
  by_cases ht : q.table = .packets
  · cases q with
    | packets r =>
      refine ⟨r, List.mem_append_right _ List.mem_cons_self, ?_⟩
      by_contra hu
      have hsame : m'.recoveryRow u = m.recoveryRow u := packets_other (exec_packets hq) fun he => hu he.symm
      exact hm' (hsame.trans hmb)
    | _ => cases ht
  · have hsame : m'.recoveryRow u = m.recoveryRow u := by unfold Db.recoveryRow; rw [(exec_frame hq).packets ht]
    exact absurd (hsame.trans hmb) hm'

/-- A row is written by the registration of its account or by a request that was
prepared from some generation of it. -/
theorem transacts_prepared (ht : Transacts K c tr stmts) (hp : c.Prepares tr stmts)
    (hx : execAll AccountStmt.exec stmts b = some a) (hne : a.recoveryRow u ≠ b.recoveryRow u) :
    (b.recoveryRow u = none ∧ a.generation u = 0 ∧ ∃ A client request, c = .mobileRegisterFinish A client request) ∨
      ∃ g, PreparedFrom u g tr stmts := by
  obtain ⟨q, hq, hu⟩ := batch_userId hx hne
  cases ht with
  | createAccount =>
    rcases createAccount_row (u := u) hx with ⟨hrow, -⟩ | ⟨⟨hnone, -⟩, hrow, -⟩
    · exact absurd hrow hne
    · exact .inl ⟨hnone, generation_of hrow, _, _, _, rfl⟩
  | finishRecovery user challenge _ _ hauth =>
    simp only [finishRecoveryStmts, List.mem_cons, AccountStmt.packets.injEq, reduceCtorEq, List.not_mem_nil, or_false,
      false_or] at hq
    subst hq
    obtain ⟨key, record, transcript, -, hof, hgen, -, -⟩ := hauth.signed
    obtain ⟨s, hs, row, hrow, -, hg⟩ := hof
    refine .inr ⟨_, .finish _ _ _ _ _ _ hu hgen ⟨s, hs, ?_⟩⟩
    subst hu
    exact (generation_of hrow).trans hg
  | migrateRecovery id packet key =>
    simp only [migrateStmts, List.mem_cons, AccountStmt.packets.injEq, reduceCtorEq, List.not_mem_nil, or_false] at hq
    subst hq
    subst hu
    exact .inr (hp _ _ _ rfl)
  | rotateRecovery user generation packet key =>
    simp only [rotateRecoveryStmts, List.mem_cons, AccountStmt.packets.injEq, reduceCtorEq, List.not_mem_nil,
      or_false] at hq
    subst hq
    subst hu
    exact .inr ⟨_, hp _ _ _ _ rfl⟩
  | registerLogin _ _ _ _ _ _ _ hreg | registerPost _ _ _ _ hreg =>
    cases hreg <;> simp [insertDeviceStmt, replaceDeviceStmts, updateDeviceStmts] at hq
  | rotateSession => simp [rotateStmts] at hq
  | withdraw => simp [withdrawStmts] at hq
  | approve => simp [approveStmts] at hq
  | _ => simp at hq

/-- A request that takes effect finds the generation it was prepared from, and
leaves the next one. -/
theorem prepared_generation (hp : PreparedFrom u g tr stmts) (hb : Before LegacyKept tr b)
    (hx : execAll AccountStmt.exec stmts b = some a) (hne : a.recoveryRow u ≠ b.recoveryRow u) :
    b.generation u = g ∧ a.generation u = g + 1 := by
  cases hp with
  | migrate packet key hsaw =>
    obtain ⟨s, hs, hl, hg⟩ := hsaw
    obtain ⟨m, hpacket, hrest⟩ := (execAll_cons _).mp hx
    have hrows := batch_frame Db.recoveryPackets (fun hf => hf.packets) hrest (by simp [AccountStmt.table])
    have har : a.recoveryRow u = m.recoveryRow u := by unfold Db.recoveryRow; rw [hrows]
    rcases migrate_row (exec_packets hpacket) with hsame | ⟨hlb, -, hrow⟩
    · exact absurd (har.trans hsame) hne
    have hkept : s.recoveryRow u = b.recoveryRow u := hb.now _ hs u hlb
    have hgen : b.generation u = g := by
      rw [← hg]
      unfold Db.generation Db.recoveryGeneration
      rw [show s.recoveryPackets.get? u = b.recoveryPackets.get? u from hkept]
    exact ⟨hgen, by rw [generation_of (har.trans hrow), hgen]⟩
  | rotate user packet key hu hsaw =>
    subst hu
    obtain ⟨m, hpacket, hrest⟩ := (execAll_cons _).mp hx
    have hrows := batch_frame Db.recoveryPackets (fun hf => hf.packets) hrest (by simp [AccountStmt.table])
    have har : a.recoveryRow user.1 = m.recoveryRow user.1 := by unfold Db.recoveryRow; rw [hrows]
    rcases rotate_row (exec_packets hpacket) with hsame | ⟨hgen, -, hrow⟩
    · exact absurd (har.trans hsame) hne
    · exact ⟨hgen, generation_of (har.trans hrow)⟩
  | finish A user challengeId challenge request hash hu hgen hsaw =>
    subst hu
    obtain ⟨c, ur, row, hc⟩ := finish_claimed hx
    have hrow : b.recoveryRow user.1 = some row := hc.record
    have hsame : challenge.recoveryGeneration = some row.generation := hc.expectedGeneration
    have hg : row.generation = g := Option.some.inj (hsame.symm.trans hgen)
    have hafter : a.recoveryRow user.1 = some (row.renew request.newEncryptedRecoveryPacket
        request.newRecoverySigningPublicKey) := by
      unfold Db.recoveryRow at hrow ⊢
      rw [(finish_recovered hx).packets, hrow, Option.map_some, if_pos rfl]
    exact ⟨(generation_of hrow).trans hg, by rw [generation_of hafter, ← hg]; rfl⟩

end

/-! ## Whole runs -/

section
variable {F : Formats} {K : Crypto} {s₀ s : Db} {h h₁ h₂ h₃ : History AccountCall Db (Access AccountStmt)}
variable {ps : List (Proc AccountCall Db (Access AccountStmt) (Except AccountError AccountResult))}
variable {i j : Nat} {c c' : AccountCall} {e e' : Step Db (Access AccountStmt)} {u : UserId} {g : Nat}
variable {stmts stmts' : List AccountStmt}

theorem unmigrated_agree (hs : Unmigrated s₀) : Agree s₀ := by
  refine ⟨fun u row hrow => (hs u row hrow).2, fun u row hrow hv => ?_⟩
  rw [(hs u row hrow).1] at hv
  cases hv

theorem along_agree (hr : Reach (AccountCall.code F K) (fun _ => True) s₀ h s ps) :
    Along (fun s s' => Agree s → Agree s' ∧ LegacyKept s s') s₀ h := by
  refine reach_rel (fun c _ => AccountCall.sat F K c) (fun s hs => ⟨hs, fun _ _ => rfl⟩)
    (fun s₁ s₂ s₃ h₁₂ h₂₃ hs => ?_) (fun c tr e _ _ _ hg hs => ?_) hr
  · obtain ⟨hs₂, hk⟩ := h₁₂ hs
    obtain ⟨hs₃, hk'⟩ := h₂₃ hs₂
    refine ⟨hs₃, fun u hl => ?_⟩
    have hlast := hk' u hl
    refine (hk u fun row hrow => ?_).trans hlast
    exact hl row (by rw [← hlast]; exact hrow)
  · have hstep := fun u => guar_records (u := u) hg hs
    exact ⟨RecordStep.agree hstep hs, RecordStep.legacy hstep⟩

theorem reach_agree (hs : Agree s₀) (hr : Reach (AccountCall.code F K) (fun _ => True) s₀ h s ps) : Agree s := by
  have hlast := (show Along _ s₀ ([] ++ h) from along_agree hr).last
  rw [List.nil_append, reach_store hr] at hlast
  exact (hlast hs).1

theorem along_legacy (hs : Agree s₀) (hr : Reach (AccountCall.code F K) (fun _ => True) s₀ h s ps) :
    Along LegacyKept s₀ h := by
  intro h₁ h₂ h₃ hh
  have ha := along_agree hr
  have hfirst := ha [] h₁ (h₂ ++ h₃) (by rw [hh]; simp)
  exact (ha h₁ h₂ h₃ hh (hfirst hs).1).2

/-- Every change of a record but its creation is that of a request prepared from
the generation it finds. -/
theorem renews_prepared
    (hr : Reach (AccountCall.code F K) (fun _ => True) s₀ (h₁ ++ .step i c e :: h₂) s ps) (hn : Renews e u stmts) :
    (e.before.recoveryRow u = none ∧ e.after.generation u = 0 ∧
      ∃ A client request, c = .mobileRegisterFinish A client request) ∨ ∃ g, PreparedFrom u g (own i h₁) stmts := by
  obtain ⟨-, -, hg⟩ := reach_step (fun c _ => AccountCall.sat_prepared (F := F) (K := K) c) hr
  obtain ⟨hl, hne⟩ := hn
  rcases hg.cases with ⟨stmts', hl', hx, ht, hp⟩ | ⟨hno, -⟩
  · cases hl.symm.trans hl'
    exact transacts_prepared ht hp hx hne
  · exact absurd hl (hno stmts)

theorem renews_generation (hs : Agree s₀)
    (hr : Reach (AccountCall.code F K) (fun _ => True) s₀ (h₁ ++ .step i c e :: h₂) s ps) (hn : Renews e u stmts)
    (hp : PreparedFrom u g (own i h₁) stmts) : e.before.generation u = g ∧ e.after.generation u = g + 1 := by
  obtain ⟨-, hb, hg⟩ := reach_step (fun c _ => AccountCall.sat F K c) hr
  obtain ⟨ps₁, hr₁⟩ := reach_prefix hr
  obtain ⟨hl, hne⟩ := hn
  rcases hg.cases with ⟨stmts', hl', hx, -⟩ | ⟨hno, -⟩
  · cases hl.symm.trans hl'
    exact prepared_generation hp (hb ▸ (along_legacy hs hr₁).before hr₁ i) hx hne
  · exact absurd hl (hno stmts)

theorem generation_mono {b a : Db} (h : Advances b a) : b.generation u ≤ a.generation u := by
  unfold Db.generation
  cases hg : b.recoveryGeneration u with
  | none => exact Nat.zero_le _
  | some n =>
    obtain ⟨m, hm, hle⟩ := h.recoveryGeneration hg
    rw [hm]; exact hle

/-- Of the requests prepared from one generation only one takes effect. -/
theorem renews_once (hs : Agree s₀)
    (hr : Reach (AccountCall.code F K) (fun _ => True) s₀ (h₁ ++ .step i c e :: h₂ ++ .step j c' e' :: h₃) s ps)
    (hn : Renews e u stmts) (hn' : Renews e' u stmts') (hp : PreparedFrom u g (own i h₁) stmts)
    (hp' : PreparedFrom u g (own j (h₁ ++ .step i c e :: h₂)) stmts') : False := by
  obtain ⟨-, hb, -⟩ := reach_step (fun c _ => AccountCall.sat F K c) hr
  have hsince : Advances e.after e'.before := hb ▸ (along_advances hr).since
  have hlater := (renews_generation hs hr hn' hp').1
  rw [List.append_assoc] at hr
  have hfirst := (renews_generation hs hr hn hp).2
  have := generation_mono (u := u) hsince
  omega

theorem renews_records (hs : Agree s₀)
    (hr : Reach (AccountCall.code F K) (fun _ => True) s₀ (h₁ ++ .step i c e :: h₂) s ps) :
    RecordStep c u e.before e.after := by
  obtain ⟨-, hb, hg⟩ := reach_step (fun c _ => AccountCall.sat F K c) hr
  obtain ⟨ps₁, hr₁⟩ := reach_prefix hr
  exact guar_records hg (hb ▸ reach_agree hs hr₁)

theorem row_written (hlegacy : Unmigrated s₀) (hr : Reach (AccountCall.code F K) (fun _ => True) s₀ h s ps)
    {row : RecoveryPacketRow} (hrow : s.recoveryRow u = some row) (hv : row.protocolVersion = 2) :
    ∃ i c e, .step i c e ∈ h ∧ WrittenBy c e u row := by
  have h0 : ¬ s₀.recoveryRow u = some row := fun h0 => by rw [(hlegacy u row h0).1] at hv; cases hv
  obtain ⟨h₁, i, c, e, h₂, rfl, hbefore, hafter⟩ :=
    reach_appears (p := fun s => s.recoveryRow u = some row) hr h0 hrow
  refine ⟨i, c, e, by simp, ?_⟩
  have hne : e.after.recoveryRow u ≠ e.before.recoveryRow u := fun he => hbefore (he.symm.trans hafter)
  have hs := unmigrated_agree hlegacy
  obtain ⟨-, -, hg⟩ := reach_step (fun c _ => AccountCall.sat F K c) hr
  constructor
  · rcases hg.cases with ⟨stmts, hl, -⟩ | ⟨-, he⟩
    · exact ⟨stmts, hl, hne⟩
    · exact absurd (by rw [he]) hne
  · exact hafter
  · cases renews_records (u := u) hs hr with
    | same he _ => exact absurd he hne
    | written packet key generation hc hr _ _ =>
      cases hafter.symm.trans hr
      exact ⟨packet, key, hc, rfl, rfl⟩

/-- Recovery records stay in agreement: the copies are equal, each row is that of
one request, and each generation is left by one request only. -/
theorem recovery_records_agree (hlegacy : Unmigrated s₀)
    (hr : Reach (AccountCall.code F K) (fun _ => True) s₀ h s ps) :
    (∀ u row, s.recoveryRow u = some row → row.protocolVersion = 2 →
      s.recoveryCopy u = some row.encryptedRecoveryPacket ∧ ∃ i c e, .step i c e ∈ h ∧ WrittenBy c e u row) ∧
    (∀ h₁ i c e h₂ u stmts, h = h₁ ++ .step i c e :: h₂ → Renews e u stmts →
      (e.before.recoveryRow u = none ∧ e.after.generation u = 0 ∧
        ∃ A client request, c = .mobileRegisterFinish A client request) ∨
      ∃ g, PreparedFrom u g (own i h₁) stmts ∧ e.before.generation u = g ∧ e.after.generation u = g + 1) ∧
    ∀ h₁ h₂ h₃ i c e j c' e' u g stmts stmts', h = h₁ ++ .step i c e :: h₂ ++ .step j c' e' :: h₃ →
      Renews e u stmts → Renews e' u stmts' →
      ¬ (PreparedFrom u g (own i h₁) stmts ∧ PreparedFrom u g (own j (h₁ ++ .step i c e :: h₂)) stmts') := by
  have hs := unmigrated_agree hlegacy
  refine ⟨fun u row hrow hv => ?_, fun h₁ i c e h₂ u stmts hh hn => ?_, ?_⟩
  · exact ⟨(reach_agree hs hr).copy u row hrow hv, row_written hlegacy hr hrow hv⟩
  · subst hh
    rcases renews_prepared hr hn with hnew | ⟨g, hp⟩
    · exact .inl hnew
    · obtain ⟨hb, ha⟩ := renews_generation hs hr hn hp
      exact .inr ⟨g, hp, hb, ha⟩
  · rintro h₁ h₂ h₃ i c e j c' e' u g stmts stmts' rfl hn hn' ⟨hp, hp'⟩
    exact renews_once hs hr hn hn' hp hp'

end

/-! ## Two migrations of one account -/

def legacyStore : Db where
  users := (∅ : Table UserId UserRow).set sampleOwner { sampleOwnerRow with
    encryptedRecoveryPacket := .v1 ⟨⟨.aes256Gcm, plainText 16, plainText 64, none⟩, none⟩ }
  sessions := (∅ : Table String SessionRow).set "session" ⟨sampleOwner, "token", "csrf", none, 4, 5000, 0⟩

def sampleMigration (key : String) : AccountCall :=
  .migrateRecovery plainAmbient ⟨"token", .cookie⟩ plainRecoveryPacket key

def twoMigrations : Play AccountCall Db (Access AccountStmt) (Except AccountError AccountResult) :=
  play (AccountCall.code plainFormats plainCrypto) legacyStore
    ([.issue (sampleMigration (plainText 43)), .issue (sampleMigration (plainText 42 ++ "E"))] ++
      List.replicate 5 (.step 0) ++ List.replicate 5 (.step 1) ++ [.step 1, .step 0])

theorem twoMigrations_reach : Reach (AccountCall.code plainFormats plainCrypto) (fun _ => True) legacyStore
    twoMigrations.1 twoMigrations.2.1 twoMigrations.2.2 := by
  unfold twoMigrations
  exact play_reach fun _ _ => trivial

/-- `recovery_records_agree` at two migrations: the record is that of the one
that committed first, in both places. -/
theorem recovery_records_agree_twoMigrations :
    twoMigrations.2.1.recoveryRow sampleOwner = some ⟨.v2 plainRecoveryPacket, 2, some (plainText 42 ++ "E"), 1⟩ ∧
      twoMigrations.2.1.recoveryCopy sampleOwner = some (.v2 plainRecoveryPacket) ∧
      ∃ i c e, .step i c e ∈ twoMigrations.1 ∧ WrittenBy c e sampleOwner
        ⟨.v2 plainRecoveryPacket, 2, some (plainText 42 ++ "E"), 1⟩ := by
  have hrow : twoMigrations.2.1.recoveryRow sampleOwner =
      some ⟨.v2 plainRecoveryPacket, 2, some (plainText 42 ++ "E"), 1⟩ := by decide +kernel
  have hlegacy : Unmigrated legacyStore := nofun
  exact ⟨hrow, (recovery_records_agree hlegacy twoMigrations_reach).1 sampleOwner _ hrow rfl⟩

end ZeroVault

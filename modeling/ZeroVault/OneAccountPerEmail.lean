import ZeroVault.RecoverySound

/-!
# An email names one account

`one_account_per_email`: where no account is registered under an email that
differs from another's in case only, login and recovery find the same account
and every version-2 account can start its own recovery. The unique column
compares emails byte for byte, recovery does not.
-/

namespace ZeroVault

open Lib

/-! ## Emails -/

theorem toLower_ascii {c : Char} (h : c.toNat < 128 ∧ isJsSpace c = false) :
    c.toLower.toNat < 128 ∧ isJsSpace c.toLower = false := by
  have hall : ∀ n < 128, isJsSpace (Char.ofNat n) = false →
      (Char.ofNat n).toLower.toNat < 128 ∧ isJsSpace (Char.ofNat n).toLower = false := by
    decide +kernel
  have hc := hall c.toNat h.1
  rw [Char.ofNat_toNat] at hc
  exact hc h.2

theorem lower_lower (text : String) : lower (lower text) = lower text := by
  unfold lower
  simp only [String.toList_ofList, List.map_map, Function.comp_def, toLower_toLower]

theorem dropWhile_blank {l : List Char} (h : ∀ c ∈ l, isJsSpace c = false) : l.dropWhile isJsSpace = l := by
  cases l with
  | nil => rfl
  | cons c l => rw [List.dropWhile_cons, h c List.mem_cons_self]; rfl

theorem normalizeEmail_eq {email : String} (h : ∀ c ∈ email.toList, c.toNat < 128 ∧ isJsSpace c = false) :
    normalizeEmail email = lower email := by
  have htrim : trimJs email.toList = email.toList := by
    unfold trimJs
    rw [dropWhile_blank fun c hc => (h c hc).2, dropWhile_blank fun c hc => (h c (List.mem_reverse.mp hc)).2,
      List.reverse_reverse]
  unfold normalizeEmail lower
  rw [htrim]
  refine congrArg String.ofList (List.map_congr_left fun c hc => if_neg ?_)
  rintro rfl
  exact absurd (h _ hc).1 (by decide)

/-- What the email format allows: ASCII without blanks, and letters of either case. -/
structure EmailFormat (F : Formats) : Prop where
  ascii : ∀ email, F.email email = true → ∀ c ∈ email.toList, c.toNat < 128 ∧ isJsSpace c = false
  lowered : ∀ email, F.email email = true → F.email (lower email) = true

/-! ## The accounts that the routes find -/

section
variable (F : Formats) (K : Crypto) (s : Db) (email : String) (u : UserId)

def LoginFinds : Prop :=
  ∃ A request s' id login, (loginStart F K A email request).run s = (s', .ok (.created id)) ∧
    s.loginSessions.get? id = none ∧ s'.loginSessions.get? id = some login ∧ login.userId = u

def RecoveryFinds : Prop :=
  ∃ A request s' id nonce registration packet key challenge, (recoveryStart F K A email request).run s =
      (s', .ok (.recoveryAttempt id nonce registration packet key)) ∧
    s'.recoveryChallenges.get? id = some challenge ∧ challenge.userId = some u

/-- Every start of a recovery that the schema and the OPAQUE library accept, with
identifiers that are new, has a challenge for the account. -/
def RecoveryBinds : Prop :=
  ∀ A request, canonicalOpaqueMessageSchema request = true →
    (K.createRegistrationResponse (normalizeEmail email) request).isSome = true →
    s.registrationSessions.get? (A.random "registrationSessionId") = none →
    s.recoveryChallenges.get? (A.random "recoveryAttemptId") = none → (A.random "challenge").length = 43 →
    ∃ s' challenge packet key, (recoveryStart F K A email request).run s = (s', .ok (.recoveryAttempt
        (A.random "recoveryAttemptId") (A.random "challenge") (A.random "registrationSessionId") packet key)) ∧
      s'.recoveryChallenges.get? (A.random "recoveryAttemptId") = some challenge ∧ challenge.userId = some u

end

/-- Login and recovery find one account for an email, and every version-2
account gets a challenge for its own. -/
def OneAccount (F : Formats) (K : Crypto) (s : Db) : Prop :=
  (∀ email u v, LoginFinds F K s email u → RecoveryFinds F K s email v → u = v) ∧
    ∀ u user row, s.users.get? u = some user → s.recoveryPackets.get? u = some row → row.protocolVersion = 2 →
      RecoveryBinds F K s user.email u

def Creates (e : Step Db (Access AccountStmt)) (user : UserRow) : Prop :=
  ∃ stmts id, e.label = .commit stmts ∧ .users (.insert id user) ∈ stmts

def Unused (email : String) (s : Db) : Prop :=
  ∀ u user, s.users.get? u = some user → lower user.email ≠ lower email

/-! ## Bodies that the schemas accept -/

def AccountCall.accepted (F : Formats) : AccountCall → Bool
  | registerFinish _ request => registerFinishRequestSchema F request
  | mobileRegisterFinish _ _ request => mobileRegisterFinishRequestSchema F request
  | recoveryFinish _ request signature => recoveryFinishRequestSchema F request.normalized signature
  | migrateRecovery _ _ packet key | rotateRecovery _ _ packet key =>
    recoveryPacketV2Schema packet && recoverySigningPublicKeySchema key
  | _ => true

/-- Accounts and recovery rows are written for accepted bodies only. -/
def AccountCall.Writes (F : Formats) (K : Crypto) (c : AccountCall) (tr : AccountTrace) (stmts : List AccountStmt) :
    Prop :=
  Transacts K c tr stmts ∧ ((∃ q ∈ stmts, q.table = .users ∨ q.table = .packets) → c.accepted F = true)

section
variable {F : Formats} {K : Crypto} {c : AccountCall}

theorem deleteToken_writes {tr : AccountTrace} (hc : c.finishesRecovery = false) (token : String) :
    c.Writes F K tr [.sessions (.deleteByToken token)] := by
  refine ⟨.deleteToken _ hc, ?_⟩
  rintro ⟨q, hq, ht⟩
  rw [List.mem_singleton.mp hq] at ht
  rcases ht with ht | ht <;> cases ht

theorem AccountCall.sat_writes (c : AccountCall) : Sat (Guar AccountStmt.exec (c.Writes F K)) (Returns fun _ _ => True)
    (c.code F K) [] := by
  by_cases ha : c.accepted F = true
  · exact TrySat.weaken (c.sat F K) fun _ _ h => ⟨h, fun _ => ha⟩
  rw [Bool.not_eq_true] at ha
  cases c with
  | registerFinish A request =>
    have hx : registerFinishRequestSchema F request = false := ha
    simp only [AccountCall.code, ZeroVault.registerFinish, hx]
    exact TrySat.throw
  | mobileRegisterFinish A client request =>
    have hx : mobileRegisterFinishRequestSchema F request = false := ha
    simp only [AccountCall.code, ZeroVault.mobileRegisterFinish, hx]
    exact TrySat.throw
  | recoveryFinish A request signature =>
    have hx : recoveryFinishRequestSchema F { request with email := normalizeEmail request.email } signature = false :=
      ha
    simp only [AccountCall.code, ZeroVault.recoveryFinish, hx]
    exact TrySat.throw
  | migrateRecovery A cred packet key =>
    have hx : (!recoveryPacketV2Schema packet || !recoverySigningPublicKeySchema key) = true := by
      rw [← Bool.not_and]; exact congrArg (!·) ha
    refine (authenticated_sat fun _ t => deleteToken_writes rfl t).bind fun _ _ _ _ => ?_
    rw [if_pos hx]
    exact TrySat.throw
  | rotateRecovery A cred packet key =>
    have hx : (!recoveryPacketV2Schema packet || !recoverySigningPublicKeySchema key) = true := by
      rw [← Bool.not_and]; exact congrArg (!·) ha
    refine (authenticated_sat fun _ t => deleteToken_writes rfl t).bind fun _ _ _ _ => ?_
    rw [if_pos hx]
    exact TrySat.throw
  | _ => cases ha

end

/-! ## The invariant -/

def RecoveryPacketRow.WellFormed (row : RecoveryPacketRow) : Prop :=
  row.protocolVersion = 2 → ∃ packet key, row.encryptedRecoveryPacket = .v2 packet ∧
    row.signingPublicKey = some key ∧ recoveryPacketV2Schema packet = true ∧ recoverySigningPublicKeySchema key = true

def Db.email (s : Db) (u : UserId) : Option String := (s.users.get? u).map (·.email)

/-- Accounts have valid emails, each its own up to case, and readable recovery rows. -/
structure Accounts (F : Formats) (s : Db) : Prop where
  valid : ∀ u email, s.email u = some email → F.email email = true
  distinct : ∀ u v email email', s.email u = some email → s.email v = some email' → lower email = lower email' → u = v
  readable : ∀ u row, s.recoveryPackets.get? u = some row → row.WellFormed

def PacketStmt.WellFormed : PacketStmt → Prop
  | insert _ row => row.WellFormed
  | migrate _ packet key | rotate _ _ _ packet key | finish _ _ packet key =>
    recoveryPacketV2Schema packet = true ∧ recoverySigningPublicKeySchema key = true

section
variable {F : Formats} {K : Crypto} {s s' : Db} {c : AccountCall} {tr : AccountTrace} {stmts : List AccountStmt}

theorem renew_wellFormed {row : RecoveryPacketRow} {packet : RecoveryPacketV2} {key : String}
    (h : recoveryPacketV2Schema packet = true ∧ recoverySigningPublicKeySchema key = true) :
    (row.renew packet key).WellFormed :=
  fun _ => ⟨packet, key, rfl, rfl, h.1, h.2⟩

theorem packets_wellFormed {q : PacketStmt} {t : Table UserId RecoveryPacketRow} (h : q.exec s = some t)
    (hq : q.WellFormed) (hs : ∀ u row, s.recoveryPackets.get? u = some row → row.WellFormed) :
    ∀ u row, t.get? u = some row → row.WellFormed := by
  intro u row hrow
  cases q with
  | insert id r =>
    simp only [PacketStmt.exec] at h
    split at h
    · rw [Table.get?_insert h] at hrow
      split at hrow
      · cases hrow; exact hq
      · exact hs u row hrow
    · cases h
  | migrate id packet key =>
    simp only [PacketStmt.exec] at h
    split at h
    · split at h
      · cases h
        rw [Table.get?_set] at hrow
        split at hrow
        · cases hrow; exact fun _ => ⟨packet, key, rfl, rfl, hq.1, hq.2⟩
        · exact hs u row hrow
      · cases h
    · split at h
      · cases h
        rw [Table.get?_set] at hrow
        split at hrow
        · cases hrow; exact renew_wellFormed hq
        · exact hs u row hrow
      · cases h; exact hs u row hrow
  | rotate id generation epoch packet key =>
    cases h
    rw [Table.get?_updateWhere, Option.map_eq_some_iff] at hrow
    obtain ⟨row', hrow', rfl⟩ := hrow
    split
    · exact renew_wellFormed hq
    · exact hs u row' hrow'
  | finish id generation packet key =>
    cases h
    rw [Table.get?_updateWhere, Option.map_eq_some_iff] at hrow
    obtain ⟨row', hrow', rfl⟩ := hrow
    split
    · exact renew_wellFormed hq
    · exact hs u row' hrow'

/-- The recovery rows that a call writes are those of its accepted body. -/
theorem transacts_wellFormed (h : c.Writes F K tr stmts) {q : PacketStmt} (hq : .packets q ∈ stmts) :
    q.WellFormed := by
  obtain ⟨ht, hacc⟩ := h
  have ha := hacc ⟨_, hq, .inr rfl⟩
  clear hacc
  cases ht with
  | createAccount =>
    simp only [mobileAccountStmts, List.mem_cons, AccountStmt.packets.injEq, reduceCtorEq, List.not_mem_nil, or_false,
      false_or] at hq
    subst hq
    simp only [AccountCall.accepted, mobileRegisterFinishRequestSchema, Bool.and_eq_true] at ha
    exact fun _ => ⟨_, _, rfl, rfl, ha.1.1.1.1.2, ha.1.1.1.2⟩
  | finishRecovery =>
    simp only [finishRecoveryStmts, List.mem_cons, AccountStmt.packets.injEq, reduceCtorEq, List.not_mem_nil, or_false,
      false_or] at hq
    subst hq
    simp only [AccountCall.accepted, recoveryFinishRequestSchema, Bool.and_eq_true] at ha
    exact ⟨ha.1.1.1.2, ha.1.1.2⟩
  | migrateRecovery =>
    simp only [migrateStmts, List.mem_cons, AccountStmt.packets.injEq, reduceCtorEq, List.not_mem_nil, or_false] at hq
    subst hq
    simp only [AccountCall.accepted, Bool.and_eq_true] at ha
    exact ha
  | rotateRecovery =>
    simp only [rotateRecoveryStmts, List.mem_cons, AccountStmt.packets.injEq, reduceCtorEq, List.not_mem_nil,
      or_false] at hq
    subst hq
    simp only [AccountCall.accepted, Bool.and_eq_true] at ha
    exact ha
  | registerLogin _ _ _ _ _ _ _ hreg | registerPost _ _ _ _ hreg =>
    cases hreg <;> simp [insertDeviceStmt, replaceDeviceStmts, updateDeviceStmts] at hq
  | rotateSession => simp [rotateStmts] at hq
  | withdraw => simp [withdrawStmts] at hq
  | approve => simp [approveStmts] at hq
  | _ => simp at hq

/-! ### Emails -/

theorem updateWhere_email {t : Table UserId UserRow} {p : UserId → UserRow → Bool} {f : UserRow → UserRow}
    (hf : ∀ user, (f user).email = user.email) (u : UserId) :
    ((t.updateWhere p f).get? u).map (·.email) = (t.get? u).map (·.email) := by
  rw [Table.get?_updateWhere, Option.map_map]
  congr 1
  funext user
  simp only [Function.comp]
  split
  · exact hf user
  · rfl

theorem exec_email {q : AccountStmt} (h : q.exec s = some s') (hq : ∀ id user, q ≠ .users (.insert id user)) (u : UserId) :
    s'.email u = s.email u := by
  unfold Db.email
  cases account_effect h with
  | @users r t ht =>
    cases r with
    | insert id user => exact absurd rfl (hq id user)
    | recover id epoch record packet =>
      cases ht
      apply updateWhere_email
      intro user
      rfl
    | setPacketMigrated id packet key =>
      cases ht
      apply updateWhere_email
      intro user
      rfl
    | setPacketRotated id epoch generation packet key =>
      cases ht
      apply updateWhere_email
      intro user
      rfl
  | _ => rfl

theorem batch_email (h : execAll AccountStmt.exec stmts s = some s')
    (hq : ∀ id user, .users (.insert id user) ∉ stmts) (u : UserId) : s'.email u = s.email u :=
  execAll_rel AccountStmt.exec (R := fun s s' => s'.email u = s.email u) (fun _ => rfl) (fun _ _ _ h₁ h₂ => h₂.trans h₁)
    (fun _ hm _ _ hx => exec_email hx (fun id user he => hq id user (he ▸ hm)) u) h

/-- A batch that creates an account does so first, for the body's email. -/
theorem transacts_creates (h : c.Writes F K tr stmts) :
    (∀ id user, .users (.insert id user) ∉ stmts) ∨ ∃ id user rest, stmts = .users (.insert id user) :: rest ∧
      (∀ id user, .users (.insert id user) ∉ rest) ∧ F.email user.email = true := by
  obtain ⟨ht, hacc⟩ := h
  cases ht with
  | createUser id user he =>
    have ha := hacc ⟨_, List.mem_cons_self, .inl rfl⟩
    simp only [AccountCall.accepted, registerFinishRequestSchema, Bool.and_eq_true] at ha
    exact .inr ⟨id, user, [], rfl, by simp, he ▸ ha.1.1.1.1.2⟩
  | createAccount =>
    have ha := hacc ⟨_, List.mem_cons_self, .inl rfl⟩
    simp only [AccountCall.accepted, mobileRegisterFinishRequestSchema, Bool.and_eq_true] at ha
    exact .inr ⟨_, _, _, rfl, by simp, ha.1.1.1.1.1.1.1.2⟩
  | registerLogin _ _ _ _ _ _ _ hreg | registerPost _ _ _ _ hreg =>
    left
    intro id user
    cases hreg <;> simp [insertDeviceStmt, replaceDeviceStmts, updateDeviceStmts]
  | rotateSession => exact .inl (by simp [rotateStmts])
  | withdraw => exact .inl (by simp [withdrawStmts])
  | approve => exact .inl (by simp [approveStmts])
  | migrateRecovery => exact .inl (by simp [migrateStmts])
  | rotateRecovery => exact .inl (by simp [rotateRecoveryStmts])
  | finishRecovery => exact .inl (by simp [finishRecoveryStmts])
  | _ => exact .inl (by simp)

theorem unused_email {email : String} (h : Unused email s) {u : UserId} {e : String} (he : s.email u = some e) :
    lower e ≠ lower email := by
  obtain ⟨user, hu, rfl⟩ := Option.map_eq_some_iff.mp he
  exact h u user hu

theorem insert_email {id : UserId} {user : UserRow} (h : (AccountStmt.users (.insert id user)).exec s = some s')
    (u : UserId) : s'.email u = if u = id then some user.email else s.email u := by
  have hx := exec_users h
  simp only [UsersStmt.exec] at hx
  split at hx
  · cases hx
  · unfold Db.email
    rw [Table.get?_insert hx]
    split <;> rfl

theorem batch_accounts (hx : execAll AccountStmt.exec stmts s = some s') (hw : c.Writes F K tr stmts)
    (hnew : ∀ id user, .users (.insert id user) ∈ stmts → Unused user.email s) (hs : Accounts F s) :
    Accounts F s' := by
  have hread : ∀ u row, s'.recoveryPackets.get? u = some row → row.WellFormed := by
    refine execAll_keeps AccountStmt.exec (P := fun s => ∀ u row, s.recoveryPackets.get? u = some row → row.WellFormed)
      (fun q hq m m' hm hk => ?_) hx hs.readable
    by_cases ht : q.table = .packets
    · cases q with
      | packets r => exact packets_wellFormed (exec_packets hm) (transacts_wellFormed hw hq) hk
      | _ => cases ht
    · rw [(exec_frame hm).packets ht]; exact hk
  rcases transacts_creates hw with hno | ⟨id, user, rest, rfl, hno, hvalid⟩
  · have he := batch_email hx hno
    exact ⟨fun u email hu => hs.valid u email (he u ▸ hu),
      fun u v _ _ hu hv => hs.distinct u v _ _ (he u ▸ hu) (he v ▸ hv), hread⟩
  · obtain ⟨m, hins, hrest⟩ := (execAll_cons _).mp hx
    have hunused := hnew id user List.mem_cons_self
    have he : ∀ u, s'.email u = if u = id then some user.email else s.email u := fun u =>
      (batch_email hrest hno u).trans (insert_email hins u)
    constructor
    · intro u email hu
      rw [he] at hu
      split at hu
      · cases hu; exact hvalid
      · exact hs.valid u email hu
    · intro u v email email' hu hv hsame
      rw [he] at hu hv
      split at hu <;> split at hv
      · rename_i h1 h2; exact h1.trans h2.symm
      · cases hu; exact absurd hsame.symm (unused_email hunused hv)
      · cases hv; exact absurd hsame (unused_email hunused hu)
      · exact hs.distinct u v _ _ hu hv hsame
    · exact hread

end

/-! ## What the starts of a login and a recovery find -/

theorem runStmt_run (q : AccountStmt) (s : Db) : (runStmt q).run s = match q.exec s with
    | some s' => (s', .ok (q.changes s))
    | none => (s, .error .databaseError) := by
  unfold runStmt accountBatch tryBatch
  rw [TryProg.run_bind, TryProg.run_bind]
  simp only [TryProg.transact, TryProg.run, Prog.access, Prog.run_act, Prog.run_ret, execAll]
  cases hq : q.exec s with
  | none => rfl
  | some s' => rfl

theorem runStmt_ok {q : AccountStmt} {s s' : Db} {α : Type} {k : Nat → AccountProg α} {a : α}
    (h : (runStmt q >>= k).run s = (s', .ok a)) : ∃ m, q.exec s = some m ∧ (k (q.changes s)).run m = (s', .ok a) := by
  rw [TryProg.run_bind, runStmt_run] at h
  cases hq : q.exec s with
  | none => rw [hq] at h; cases h
  | some m => rw [hq] at h; exact ⟨m, rfl, h⟩

/-- What `getRecoveryRecord` answers. -/
def Db.recoveryRecord (s : Db) (u : UserId) : Option RecoveryRecord :=
  match s.recoveryPackets.get? u with
  | some row => row.record
  | none => (s.users.get? u).map fun user => ⟨1, user.encryptedRecoveryPacket, none, 0⟩

theorem getRecoveryRecord_run (s : Db) (u : UserId) : (getRecoveryRecord u).run s = (s, .ok (s.recoveryRecord u)) := by
  unfold getRecoveryRecord getUser read Db.recoveryRecord
  rw [TryProg.run_read_bind]
  cases s.recoveryPackets.get? u with
  | none => rfl
  | some row => rfl

section
variable {F : Formats} {K : Crypto} {s s' : Db} {A : Ambient} {email request id : String}

theorem loginStart_finds (h : (loginStart F K A email request).run s = (s', .ok (.created id)))
    (hno : s.loginSessions.get? id = none) {login : LoginSessionRow} (hrow : s'.loginSessions.get? id = some login) :
    F.email email = true ∧ s.email login.userId = some email := by
  unfold loginStart at h
  split at h
  · cases h
  rename_i hschema
  simp only [Bool.or_eq_true, Bool.not_eq_true', not_or, Bool.not_eq_false] at hschema
  refine ⟨hschema.1, ?_⟩
  dsimp only at h
  unfold findUserByEmail read at h
  rw [TryProg.run_read_bind] at h
  cases hu : (s.users.select fun _ u => u.email = email).head? with
  | none =>
    rw [hu] at h
    obtain ⟨m, id', hfake, hid⟩ := TryProg.bind_ok h
    cases hid
    obtain ⟨m', hx, hend⟩ := runStmt_ok hfake
    cases hend
    rw [(exec_frame hx).logins nofun, hno] at hrow
    cases hrow
  | some user =>
    rw [hu] at h
    obtain ⟨m, id', hlogin, hid⟩ := TryProg.bind_ok h
    cases hid
    obtain ⟨m', hx, hend⟩ := runStmt_ok (TryProg.mapError_ok hlogin)
    split at hend
    · cases hend
    rename_i hchanged
    cases hend
    have hepoch : epochHolds s user.1 (some user.2.authEpoch) = true := by
      by_contra hno
      exact hchanged (by simp [AccountStmt.changes, hno])
    have hins := exec_logins hx
    simp only [LoginStmt.exec, hepoch, if_true] at hins
    rw [Table.get?_insert hins, if_pos rfl] at hrow
    cases hrow
    obtain ⟨hget, hmatch⟩ := Table.mem_select.mp (List.mem_of_head? hu)
    rw [Db.email, hget, Option.map_some]
    exact congrArg some (of_decide_eq_true hmatch)

theorem recoveryStart_finds {nonce registration key : String} {packet : StoredRecoveryPacket}
    (h : (recoveryStart F K A email request).run s = (s', .ok (.recoveryAttempt id nonce registration packet key)))
    {challenge : RecoveryChallengeRow} (hrow : s'.recoveryChallenges.get? id = some challenge) {v : UserId}
    (hv : challenge.userId = some v) : ∃ e, s.email v = some e ∧ lower e = lower (normalizeEmail email) := by
  unfold recoveryStart at h
  dsimp only at h
  split at h
  · cases h
  split at h
  · cases h
  obtain ⟨m, rs, hreg, h⟩ := TryProg.bind_ok h
  obtain ⟨m', hins, hend⟩ := runStmt_ok hreg
  cases hend
  unfold findUserByRecoveryEmail read at h
  rw [TryProg.run_read_bind] at h
  obtain ⟨m₂, record, hrec, h⟩ := TryProg.bind_ok h
  rw [getRecoveryRecord_run] at hrec
  cases hrec
  obtain ⟨m₃, attempt, hattempt, h⟩ := TryProg.bind_ok h
  obtain ⟨m₄, hins', hend⟩ := runStmt_ok hattempt
  cases hend
  have hput := Table.get?_insert (exec_challenge hins') (A.random "recoveryAttemptId")
  rw [if_pos rfl] at hput
  have hend : m₃ = s' ∧ A.random "recoveryAttemptId" = id := by
    split at h <;> cases h <;> exact ⟨rfl, rfl⟩
  obtain ⟨rfl, rfl⟩ := hend
  rw [hrow] at hput
  rw [Option.some.inj hput] at hv
  obtain ⟨known, hknown, rfl⟩ := Option.map_eq_some_iff.mp hv
  obtain ⟨user, hu, hknown⟩ := Option.bind_eq_some_iff.mp hknown
  obtain ⟨record, -, hknown⟩ := Option.bind_eq_some_iff.mp hknown
  obtain ⟨key', -, hknown⟩ := Option.bind_eq_some_iff.mp hknown
  split at hknown
  · cases hknown
    obtain ⟨hget, hmatch⟩ := Table.mem_select.mp (List.mem_of_head? hu)
    rw [(exec_frame hins).users nofun] at hget
    exact ⟨user.2.email, by rw [Db.email, hget]; rfl, of_decide_eq_true hmatch⟩
  · cases hknown

theorem head_select {t : Table UserId UserRow} {p : UserId → UserRow → Bool} {u : UserId} {user : UserRow}
    (hu : t.get? u = some user) (hp : p u user = true)
    (hone : ∀ v other, t.get? v = some other → p v other = true → v = u) : (t.select p).head? = some (u, user) := by
  cases h : (t.select p).head? with
  | none =>
    rw [List.head?_eq_none_iff] at h
    have := Table.mem_select.mpr ⟨hu, hp⟩
    rw [h] at this
    cases this
  | some r =>
    obtain ⟨hget, hr⟩ := Table.mem_select.mp (List.mem_of_head? h)
    have hv := hone r.1 r.2 hget hr
    rw [hv, hu] at hget
    rw [← hv, Option.some.inj hget]

theorem createRegistrationSession_run (row : RegistrationSessionRow)
    (h : s.registrationSessions.get? (A.random "registrationSessionId") = none) :
    ∃ m, (createRegistrationSession A row).run s = (m, .ok (A.random "registrationSessionId")) ∧
      Frame .registrations s m := by
  obtain ⟨t, ht⟩ := Table.exists_insert h row
  have hx : (AccountStmt.registrations (.insert (A.random "registrationSessionId") row)).exec s =
      some { s with registrationSessions := t } := by
    simp only [AccountStmt.exec, RegistrationStmt.exec, ht, Option.map_some]
  refine ⟨_, ?_, exec_frame hx⟩
  unfold createRegistrationSession
  rw [TryProg.run_bind, runStmt_run, hx]
  rfl

theorem createRecoveryChallenge_run (row : RecoveryChallengeRow)
    (h : s.recoveryChallenges.get? (A.random "recoveryAttemptId") = none) (hrow : row.check s = true) :
    ∃ m, (createRecoveryChallenge A row).run s = (m, .ok (A.random "recoveryAttemptId")) ∧
      m.recoveryChallenges.get? (A.random "recoveryAttemptId") = some row := by
  obtain ⟨t, ht⟩ := Table.exists_insert h row
  have hx : (AccountStmt.insertChallenge (A.random "recoveryAttemptId") row).exec s =
      some { s with recoveryChallenges := t } := by
    simp only [AccountStmt.exec, hrow, if_true, ht, Option.map_some]
  refine ⟨_, ?_, by rw [Table.get?_insert (exec_challenge hx), if_pos rfl]⟩
  unfold createRecoveryChallenge
  rw [TryProg.run_bind, runStmt_run, hx]
  rfl

theorem recoveryStart_binds (hF : EmailFormat F) (hs : Accounts F s) {u : UserId} {user : UserRow}
    {row : RecoveryPacketRow} (hu : s.users.get? u = some user) (hr : s.recoveryPackets.get? u = some row)
    (hv : row.protocolVersion = 2) : RecoveryBinds F K s user.email u := by
  intro A request hreq hresp hreg hattempt hnonce
  have hmail : s.email u = some user.email := by rw [Db.email, hu]; rfl
  have hvalid := hs.valid u _ hmail
  have hnorm := normalizeEmail_eq (hF.ascii _ hvalid)
  obtain ⟨response, hresponse⟩ := Option.isSome_iff_exists.mp hresp
  obtain ⟨packet, key, hpacket, hkey, hps, hks⟩ := hs.readable u row hr hv
  obtain ⟨m, hm, hframe⟩ := createRegistrationSession_run
    ⟨normalizeEmail user.email, response, challengeExpiry A "registrationSession"⟩ hreg
  -- the account is the only one whose email is this one in lower case
  have hfind : (m.users.select fun _ r => lower r.email = lower (normalizeEmail user.email)).head? = some (u, user) := by
    rw [hframe.users nofun, hnorm, lower_lower]
    refine head_select hu (decide_eq_true rfl) fun v other hother hsame => ?_
    exact hs.distinct v u _ _ (by rw [Db.email, hother]; rfl) hmail (of_decide_eq_true hsame)
  have hrec : m.recoveryRecord u = some ⟨2, .v2 packet, some key, row.generation⟩ := by
    rw [Db.recoveryRecord, hframe.packets nofun, hr]
    simp [RecoveryPacketRow.record, hv, hpacket, hkey, hps, hks]
  rw [← hframe.challenges nofun] at hattempt
  have hhere : m.users.contains u = true := by
    rw [hframe.users nofun]
    exact Table.contains_eq_true.mpr ⟨user, hu⟩
  obtain ⟨m', hm', hget⟩ := createRecoveryChallenge_run
    ⟨some u, some user.authEpoch, some row.generation, A.random "challenge", A.random "registrationSessionId",
      challengeExpiry A "challenge"⟩ hattempt (by simp [RecoveryChallengeRow.check, hnonce, hhere])
  refine ⟨m', _, .v2 packet, key, ?_, hget, rfl⟩
  have hschema : ¬ (!F.email (normalizeEmail user.email) || !canonicalOpaqueMessageSchema request) = true := by
    rw [hnorm, hF.lowered _ hvalid, hreq]
    decide
  unfold recoveryStart
  dsimp only
  rw [if_neg hschema, hresponse]
  dsimp only
  rw [TryProg.run_bind, hm]
  unfold findUserByRecoveryEmail read
  dsimp only
  rw [TryProg.run_read_bind]
  rw [hfind, Option.map_some, Option.getD_some, TryProg.run_bind, getRecoveryRecord_run, hrec]
  dsimp only [Option.bind_eq_bind, Option.bind_some]
  rw [if_pos rfl, TryProg.run_bind]
  dsimp only [Option.map_some]
  rw [hm']
  rfl

theorem accounts_one (hF : EmailFormat F) (hs : Accounts F s) : OneAccount F K s := by
  refine ⟨?_, fun u user row hu hr hv => recoveryStart_binds hF hs hu hr hv⟩
  rintro email u v ⟨A, request, s₁, id, login, hlogin, hno, hrow, rfl⟩
    ⟨A', request', s₂, id', nonce, registration, packet, key, challenge, hrecovery, hrow', hv⟩
  obtain ⟨hvalid, hu⟩ := loginStart_finds hlogin hno hrow
  obtain ⟨email', hmail, hsame⟩ := recoveryStart_finds hrecovery hrow' hv
  rw [normalizeEmail_eq (hF.ascii _ hvalid), lower_lower] at hsame
  exact hs.distinct _ _ _ _ hu hmail hsame.symm

/-- Where each account was registered under an email that no account had in any
case, an email names one account on every path. -/
theorem one_account_per_email {h : History AccountCall Db (Access AccountStmt)}
    {ps : List (Proc AccountCall Db (Access AccountStmt) (Except AccountError AccountResult))} (hF : EmailFormat F)
    (hr : Reach (AccountCall.code F K) (fun _ => True) {} h s ps)
    (hnew : ∀ i c e user, .step i c e ∈ h → Creates e user → Unused user.email e.before) : OneAccount F K s := by
  have halong : Along (fun s s' => Accounts F s → Accounts F s') {} h := by
    refine reach_rel_of (P := fun _ e => ∀ user, Creates e user → Unused user.email e.before)
      (fun c _ => c.sat_writes) (fun _ => id) (fun _ _ _ h₁ h₂ => h₂ ∘ h₁) ?_ hr fun i c e he user => hnew i c e user he
    intro c tr e _ _ _ hg hunused hs
    rcases hg.cases with ⟨stmts, hl, hx, hw⟩ | ⟨-, he⟩
    · exact batch_accounts hx hw (fun id user hm => hunused user ⟨stmts, id, hl, hm⟩) hs
    · rw [he]; exact hs
  have hlast := (show Along _ {} ([] ++ h) from halong).last
  rw [List.nil_append, reach_store hr] at hlast
  exact accounts_one hF (hlast ⟨nofun, nofun, nofun⟩)

end

/-! ## Two accounts of one mailbox -/

/-- As `plainFormats`, with emails that have an at sign and are ASCII without blanks. -/
def mailFormats : Formats :=
  { plainFormats with email := fun v => v.toList.contains '@' && v.toList.all fun c => c.toNat < 128 && !isJsSpace c }

theorem mailFormats_email : EmailFormat mailFormats where
  ascii email h c hc := by
    simp only [mailFormats, Bool.and_eq_true, List.all_eq_true, Bool.not_eq_true', decide_eq_true_eq] at h
    exact h.2 c hc
  lowered email h := by
    simp only [mailFormats, Bool.and_eq_true, List.all_eq_true, Bool.not_eq_true', List.contains_iff_mem,
      decide_eq_true_eq] at h ⊢
    have hl : (lower email).toList = email.toList.map Char.toLower := by simp [lower]
    rw [hl]
    refine ⟨List.mem_map.mpr ⟨'@', h.1, by decide⟩, fun c hc => ?_⟩
    obtain ⟨d, hd, rfl⟩ := List.mem_map.mp hc
    exact toLower_ascii (h.2 d hd)

def registrant (digit : String) : UserId := "0b8f8ed0-4c1a-4e0e-9d5e-0d1c5a0a010" ++ digit

def registrantAmbient (digit : String) : Ambient :=
  ⟨fun _ => 1000, fun place => if place = "challenge" then plainText 43 else registrant digit⟩

def registrationOf (digit email : String) : MobileRegisterFinishRequest where
  registrationSessionId := registrant digit
  email := email
  registrationRecord := plainText 16
  publicKeyBundle := plainText 16
  encryptedRecoveryPacket := plainRecoveryPacket
  recoverySigningPublicKey := plainText 43
  device := {
    id := registrant digit, name := "phone", fingerprint := "fingerprint", publicKey := plainText 43
    credential := plainText 43, encryptedVaultKeyPacket := sampleVaultKeyPacket (registrant digit) (plainText 43) }

/-- The calls `p` and `p + 1` register an account. -/
def registration (p : Nat) (digit email : String) : List (Move AccountCall) :=
  [.issue (.registerStart (registrantAmbient digit) email (plainText 16)), .step p, .step p,
    .issue (.mobileRegisterFinish (registrantAmbient digit) ⟨none, none⟩ (registrationOf digit email))] ++
    List.replicate 6 (.step (p + 1))

def twoMailboxes : Play AccountCall Db (Access AccountStmt) (Except AccountError AccountResult) :=
  play (AccountCall.code mailFormats plainCrypto) {}
    (registration 0 "1" "A@example.org" ++ registration 2 "2" "b@example.org")

def twoRegistered : Play AccountCall Db (Access AccountStmt) (Except AccountError AccountResult) :=
  play (AccountCall.code mailFormats plainCrypto) {}
    (registration 0 "1" "A@example.org" ++ registration 2 "2" "a@example.org")

theorem twoMailboxes_reach : Reach (AccountCall.code mailFormats plainCrypto) (fun _ => True) {}
    twoMailboxes.1 twoMailboxes.2.1 twoMailboxes.2.2 := by
  unfold twoMailboxes
  exact play_reach fun _ _ => trivial

theorem twoRegistered_reach : Reach (AccountCall.code mailFormats plainCrypto) (fun _ => True) {}
    twoRegistered.1 twoRegistered.2.1 twoRegistered.2.2 := by
  unfold twoRegistered
  exact play_reach fun _ _ => trivial

/-- `one_account_per_email` where two accounts of different emails are registered. -/
theorem one_account_twoMailboxes : OneAccount mailFormats plainCrypto twoMailboxes.2.1 ∧
    twoMailboxes.2.1.email (registrant "1") = some "A@example.org" ∧
    twoMailboxes.2.1.email (registrant "2") = some "b@example.org" := by
  have hran : twoMailboxes.1.all (fun
      | .step _ _ ⟨.commit stmts, b, _⟩ => stmts.all fun
        | .users (.insert _ user) => b.users.rows.all fun r => lower r.2.email ≠ lower user.email
        | _ => true
      | _ => true) = true ∧ twoMailboxes.2.1.email (registrant "1") = some "A@example.org" ∧
      twoMailboxes.2.1.email (registrant "2") = some "b@example.org" := by
    decide +kernel
  refine ⟨one_account_per_email mailFormats_email twoMailboxes_reach ?_, hran.2⟩
  rintro i c ⟨label, b, a⟩ user he ⟨stmts, id, rfl, hm⟩ u other hother
  have hstmts := List.all_eq_true.mp hran.1 _ he
  have hrow := List.all_eq_true.mp (List.all_eq_true.mp hstmts _ hm) _ (Table.mem_rows.mpr hother)
  exact of_decide_eq_true hrow

def mailLogin : Db × Except AccountError AccountResult :=
  (loginStart mailFormats plainCrypto (registrantAmbient "3") "a@example.org" (plainText 16)).run twoRegistered.2.1

def mailRecovery : Db × Except AccountError AccountResult :=
  (recoveryStart mailFormats plainCrypto (registrantAmbient "3") "a@example.org" (plainText 16)).run twoRegistered.2.1

/-- The login session is the second account's, the challenge the first one's. -/
theorem mailStarts_ran : twoRegistered.2.1.loginSessions.get? (registrant "3") = none ∧
    mailLogin.2 = .ok (.created (registrant "3")) ∧
    (mailLogin.1.loginSessions.get? (registrant "3")).map (·.userId) = some (registrant "2") ∧
    mailRecovery.2 = .ok (.recoveryAttempt (registrant "3") (plainText 43) (registrant "3")
      (.v2 plainRecoveryPacket) (plainText 43)) ∧
    (mailRecovery.1.recoveryChallenges.get? (registrant "3")).bind (·.userId) = some (registrant "1") := by
  decide +kernel

/-- Of two accounts whose emails differ in case, login finds one and recovery
the other. -/
theorem two_accounts_per_email : ¬ ∀ h s ps,
    Reach (AccountCall.code mailFormats plainCrypto) (fun _ => True) {} h s ps → OneAccount mailFormats plainCrypto s := by
  intro hall
  obtain ⟨hnew, hlogin, hsession, hrecovery, hchallenge⟩ := mailStarts_ran
  obtain ⟨login, hsession, hu⟩ := Option.map_eq_some_iff.mp hsession
  obtain ⟨challenge, hchallenge, hv⟩ := Option.bind_eq_some_iff.mp hchallenge
  have hrun : mailLogin = (mailLogin.1, .ok (.created (registrant "3"))) :=
    (Prod.eta mailLogin).symm.trans (congrArg (Prod.mk mailLogin.1) hlogin)
  have hrun' : mailRecovery = (mailRecovery.1, .ok (.recoveryAttempt (registrant "3") (plainText 43) (registrant "3")
      (.v2 plainRecoveryPacket) (plainText 43))) :=
    (Prod.eta mailRecovery).symm.trans (congrArg (Prod.mk mailRecovery.1) hrecovery)
  have hfinds : LoginFinds mailFormats plainCrypto twoRegistered.2.1 "a@example.org" (registrant "2") :=
    ⟨registrantAmbient "3", plainText 16, mailLogin.1, registrant "3", login, hrun, hnew, hsession, hu⟩
  have hfinds' : RecoveryFinds mailFormats plainCrypto twoRegistered.2.1 "a@example.org" (registrant "1") :=
    ⟨registrantAmbient "3", plainText 16, mailRecovery.1, registrant "3", plainText 43, registrant "3",
      .v2 plainRecoveryPacket, plainText 43, challenge, hrun', hchallenge, hv⟩
  exact absurd ((hall _ _ _ twoRegistered_reach).1 _ _ _ hfinds hfinds') (by decide)

end ZeroVault

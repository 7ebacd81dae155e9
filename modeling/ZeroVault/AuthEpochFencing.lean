import ZeroVault.RecoverySound

/-!
# Auth-epoch fencing

`epoch_fenced`: a session the middleware accepts was minted by a login that
started after the last recovery of its user, and a device registration under an
epoch that has passed writes nothing. Every insertion repeats the check of the
epoch inside its own transaction.
-/

namespace ZeroVault

open Lib

section
variable {q : AccountStmt} {s s' : Db} {id : String}

theorem epochHolds_iff {u : UserId} {n : Nat} : epochHolds s u (some n) = true ↔ s.authEpoch u = some n := by
  unfold epochHolds Db.authEpoch
  cases s.users.get? u with
  | none => simp
  | some row => simp [eq_comm]

theorem exec_newLogin (h : q.exec s = some s') {row : LoginSessionRow} (hr : s'.loginSessions.get? id = some row)
    (hn : s.loginSessions.get? id ≠ some row) :
    q = .logins (.insertAtEpoch id row) ∧ s.authEpoch row.userId = some row.authEpoch := by
  by_cases ht : q.table = .logins
  · cases q with
    | logins r =>
      have hx := exec_logins h
      cases r with
      | insertAtEpoch id' row' =>
        simp only [LoginStmt.exec] at hx
        split at hx
        · rename_i he
          rw [Table.get?_insert hx] at hr
          split at hr
          · rename_i hid; cases hr; subst hid; exact ⟨rfl, epochHolds_iff.mp he⟩
          · exact absurd hr hn
        · rw [← Option.some.inj hx] at hr; exact absurd hr hn
      | delete id' =>
        rw [← Option.some.inj hx, Table.get?_erase] at hr
        split at hr
        · cases hr
        · exact absurd hr hn
      | deleteOf u =>
        rw [← Option.some.inj hx, Table.get?_deleteWhere, Option.filter_eq_some_iff] at hr
        exact absurd hr.1 hn
    | _ => cases ht
  · rw [(exec_frame h).logins ht] at hr; exact absurd hr hn

theorem insertSession_new {id' : String} {row row' : SessionRow} {t : Table String SessionRow}
    (h : insertSession s id' row' = some t) (hr : t.get? id = some row) (hn : s.sessions.get? id ≠ some row) :
    id' = id ∧ row' = row := by
  unfold insertSession at h
  split at h
  · cases h
  split at h
  · rw [Table.get?_insert h] at hr
    split at hr
    · rename_i hid; exact ⟨hid.symm, Option.some.inj hr⟩
    · exact absurd hr hn
  · cases h

/-- The statements that insert a session; but for the bootstrap's they look at
the epoch. -/
theorem exec_newSession (h : q.exec s = some s') {row : SessionRow} (hr : s'.sessions.get? id = some row)
    (hn : s.sessions.get? id ≠ some row) :
    q = .sessions (.insert id row) ∨
      (q = .sessions (.insertAtEpoch id row) ∨ ∃ d, q = .sessions (.insertForDevice id d row)) ∧
        s.authEpoch row.userId = some row.authEpoch := by
  by_cases ht : q.table = .sessions
  · cases q with
    | sessions r =>
      have hx := exec_sessions h
      cases r with
      | insert id' row' =>
        obtain ⟨rfl, rfl⟩ := insertSession_new hx hr hn
        exact .inl rfl
      | insertAtEpoch id' row' =>
        simp only [SessionStmt.exec] at hx
        split at hx
        · obtain ⟨rfl, rfl⟩ := insertSession_new hx hr hn
          exact .inr ⟨.inl rfl, epochHolds_iff.mp ‹_›⟩
        · rw [← Option.some.inj hx] at hr; exact absurd hr hn
      | insertForDevice id' d row' =>
        simp only [SessionStmt.exec] at hx
        split at hx
        · rename_i he
          obtain ⟨rfl, rfl⟩ := insertSession_new hx hr hn
          exact .inr ⟨.inr ⟨d, rfl⟩, epochHolds_iff.mp (Bool.and_eq_true_iff.mp he).1⟩
        · rw [← Option.some.inj hx] at hr; exact absurd hr hn
      | deleteReplaced u d id' epoch =>
        simp only [SessionStmt.exec] at hx
        split at hx
        · rw [← Option.some.inj hx, Table.get?_deleteWhere, Option.filter_eq_some_iff] at hr
          exact absurd hr.1 hn
        · rw [← Option.some.inj hx] at hr; exact absurd hr hn
      | deleteByToken _ | deleteOf _ | deleteOfDevice _ _ _ =>
        rw [← Option.some.inj hx, Table.get?_deleteWhere, Option.filter_eq_some_iff] at hr
        exact absurd hr.1 hn
    | _ => cases ht
  · exact absurd ((exec_frame h).noNewSession ht id row hr) hn

end

/-! ## Transactions that start logins and mint sessions -/

def Mints (e : Step Db (Access AccountStmt)) (id : String) (row : SessionRow) : Prop :=
  ∃ stmts, e.label = .commit stmts ∧
    (.sessions (.insertAtEpoch id row) ∈ stmts ∨ ∃ d, .sessions (.insertForDevice id d row) ∈ stmts)

section
variable {K : Crypto} {c : AccountCall} {tr : AccountTrace} {stmts : List AccountStmt} {b a : Db} {id : String}

theorem transacts_newLogin (ht : Transacts K c tr stmts) (hx : execAll AccountStmt.exec stmts b = some a)
    {row : LoginSessionRow} (hr : a.loginSessions.get? id = some row) (hn : b.loginSessions.get? id ≠ some row) :
    (∃ A email request, c = .loginStart A email request) ∧ stmts = [.logins (.insertAtEpoch id row)] ∧
      b.authEpoch row.userId = some row.authEpoch := by
  obtain ⟨pre, q, post, m, m', rfl, hpre, hq, hm, hm'⟩ :=
    execAll_appears AccountStmt.exec (P := fun s => s.loginSessions.get? id = some row) hx hn hr
  obtain ⟨rfl, he⟩ := exec_newLogin hq hm' hm
  have hmem : .logins (.insertAtEpoch id row) ∈ pre ++ .logins (.insertAtEpoch id row) :: post := by simp
  generalize hs : pre ++ .logins (.insertAtEpoch id row) :: post = stmts at *
  cases ht with
  | startLogin id' row' =>
    simp only [List.mem_singleton, AccountStmt.logins.injEq, LoginStmt.insertAtEpoch.injEq] at hmem
    obtain ⟨rfl, rfl⟩ := hmem
    obtain rfl : pre = [] := by
      cases pre with
      | nil => rfl
      | cons p pre => simp at hs
    cases hpre
    exact ⟨⟨_, _, _, rfl⟩, rfl, he⟩
  | registerLogin _ _ _ _ _ _ _ hreg =>
    cases hreg <;> simp [insertDeviceStmt, replaceDeviceStmts, updateDeviceStmts] at hmem
  | registerPost _ _ _ _ hreg =>
    cases hreg <;> simp [insertDeviceStmt, replaceDeviceStmts, updateDeviceStmts] at hmem
  | createAccount => simp [mobileAccountStmts] at hmem
  | rotateSession => simp [rotateStmts] at hmem
  | withdraw => simp [withdrawStmts] at hmem
  | approve => simp [approveStmts] at hmem
  | migrateRecovery => simp [migrateStmts] at hmem
  | rotateRecovery => simp [rotateRecoveryStmts] at hmem
  | finishRecovery => simp [finishRecoveryStmts] at hmem
  | _ => simp at hmem

theorem transacts_newSession (ht : Transacts K c tr stmts) (hx : execAll AccountStmt.exec stmts b = some a)
    {row : SessionRow} (hr : a.sessions.get? id = some row) (hn : b.sessions.get? id ≠ some row)
    (hu : b.users.contains row.userId = true) :
    ∃ A client path loginId request device, c = .loginFinish A client path loginId request device ∧
      LoggedIn loginId row.userId row.authEpoch tr ∧
      (.sessions (.insertAtEpoch id row) ∈ stmts ∨ ∃ d, .sessions (.insertForDevice id d row) ∈ stmts) := by
  obtain ⟨pre, q, post, m, m', rfl, hpre, hq, hm, hm'⟩ :=
    execAll_appears AccountStmt.exec (P := fun s => s.sessions.get? id = some row) hx hn hr
  have hnew := exec_newSession hq hm' hm
  have hmem : q ∈ pre ++ q :: post := by simp
  generalize pre ++ q :: post = stmts at *
  -- the bootstrap mints a session too, but of a user that was not there
  cases ht with
  | createSession id' row' hl =>
    obtain rfl := List.mem_singleton.mp hmem
    rcases hnew with hq | ⟨hq | ⟨d, hq⟩, -⟩
    · cases hq
    · cases hq; exact ⟨_, _, _, _, _, _, rfl, hl, .inl hmem⟩
    · cases hq
  | rotateSession id' d row' hl =>
    rcases hnew with rfl | ⟨rfl | ⟨d, rfl⟩, -⟩
    · simp [rotateStmts] at hmem
    · simp [rotateStmts] at hmem
    · have := hmem
      simp only [rotateStmts, List.mem_cons, AccountStmt.sessions.injEq, SessionStmt.insertForDevice.injEq,
        reduceCtorEq, List.not_mem_nil, or_false] at this
      obtain ⟨rfl, rfl, rfl⟩ := this
      exact ⟨_, _, _, _, _, _, rfl, hl, .inr ⟨d, hmem⟩⟩
  | createAccount device hash tokenHash csrf expiresAt =>
    obtain ⟨v, hv⟩ := Table.contains_eq_true.mp hu
    rcases hnew with rfl | ⟨rfl | ⟨d, rfl⟩, -⟩
    · simp only [mobileAccountStmts, List.mem_cons, AccountStmt.sessions.injEq, SessionStmt.insert.injEq,
        reduceCtorEq, List.not_mem_nil, or_false, false_or] at hmem
      obtain ⟨rfl, rfl⟩ := hmem
      obtain ⟨s₁, hins, -⟩ := (execAll_cons _).mp hx
      rw [users_insert (exec_users hins)] at hv; cases hv
    · simp [mobileAccountStmts] at hmem
    · simp [mobileAccountStmts] at hmem
  | registerLogin _ _ _ _ _ _ _ hreg | registerPost _ _ _ _ hreg =>
    cases hreg <;> rcases hnew with rfl | ⟨rfl | ⟨d, rfl⟩, -⟩ <;>
      simp [insertDeviceStmt, replaceDeviceStmts, updateDeviceStmts] at hmem
  | _ =>
    rcases hnew with rfl | ⟨rfl | ⟨d, rfl⟩, -⟩ <;>
      simp [withdrawStmts, approveStmts, migrateStmts, rotateRecoveryStmts, finishRecoveryStmts] at hmem

end

/-! ## Registrations under an epoch that has passed -/

theorem registers_stale {A : Ambient} {u : UserId} {device : TrustedDevice} {hash : Option String} {epoch : Nat}
    {stmts : List AccountStmt} {b : Db} (hreg : Registers A u device hash (some epoch) stmts)
    (hs : b.authEpoch u ≠ some epoch) : execAll AccountStmt.exec stmts b = some b := by
  have he : epochHolds b u (some epoch) = false := by
    rw [← Bool.not_eq_true, epochHolds_iff]; exact hs
  have hdev : setDevices b b.trustedDevices = b := by
    unfold setDevices
    rw [Table.deleteWhere_eq_self fun _ row _ => by cases row.deviceId <;> simp]
  have hdelete : ∀ p : DeviceId → TrustedDeviceRow → Bool, (∀ k r, p k r = false) →
      setDevices b (b.trustedDevices.deleteWhere p) = b := fun p hp => by
    rw [Table.deleteWhere_eq_self fun k r _ => hp k r, hdev]
  have hinsert : ∀ id row, TrustedDeviceRow.userId row = u →
      AccountStmt.exec (.devices (.insertAtEpoch id row (some epoch))) b = some b := fun id row hu => by
    simp only [AccountStmt.exec, DeviceStmt.exec, hu, he, Bool.false_eq_true, if_false, Option.map_some, hdev]
  have hsessions : ∀ d, AccountStmt.exec (.sessions (.deleteOfDevice u d (.atEpoch (some epoch)))) b = some b :=
    fun d => by
      simp only [AccountStmt.exec, SessionStmt.exec, Option.map_some, Guard.holds, he, Bool.and_false]
      rw [Table.deleteWhere_eq_self fun _ _ _ => rfl]
  have hkeys : ∀ d, AccountStmt.exec (.vaultKeys (.delete u d (.atEpoch (some epoch)))) b = some b := fun d => by
    simp only [AccountStmt.exec, VaultKeyStmt.exec, Option.map_some, Guard.holds, he, Bool.and_false]
    rw [Table.deleteWhere_eq_self fun _ _ _ => rfl]
  refine execAll_fixed _ fun q hq => ?_
  -- every statement of a registration asks for the epoch, so none does anything
  cases hreg with
  | insert =>
    rw [List.mem_singleton.mp hq]
    exact hinsert _ _ rfl
  | replace existingId =>
    simp only [replaceDeviceStmts, List.mem_cons, List.not_mem_nil, or_false] at hq
    rcases hq with rfl | rfl | rfl | rfl
    · exact hsessions _
    · exact hkeys _
    · simp only [AccountStmt.exec, DeviceStmt.exec, Option.map_some]
      rw [hdelete _ fun _ _ => by simp [he]]
    · exact hinsert _ _ rfl
  | update existingId nextStatus reset _ =>
    simp only [updateDeviceStmts, List.mem_append, List.mem_cons, List.not_mem_nil, or_false] at hq
    rcases hq with (rfl | rfl) | hq
    · simp only [AccountStmt.exec, DeviceStmt.exec, Option.map_some]
      rw [hdelete _ fun _ _ => by simp [he]]
    · simp only [AccountStmt.exec, DeviceStmt.exec, he]
      split <;> simp [hdev]
    · split at hq
      · simp only [List.mem_cons, List.not_mem_nil, or_false] at hq
        rcases hq with rfl | rfl
        · exact hsessions _
        · exact hkeys _
      · cases hq

/-! ## Whole runs -/

/-- The account exists and nobody is logged in or logging in. -/
structure LoggedOut (u : UserId) (s : Db) : Prop where
  account : s.users.contains u = true
  sessions : ∀ id row n, s.sessions.get? id = some row → row.userId = u → s.authEpoch u = some n → row.authEpoch < n
  logins : ∀ id row n, s.loginSessions.get? id = some row → row.userId = u → s.authEpoch u = some n →
    row.authEpoch < n

def NoRecovery (u : UserId) (h : History AccountCall Db (Access AccountStmt)) : Prop :=
  ∀ i c e q, .step i c e ∈ h → Finishes e q → q.userId ≠ u

def StartsLogin (c : AccountCall) (e : Step Db (Access AccountStmt)) (id : String) (row : LoginSessionRow) : Prop :=
  (∃ A email request, c = .loginStart A email request) ∧ e.label = .commit [.logins (.insertAtEpoch id row)]

theorem accepted_current {K : Crypto} {A : Ambient} {cred : Credentials} {s : Db} {session : SessionData}
    (h : ((sessionMiddleware K A cred).run s).2 = .ok (some session)) :
    s.sessions.get? session.id = some session.row ∧ s.authEpoch session.row.userId = some session.row.authEpoch := by
  unfold sessionMiddleware read at h
  dsimp only at h
  rw [TryProg.run_read_bind] at h
  split at h
  · cases h
  rename_i id row status hrow
  split at h
  · rw [TryProg.run_bind] at h
    split at h <;> cases h
  split at h
  · cases h
  · cases h
    unfold sessionRow sessionByTokenHash at hrow
    obtain ⟨r, hr, hpair⟩ := Option.map_eq_some_iff.mp hrow
    cases hpair
    obtain ⟨hget, hmatch⟩ := Table.mem_select.mp (List.mem_of_head? hr)
    simp only [Bool.and_eq_true, decide_eq_true_eq, Option.any_eq_true] at hmatch
    obtain ⟨-, user, huser, hepoch⟩ := hmatch
    exact ⟨hget, by rw [Db.authEpoch, huser, Option.map_some, hepoch]⟩

section
variable {F : Formats} {K : Crypto} {s₀ s : Db} {h h₁ h₂ : History AccountCall Db (Access AccountStmt)}
variable {ps : List (Proc AccountCall Db (Access AccountStmt) (Except AccountError AccountResult))}
variable {i : Nat} {c : AccountCall} {e : Step Db (Access AccountStmt)} {u : UserId} {n : Nat}

/-- A login session of the current epoch was started by a login in the run. -/
theorem login_started (hr : Reach (AccountCall.code F K) (fun _ => True) s₀ h s ps) (hout : LoggedOut u s₀)
    {id : String} {row : LoginSessionRow} (hrow : s.loginSessions.get? id = some row) (hu : row.userId = u)
    (hn : s₀.authEpoch u = some n) (hle : n ≤ row.authEpoch) :
    ∃ h₁ j c e h₂, h = h₁ ++ .step j c e :: h₂ ∧ StartsLogin c e id row ∧ e.before.authEpoch u = some row.authEpoch := by
  have h0 : s₀.loginSessions.get? id ≠ some row := fun h0 => by
    have := hout.logins id row n h0 hu hn; omega
  obtain ⟨h₁, j, c, e, h₂, rfl, hb, ha⟩ := reach_appears (p := fun s => s.loginSessions.get? id = some row) hr h0 hrow
  obtain ⟨-, -, hg⟩ := reach_step (fun c _ => AccountCall.sat F K c) hr
  rcases hg.cases with ⟨stmts, hl, hx, ht⟩ | ⟨-, heq⟩
  · obtain ⟨hc, rfl, he⟩ := transacts_newLogin ht hx ha hb
    exact ⟨h₁, j, c, e, h₂, rfl, ⟨hc, hl⟩, hu ▸ he⟩
  · rw [heq] at ha; exact absurd ha hb

/-- A session of the current epoch was minted by a login finish in the run, which
had read the login session. -/
theorem session_minted (hr : Reach (AccountCall.code F K) (fun _ => True) s₀ h s ps) (hout : LoggedOut u s₀)
    {id : String} {row : SessionRow} (hrow : s.sessions.get? id = some row) (hu : row.userId = u)
    (hn : s₀.authEpoch u = some n) (hle : n ≤ row.authEpoch) :
    ∃ h₁ j A client path loginId request device e h₂,
      h = h₁ ++ .step j (.loginFinish A client path loginId request device) e :: h₂ ∧ Mints e id row ∧
      LoggedIn loginId u row.authEpoch (own j h₁) := by
  have h0 : s₀.sessions.get? id ≠ some row := fun h0 => by
    have := hout.sessions id row n h0 hu hn; omega
  obtain ⟨h₁, j, c, e, h₂, rfl, hb, ha⟩ := reach_appears (p := fun s => s.sessions.get? id = some row) hr h0 hrow
  obtain ⟨-, hbefore, hg⟩ := reach_step (fun c _ => AccountCall.sat F K c) hr
  obtain ⟨ps₁, hr₁⟩ := reach_prefix hr
  have hadv : Advances s₀ e.before := by
    have := (show Along Advances s₀ ([] ++ h₁) from along_advances hr₁).last
    rw [hbefore]; exact this
  have hhere : e.before.users.contains row.userId = true := by
    obtain ⟨urow, hurow⟩ := Table.contains_eq_true.mp hout.account
    obtain ⟨urow', hurow', -⟩ := hadv.users u urow hurow
    rw [hu]; exact Table.contains_eq_true.mpr ⟨urow', hurow'⟩
  rcases hg.cases with ⟨stmts, hl, hx, ht⟩ | ⟨-, heq⟩
  · obtain ⟨A, client, path, loginId, request, device, rfl, hlog, hmint⟩ := transacts_newSession ht hx ha hb hhere
    exact ⟨h₁, j, A, client, path, loginId, request, device, e, h₂, rfl, ⟨stmts, hl, hmint⟩, hu ▸ hlog⟩
  · rw [heq] at ha; exact absurd ha hb

/-- As long as the epoch of a login is current, no recovery has passed it. -/
theorem noRecovery_since (hr : Reach (AccountCall.code F K) (fun _ => True) s₀ (h₁ ++ .step i c e :: h₂) s ps)
    (hb : e.before.authEpoch u = some n) (hs : s.authEpoch u = some n) : NoRecovery u h₂ := by
  rintro j c' x q hx hf rfl
  obtain ⟨a, b, rfl⟩ := List.append_of_mem hx
  have halong := along_advances hr
  have hsplit : h₁ ++ .step i c e :: (a ++ .step j c' x :: b) = h₁ ++ (.step i c e :: a) ++ .step j c' x :: b := by
    simp
  have hr' := hr
  rw [hsplit] at hr'
  obtain ⟨-, hxb, -⟩ := reach_step (fun c _ => AccountCall.sat F K c) hr'
  obtain ⟨-, heb, -⟩ := reach_step (fun c _ => AccountCall.sat F K c) hr
  obtain ⟨A, request, signature, user, challenge, -, rfl, -, -, hexec⟩ := finishes_step hr' hf
  obtain ⟨m, hm, hm'⟩ := finish_epoch hexec
  have hbefore : Advances e.before x.before := by
    rw [heb, hxb]; exact halong _ _ _ hsplit
  have hafter : Advances x.after s := by
    rw [hsplit, show h₁ ++ (Event.step i c e :: a) ++ .step j c' x :: b =
      h₁ ++ (.step i c e :: a) ++ .step j c' x :: b ++ [] by simp] at halong
    have := halong.since
    rwa [← hsplit, reach_store hr] at this
  obtain ⟨m₁, hm₁, hle₁⟩ := hbefore.authEpoch hb
  obtain ⟨m₂, hm₂, hle₂⟩ := hafter.authEpoch hm'
  have h1 : m₁ = m := Option.some.inj (hm₁.symm.trans hm)
  have h2 : m₂ = n := Option.some.inj (hm₂.symm.trans hs)
  omega

/-- Accepted sessions come from logins begun after the last recovery, and stale
device registrations write nothing. -/
theorem epoch_fenced (hout : LoggedOut u s₀) (hr : Reach (AccountCall.code F K) (fun _ => True) s₀ h s ps) :
    (∀ A cred session, ((sessionMiddleware K A cred).run s).2 = .ok (some session) → session.row.userId = u →
      ∃ h₁ h₂ h₃ j c' e' loginId login i A' client path request device e,
        h = h₁ ++ .step j c' e' :: (h₂ ++ .step i (.loginFinish A' client path loginId request device) e :: h₃) ∧
        StartsLogin c' e' loginId login ∧ login.userId = u ∧ Mints e session.id session.row ∧
        NoRecovery u (h₂ ++ .step i (.loginFinish A' client path loginId request device) e :: h₃)) ∧
    (∀ i c e stmts A device hash epoch, .step i c e ∈ h → e.label = .commit stmts →
      Registers A u device hash (some epoch) stmts → e.before.authEpoch u ≠ some epoch → e.after = e.before) ∧
    ∀ A device hash epoch tr, TrySat AccountStmt.exec (fun _ stmts => Registers A u device hash epoch stmts)
      (fun _ _ => True) (registerDevice A u device hash epoch) tr := by
  refine ⟨fun A cred session hacc hu => ?_, fun i c e stmts A device hash epoch he hl hreg hstale => ?_,
    fun A device hash epoch tr => registerDevice_sat fun _ _ _ hreg _ => hreg⟩
  · obtain ⟨hget, hepoch⟩ := accepted_current hacc
    rw [hu] at hepoch
    obtain ⟨urow, hurow⟩ := Table.contains_eq_true.mp hout.account
    have hn : s₀.authEpoch u = some urow.authEpoch := by rw [Db.authEpoch, hurow]; rfl
    have hfrom : Advances s₀ s := by
      have := (show Along Advances s₀ ([] ++ h) from along_advances hr).last
      rwa [List.nil_append, reach_store hr] at this
    obtain ⟨m, hm, hle⟩ := hfrom.authEpoch hn
    obtain rfl : m = session.row.authEpoch := Option.some.inj (hm.symm.trans hepoch)
    obtain ⟨h₁, j, A', client, path, loginId, request, device, e, h₂, rfl, hmint, sr, hread, login, hlogin, hlu, hle'⟩ :=
      session_minted hr hout hget hu hn hle
    obtain ⟨c'', hc''⟩ := mem_own.mp hread
    obtain ⟨a, b, rfl⟩ := List.append_of_mem hc''
    obtain ⟨ps₁, hr₁⟩ := reach_prefix hr
    obtain ⟨-, hsr, -⟩ := reach_step (fun c _ => AccountCall.sat F K c) hr₁
    obtain ⟨ps₂, hr₂⟩ := reach_prefix hr₁
    rw [← hsr] at hr₂
    obtain ⟨a₁, k, c', e', a₂, rfl, hstart, hstartEpoch⟩ :=
      login_started hr₂ hout hlogin hlu hn (hle'.symm ▸ hle)
    refine ⟨a₁, a₂ ++ .step j c'' (readStep sr) :: b, h₂, k, c', e', loginId, login, j, A', client, path, request,
      device, e, by simp, hstart, hlu, hmint, ?_⟩
    have hr' : Reach (AccountCall.code F K) (fun _ => True) s₀ (a₁ ++ .step k c' e' ::
        (a₂ ++ .step j c'' (readStep sr) :: b ++ .step j (.loginFinish A' client path loginId request device) e :: h₂))
        s ps := by simpa using hr
    simpa using noRecovery_since hr' hstartEpoch (hle'.symm ▸ hepoch)
  · obtain ⟨h₁, h₂, rfl⟩ := List.append_of_mem he
    obtain ⟨-, -, hg⟩ := reach_step (fun c _ => AccountCall.sat F K c) hr
    rcases hg.cases with ⟨stmts', hl', hx, -⟩ | ⟨hno, -⟩
    · cases hl.symm.trans hl'
      rw [registers_stale hreg hstale] at hx
      exact (Option.some.inj hx).symm
    · exact absurd hl (hno stmts)

end

/-! ## A login of the sample account -/

def settledStore : Db where
  users := (∅ : Table UserId UserRow).set sampleOwner sampleOwnerRow

def sampleLoginAmbient : Ambient := ⟨fun _ => 1000, fun _ => "0b8f8ed0-4c1a-4e0e-9d5e-0d1c5a0a0031"⟩

def startedStore : Db := { recoveringStore with sessions := ∅ }

def recoveryThenLogin : Play AccountCall Db (Access AccountStmt) (Except AccountError AccountResult) :=
  play (AccountCall.code plainFormats plainCrypto) startedStore
    (.issue sampleFinish :: List.replicate 6 (.step 0) ++
      [.issue (.loginStart sampleLoginAmbient "a@example.org" "record"), .step 1, .step 1,
        .issue (.loginFinish sampleLoginAmbient ⟨none, none⟩ .login (sampleLoginAmbient.random "id") "record"
          sampleRecovery.device.toMobileDeviceLogin)] ++ List.replicate 4 (.step 2))

theorem recoveryThenLogin_reach : Reach (AccountCall.code plainFormats plainCrypto) (fun _ => True) startedStore
    recoveryThenLogin.1 recoveryThenLogin.2.1 recoveryThenLogin.2.2 := by
  unfold recoveryThenLogin
  exact play_reach fun _ _ => trivial

theorem startedStore_loggedOut : LoggedOut sampleOwner startedStore where
  account := by decide +kernel
  sessions id row n h := by simp [startedStore] at h
  logins id row n h := by simp [startedStore, recoveringStore] at h

def loginSession : SessionData :=
  ⟨sampleLoginAmbient.random "id", ⟨sampleOwner, sampleLoginAmbient.random "token", sampleLoginAmbient.random "csrf",
    none, 5, 1209601000, 1000⟩, .cookie, none⟩

/-- `epoch_fenced` at that session: its login started after the recovery. -/
theorem epoch_fenced_recoveryThenLogin : ∃ h₁ j c e id login h₂,
    recoveryThenLogin.1 = h₁ ++ .step j c e :: h₂ ∧ StartsLogin c e id login ∧
      ∃ i c' e' q, .step i c' e' ∈ h₁ ∧ Finishes e' q ∧ q.userId = sampleOwner := by
  obtain ⟨haccepted, hrecovered⟩ : ((sessionMiddleware plainCrypto plainAmbient
      ⟨sampleLoginAmbient.random "token", .cookie⟩).run recoveryThenLogin.2.1).2 = .ok (some loginSession) ∧
      (own 0 recoveryThenLogin.1).any (fun e => recovers e.label == some (true, sampleOwner)) = true := by
    decide +kernel
  obtain ⟨e', he', hlabel⟩ := List.any_eq_true.mp hrecovered
  obtain ⟨q, stmts, hcommit, hu⟩ := recovers_commit (beq_iff_eq.mp hlabel)
  have hfinish : Finishes e' q := ⟨_, hcommit, List.mem_cons_self⟩
  obtain ⟨c', hc'⟩ := mem_own.mp he'
  obtain ⟨h₁, h₂, h₃, j, c, e, id, login, i, A, client, path, request, device, f, hh, hstart, -, -, hlater⟩ :=
    (epoch_fenced startedStore_loggedOut recoveryThenLogin_reach).1 _ _ _ haccepted rfl
  refine ⟨h₁, j, c, e, id, login, _, hh, hstart, 0, c', e', q, ?_, hfinish, hu⟩
  rw [hh] at hc'
  rcases List.mem_append.mp hc' with hbefore | hafter
  · exact hbefore
  · rcases List.mem_cons.mp hafter with heq | hafter
    · cases heq
      cases hstart.2.symm.trans hcommit
    · exact absurd hu (hlater 0 c' e' q hafter hfinish)

end ZeroVault

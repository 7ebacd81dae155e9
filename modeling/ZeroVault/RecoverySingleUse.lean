import ZeroVault.RecoverySound

/-!
# A recovery is atomic and single-use

`recovery_atomic`: under every interleaving of the account routes, a committed
recovery leaves the account with the recovering device alone and moves its epoch
and generation on by one, no challenge and no epoch or generation of an account
is used by two of them, and a call whose recovery is rolled back changes nothing.
-/

namespace ZeroVault

open Lib

structure AfterRecovery (userId : UserId) (device : MobileDeviceKey) (b a : Db) : Prop where
  epoch : ∃ n, b.authEpoch userId = some n ∧ a.authEpoch userId = some (n + 1)
  generation : ∃ n, b.recoveryGeneration userId = some n ∧ a.recoveryGeneration userId = some (n + 1)
  noSession : ∀ id row, a.sessions.get? id = some row → row.userId ≠ userId
  noLogin : ∀ id row, a.loginSessions.get? id = some row → row.userId ≠ userId
  approved : ∃ row, a.trustedDevices.get? device.id = some row ∧ row.userId = userId ∧ row.status = .approved ∧
    row.publicKey = device.publicKey
  alone : ∀ d row, a.trustedDevices.get? d = some row → row.userId = userId → row.status.active = true → d = device.id
  keys : ∀ d, a.deviceVaultKeys.get? (userId, d) =
    if d = device.id then some (.packet device.encryptedVaultKeyPacket) else none

section
variable {A : Ambient} {user : StoredUser} {challengeId : String} {challenge : RecoveryChallengeRow}
variable {request : RecoveryFinishUnsignedRequest} {hash : String} {b a : Db}

theorem finish_afterRecovery
    (hx : execAll AccountStmt.exec (finishRecoveryStmts A user challengeId challenge request hash) b = some a) :
    AfterRecovery user.1 request.device b a := by
  have hr := finish_recovered hx
  obtain ⟨c, u, r, hc⟩ := finish_claimed hx
  refine ⟨finish_epoch hx, ⟨r.generation, ?_, ?_⟩, fun id row h => (hr.sessions id row h).2,
    fun id row h => (hr.logins id row h).2, ?_, ?_, fun d => ?_⟩
  · rw [Db.recoveryGeneration, show b.recoveryPackets.get? user.1 = some r from hc.record]; rfl
  · rw [Db.recoveryGeneration, hr.packets, show b.recoveryPackets.get? user.1 = some r from hc.record,
      Option.map_some, if_pos rfl]; rfl
  · obtain ⟨row, h, hu, hs, hk, -⟩ := hr.installed
    exact ⟨row, h, hu, hs, hk⟩
  · intro d row h hu hact
    by_contra hne
    rw [hr.revoked d hne] at h
    obtain ⟨old, hold, rfl⟩ := Option.map_eq_some_iff.mp h
    by_cases ho : old.userId = user.1
    · rw [if_pos ho] at hact; cases hact
    · rw [if_neg ho] at hu; exact ho hu
  · rw [hr.keys]
    by_cases hd : d = request.device.id <;> simp [hd]

end

section
variable {F : Formats} {K : Crypto} {s₀ s : Db} {h h₁ h₂ h₃ : History AccountCall Db (Access AccountStmt)}
variable {ps : List (Proc AccountCall Db (Access AccountStmt) (Except AccountError AccountResult))}
variable {i j : Nat} {c c' : AccountCall} {e e' : Step Db (Access AccountStmt)} {q q' : RecoveryEligibility}

theorem finishes_once
    (hr : Reach (AccountCall.code F K) (fun _ => True) s₀ (h₁ ++ .step i c e :: h₂ ++ .step j c' e' :: h₃) s ps)
    (hf : Finishes e q) (hf' : Finishes e' q') :
    q.challengeId ≠ q'.challengeId ∧ (q.userId = q'.userId →
      e.before.authEpoch q.userId ≠ e'.before.authEpoch q.userId ∧
      e.before.recoveryGeneration q.userId ≠ e'.before.recoveryGeneration q.userId) := by
  obtain ⟨A', request', sig', user', challenge', -, rfl, -, -, hx'⟩ := finishes_step hr hf'
  obtain ⟨A, request, sig, user, challenge, -, rfl, -, -, hx⟩ :=
    finishes_step (List.append_assoc .. ▸ hr) hf
  have hadv : Advances e.after e'.before := by
    obtain ⟨-, hb, -⟩ := reach_step (fun c _ => AccountCall.sat F K c) hr
    rw [hb]; exact (along_advances hr).since
  have hafter := finish_afterRecovery hx
  refine ⟨fun hid => ?_, fun hu => ⟨fun he => ?_, fun he => ?_⟩⟩
  · have hclaim := hadv.claims _ _ (finish_recovered hx).claimed
    have hfree := (finish_recovered hx').unclaimed
    rw [show request.recoveryAttemptId = request'.recoveryAttemptId from hid, hfree] at hclaim
    cases hclaim
  · obtain ⟨n, hn, hn'⟩ := hafter.epoch
    obtain ⟨m, hm, hle⟩ := hadv.authEpoch hn'
    rw [show (finishEligibility A user request.recoveryAttemptId challenge request.normalized).userId = user.1 from rfl,
      hn, hm] at he
    cases he; omega
  · obtain ⟨n, hn, hn'⟩ := hafter.generation
    obtain ⟨m, hm, hle⟩ := hadv.recoveryGeneration hn'
    rw [show (finishEligibility A user request.recoveryAttemptId challenge request.normalized).userId = user.1 from rfl,
      hn, hm] at he
    cases he; omega

/-- A call comes to its recovery with nothing but reads behind it. -/
theorem recovery_first (hr : Reach (AccountCall.code F K) (fun _ => True) s₀ h s ps) {t₁ t₂ : AccountTrace}
    (ho : own i h = t₁ ++ e :: t₂) {stmts : List AccountStmt}
    (hl : e.label = .commit stmts ∨ e.label = .abort stmts) (hq : .claimRecovery q ∈ stmts) :
    ReadsOnly t₁ ∧ ∃ p, ps[i]? = some p ∧ p.call.finishesRecovery = true := by
  obtain ⟨p, hp, hg⟩ := reach_own_step (fun c _ => AccountCall.sat F K c) hr ho
  obtain ⟨A, request, signature, user, challenge, hc, -, -, hro, -⟩ := transacts_claim (hg.ran hl) hq
  exact ⟨hro, p, hp, by rw [hc]; rfl⟩

theorem aborted_unchanged (hr : Reach (AccountCall.code F K) (fun _ => True) s₀ h s ps)
    {x y : Step Db (Access AccountStmt)} (hx : x ∈ own i h) (ha : Aborts x q) (hy : y ∈ own i h) :
    y.after = y.before := by
  obtain ⟨stmts, hl, hq⟩ := ha
  obtain ⟨t₁, t₂, ho⟩ := List.append_of_mem hx
  obtain ⟨hro, p, hp, hfin⟩ := recovery_first hr ho (.inr hl) hq
  have hguar : ∀ u₁ v u₂, own i h = u₁ ++ v :: u₂ → p.call.guar K u₁ v := by
    intro u₁ v u₂ hu
    obtain ⟨p', hp', hg⟩ := reach_own_step (fun c _ => AccountCall.sat F K c) hr hu
    cases hp.symm.trans hp'
    exact hg
  obtain ⟨u₁, u₂, hu⟩ := List.append_of_mem hy
  refine (hguar u₁ y u₂ hu).unchanged fun stmts' hcommit => ?_
  rw [ho] at hy
  rcases List.mem_append.mp hy with hy | hy
  · rw [hro y hy] at hcommit; cases hcommit
  rcases List.mem_cons.mp hy with rfl | hy
  · rw [hl] at hcommit; cases hcommit
  obtain ⟨a, b, rfl⟩ := List.append_of_mem hy
  have hpre : own i h = (t₁ ++ x :: a) ++ y :: b := by rw [ho]; simp
  have hno : ¬ ReadsOnly (t₁ ++ x :: a) := fun hall => by
    have := hall x (by simp)
    rw [hl] at this; cases this
  -- A later batch of the call would need a recovery committed before it.
  rcases transacts_finishing ((hguar _ _ _ hpre).ran (.inl hcommit)) hfin with ⟨q', hq'⟩ | ⟨z, hz, q', stmts', hcz, hqz⟩
  · exact hno (recovery_first hr hpre (.inl hcommit) hq').1
  rcases List.mem_append.mp hz with hz | hz
  · rw [hro z hz] at hcz; cases hcz
  rcases List.mem_cons.mp hz with rfl | hz
  · rw [hl] at hcz; cases hcz
  obtain ⟨a₁, a₂, rfl⟩ := List.append_of_mem hz
  have hprez : own i h = (t₁ ++ x :: a₁) ++ z :: (a₂ ++ y :: b) := by rw [ho]; simp
  have := (recovery_first hr hprez (.inl hcz) hqz).1 x (by simp)
  rw [hl] at this; cases this

/-- Recoveries are atomic and single-use. -/
theorem recovery_atomic (hr : Reach (AccountCall.code F K) (fun _ => True) s₀ h s ps) :
    (∀ i c e q, .step i c e ∈ h → Finishes e q → ∃ A request signature, c = .recoveryFinish A request signature ∧
      q.challengeId = request.recoveryAttemptId ∧ AfterRecovery q.userId request.device e.before e.after) ∧
    (∀ h₁ h₂ h₃ i c e q j c' e' q', h = h₁ ++ .step i c e :: h₂ ++ .step j c' e' :: h₃ → Finishes e q →
      Finishes e' q' → q.challengeId ≠ q'.challengeId ∧ (q.userId = q'.userId →
        e.before.authEpoch q.userId ≠ e'.before.authEpoch q.userId ∧
        e.before.recoveryGeneration q.userId ≠ e'.before.recoveryGeneration q.userId)) ∧
    ∀ i x q, x ∈ own i h → Aborts x q → ∀ y ∈ own i h, y.after = y.before := by
  refine ⟨fun i c e q he hf => ?_, fun h₁ h₂ h₃ i c e q j c' e' q' hh hf hf' => ?_, fun i x q hx ha y hy => ?_⟩
  · obtain ⟨h₁, h₂, rfl⟩ := List.append_of_mem he
    obtain ⟨A, request, signature, user, challenge, rfl, rfl, -, -, hx⟩ := finishes_step hr hf
    have hafter := finish_afterRecovery hx
    exact ⟨A, request, signature, rfl, rfl, hafter⟩
  · exact finishes_once (hh ▸ hr) hf hf'
  · exact aborted_unchanged hr hx ha hy

end

/-- `recovery_atomic` at two finishes of one challenge: the second to reach its
batch is rolled back. -/
theorem recovery_atomic_twoFinishes :
    (∃ e ∈ own 1 twoFinishes.1, ∃ device, AfterRecovery sampleOwner device e.before e.after) ∧
      ∀ y ∈ own 0 twoFinishes.1, y.after = y.before := by
  obtain ⟨hafter, -, hundone⟩ := recovery_atomic twoFinishes_reach
  obtain ⟨⟨e, he, q, hf, hq⟩, x, hx, q', ha⟩ := twoFinishes_ran
  obtain ⟨c, hc⟩ := mem_own.mp he
  obtain ⟨A, request, signature, -, -, h⟩ := hafter 1 c e q hc hf
  exact ⟨⟨e, he, request.device, hq ▸ h⟩, hundone 0 x q' hx ha⟩

end ZeroVault

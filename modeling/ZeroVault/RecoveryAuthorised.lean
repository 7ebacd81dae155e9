import ZeroVault.RecoverySound

/-!
# A recovery is authorised by the key in force

`recovery_authorised`: the key stored when a recovery commits has verified a
signature over the challenge's nonce and all that the recovery writes. The
signature was checked against an older read; the generation, which grows with
every change of the key, ties the two together.
-/

namespace ZeroVault

open Lib

structure WritesRequest (userId : UserId) (request : RecoveryFinishUnsignedRequest) (credentialHash : String) (a : Db) :
    Prop where
  account : ∃ user, a.users.get? userId = some user ∧ user.opaqueRegistrationRecord = request.registrationRecord ∧
    user.encryptedRecoveryPacket = .v2 request.newEncryptedRecoveryPacket
  packet : ∃ row, a.recoveryPackets.get? userId = some row ∧
    row.encryptedRecoveryPacket = .v2 request.newEncryptedRecoveryPacket ∧
    row.signingPublicKey = some request.newRecoverySigningPublicKey
  device : ∃ row, a.trustedDevices.get? request.device.id = some row ∧ row.userId = userId ∧
    row.publicKey = request.device.publicKey ∧ row.name = request.device.name ∧
    row.fingerprint = some request.device.fingerprint ∧ row.credentialHash = some credentialHash
  vaultKey : a.deviceVaultKeys.get? (userId, request.device.id) = some (.packet request.device.encryptedVaultKeyPacket)

/-- The signature of a request was verified by the key stored in `b`. -/
def SignedByStored (K : Crypto) (userId : UserId) (request : RecoveryFinishUnsignedRequest) (signature : String)
    (b : Db) : Prop :=
  ∃ challenge row key, b.recoveryChallenges.get? request.recoveryAttemptId = some challenge ∧
    challenge.userId = some userId ∧ challenge.authEpoch = b.authEpoch userId ∧
    challenge.recoveryGeneration = b.recoveryGeneration userId ∧
    b.recoveryPackets.get? userId = some row ∧ row.signingPublicKey = some key ∧
    buildRecoveryFinishTranscript challenge.nonce request = some (transcriptFields challenge.nonce request) ∧
    K.verifyEd25519 key signature (transcriptFields challenge.nonce request) = true

section
variable {A : Ambient} {user : StoredUser} {challengeId : String} {challenge : RecoveryChallengeRow}
variable {request : RecoveryFinishUnsignedRequest} {hash : String} {b a : Db}

theorem finish_writes
    (hx : execAll AccountStmt.exec (finishRecoveryStmts A user challengeId challenge request hash) b = some a) :
    WritesRequest user.1 request hash a := by
  have hr := finish_recovered hx
  obtain ⟨c, u, r, hc⟩ := finish_claimed hx
  constructor
  · rw [hr.users, show b.users.get? user.1 = some u from hc.account, Option.map_some, if_pos rfl]
    exact ⟨_, rfl, rfl, rfl⟩
  · rw [hr.packets, show b.recoveryPackets.get? user.1 = some r from hc.record, Option.map_some, if_pos rfl]
    exact ⟨_, rfl, rfl, rfl⟩
  · obtain ⟨row, h, hu, -, hk, hn, hf, hcred⟩ := hr.installed
    exact ⟨row, h, hu, hk, hn, hf, hcred⟩
  · rw [hr.keys, if_pos rfl]

end

theorem transcript_eq {challenge : String} {request : RecoveryFinishUnsignedRequest} {transcript : Transcript}
    (h : buildRecoveryFinishTranscript challenge request = some transcript) :
    transcript = transcriptFields challenge request := by
  unfold buildRecoveryFinishTranscript at h
  dsimp only at h
  split at h
  · exact (Option.some.inj h).symm
  · cases h

/-- What a call read earlier is still there, or has moved on. -/
theorem saw_advances {tr : AccountTrace} {p : Db → Prop} {s : Db} (hb : Before Advances tr s) (h : Saw p tr) :
    ∃ s', p s' ∧ Advances s' s := by
  obtain ⟨s', hs', hp⟩ := h
  exact ⟨s', hp, hb.now _ hs'⟩

section
variable {K : Crypto} {request : RecoveryFinishUnsignedRequest} {signature : String} {user : StoredUser}
variable {challenge : RecoveryChallengeRow} {tr : AccountTrace} {A : Ambient} {hash : String} {b a : Db}

/-- The generation the claim compares is the one the signature was checked
under, so the key is still that key. -/
theorem authorized_signed (hauth : Authorized K request signature user challenge tr) (hb : Before Advances tr b)
    (hx : execAll AccountStmt.exec (finishRecoveryStmts A user request.recoveryAttemptId challenge request hash) b =
      some a) : SignedByStored K user.1 request signature b := by
  obtain ⟨c, u, row, hc⟩ := finish_claimed hx
  obtain ⟨s₁, hread, hadv⟩ := saw_advances hb hauth.attempt
  have hsame : c = challenge := Option.some.inj (hc.attempt.symm.trans (hadv.challenges _ _ hread))
  subst hsame
  obtain ⟨key, record, transcript, hkey, hrec, hgen, ht, hvalid⟩ := hauth.signed
  obtain ⟨s₂, ⟨row₂, hrow₂, hkey₂, hgen₂⟩, hadv₂⟩ := saw_advances hb hrec
  obtain ⟨row', hrow', hsame⟩ := hadv₂.packets _ _ hrow₂
  have hrow : row' = row := Option.some.inj (hrow'.symm.trans hc.record)
  subst hrow
  have hg : row'.generation = row₂.generation := by
    rw [hgen₂]; exact Option.some.inj (hc.generation.symm.trans hgen)
  rcases hsame with rfl | hlt
  · cases transcript_eq ht
    refine ⟨c, row', key, hc.attempt, hc.owner, ?_, ?_, hc.record, hkey₂.trans hkey, ht, hvalid⟩
    · rw [hc.epoch, Db.authEpoch, show b.users.get? user.1 = some u from hc.account]; rfl
    · rw [hc.generation, Db.recoveryGeneration, show b.recoveryPackets.get? user.1 = some row' from hc.record]; rfl
  · omega

/-- A challenge was issued in no earlier epoch or generation than its own. -/
theorem issued_not_earlier {row : RecoveryChallengeRow} {u : UserId} (hi : Issued row tr) (hb : Before Advances tr b)
    (hu : row.userId = some u) :
    ∃ m n m' n', row.authEpoch = some m ∧ row.recoveryGeneration = some n ∧ b.authEpoch u = some m' ∧
      b.recoveryGeneration u = some n' ∧ m ≤ m' ∧ n ≤ n' := by
  obtain ⟨user, record, hepoch, hgen, huser, hrec⟩ := hi u hu
  obtain ⟨s₁, hread, hadv⟩ := saw_advances hb huser
  obtain ⟨s₂, ⟨prow, hprow, -, hg⟩, hadv₂⟩ := saw_advances hb hrec
  obtain ⟨m', hm, hle⟩ := hadv.authEpoch (n := user.authEpoch) (by rw [Db.authEpoch, hread]; rfl)
  obtain ⟨n', hn, hle'⟩ := hadv₂.recoveryGeneration (n := prow.generation) (by rw [Db.recoveryGeneration, hprow]; rfl)
  exact ⟨_, _, m', n', hepoch, hgen, hm, hn, hle, hg ▸ hle'⟩

theorem transacts_challenge {c : AccountCall} {stmts : List AccountStmt} (h : Transacts K c tr stmts) {id : String}
    {row : RecoveryChallengeRow} (hq : .insertChallenge id row ∈ stmts) :
    stmts = [.insertChallenge id row] ∧ Issued row tr := by
  cases h with
  | startRecovery id' row' hi =>
    simp only [List.mem_singleton, AccountStmt.insertChallenge.injEq] at hq
    obtain ⟨rfl, rfl⟩ := hq
    exact ⟨rfl, hi⟩
  | registerLogin _ _ _ _ _ _ _ hreg =>
    cases hreg <;> simp [insertDeviceStmt, replaceDeviceStmts, updateDeviceStmts] at hq
  | registerPost _ _ _ _ hreg =>
    cases hreg <;> simp [insertDeviceStmt, replaceDeviceStmts, updateDeviceStmts] at hq
  | createAccount => simp [mobileAccountStmts] at hq
  | rotateSession => simp [rotateStmts] at hq
  | withdraw => simp [withdrawStmts] at hq
  | approve => simp [approveStmts] at hq
  | migrateRecovery => simp [migrateStmts] at hq
  | rotateRecovery => simp [rotateRecoveryStmts] at hq
  | finishRecovery => simp [finishRecoveryStmts] at hq
  | _ => simp at hq

end

/-! ## Whole runs -/

/-- The access commits the challenge `id`. -/
def Issues (e : Step Db (Access AccountStmt)) (id : String) (row : RecoveryChallengeRow) : Prop :=
  ∃ stmts, e.label = .commit stmts ∧ .insertChallenge id row ∈ stmts

section
variable {F : Formats} {K : Crypto} {s₀ s : Db} {h h₁ h₂ h₃ : History AccountCall Db (Access AccountStmt)}
variable {ps : List (Proc AccountCall Db (Access AccountStmt) (Except AccountError AccountResult))}
variable {i j : Nat} {c c' : AccountCall} {e e' : Step Db (Access AccountStmt)} {q : RecoveryEligibility}

theorem finishes_signed (hr : Reach (AccountCall.code F K) (fun _ => True) s₀ h s ps) (he : .step i c e ∈ h)
    (hf : Finishes e q) : ∃ A request signature, c = .recoveryFinish A request signature ∧
      q.challengeId = request.recoveryAttemptId ∧ SignedByStored K q.userId request.normalized signature e.before ∧
      WritesRequest q.userId request.normalized (K.hashToken request.device.credential) e.after := by
  obtain ⟨h₁, h₂, rfl⟩ := List.append_of_mem he
  obtain ⟨A, request, signature, user, challenge, rfl, rfl, hauth, hb, hx⟩ := finishes_step hr hf
  have hsigned := authorized_signed hauth hb hx
  have hwrites := finish_writes hx
  exact ⟨A, request, signature, rfl, rfl, hsigned, hwrites⟩

/-- A challenge that a recovery uses was issued in the epoch and generation the
recovery finds. -/
theorem finishes_current (hr : Reach (AccountCall.code F K) (fun _ => True) s₀
      (h₁ ++ .step j c' e' :: h₂ ++ .step i c e :: h₃) s ps) {row : RecoveryChallengeRow}
    (hi : Issues e' q.challengeId row) (hf : Finishes e q) :
    e'.before.authEpoch q.userId = e.before.authEpoch q.userId ∧
      e'.before.recoveryGeneration q.userId = e.before.recoveryGeneration q.userId := by
  obtain ⟨A, request, signature, user, challenge, -, rfl, -, -, hx⟩ := finishes_step hr hf
  obtain ⟨-, hb, -⟩ := reach_step (fun c _ => AccountCall.sat F K c) hr
  -- epoch and generation only grow, and they are the challenge's at both ends
  have hsince : Advances e'.after e.before := hb ▸ (along_advances hr).since
  obtain ⟨c, u, r, hc⟩ := finish_claimed hx
  rw [List.append_assoc] at hr
  obtain ⟨-, hb', hg⟩ := reach_step (fun c _ => AccountCall.sat F K c) hr
  obtain ⟨ps₁, hr₁⟩ := reach_prefix hr
  obtain ⟨stmts, hl, hq⟩ := hi
  rcases hg.cases with ⟨stmts', hl', hx', ht⟩ | ⟨hno, -⟩
  · cases hl.symm.trans hl'
    obtain ⟨rfl, hissued⟩ := transacts_challenge ht hq
    obtain ⟨_, hins, ⟨⟩⟩ := (execAll_cons _).mp hx'
    have hsame : c = row := by
      have hput := Table.get?_insert (exec_challenge hins) (finishEligibility A user request.recoveryAttemptId challenge
        request.normalized).challengeId
      rw [if_pos rfl] at hput
      exact Option.some.inj (hc.attempt.symm.trans (hsince.challenges _ _ hput))
    subst hsame
    have hadv : Advances e'.before e.before := (batch_advances hx').trans hsince
    obtain ⟨m, n, m', n', hm, hn, hm', hn', hle, hle'⟩ :=
      issued_not_earlier hissued (hb' ▸ (along_advances hr₁).before hr₁ j) hc.owner
    have hnowEpoch : e.before.authEpoch user.1 = some u.authEpoch := by
      rw [Db.authEpoch, show e.before.users.get? user.1 = some u from hc.account]; rfl
    have hnowGen : e.before.recoveryGeneration user.1 = some r.generation := by
      rw [Db.recoveryGeneration, show e.before.recoveryPackets.get? user.1 = some r from hc.record]; rfl
    obtain ⟨m'', hm'', hlate⟩ := hadv.authEpoch hm'
    obtain ⟨n'', hn'', hlate'⟩ := hadv.recoveryGeneration hn'
    have hme : m = u.authEpoch := Option.some.inj (hm.symm.trans hc.epoch)
    have hne : n = r.generation := Option.some.inj (hn.symm.trans hc.generation)
    have hme'' : m'' = u.authEpoch := Option.some.inj (hm''.symm.trans hnowEpoch)
    have hne'' : n'' = r.generation := Option.some.inj (hn''.symm.trans hnowGen)
    refine ⟨?_, ?_⟩
    · rw [hm', hm'', show m' = m'' by omega]
    · rw [hn', hn'', show n' = n'' by omega]
  · exact absurd hl (hno stmts)

theorem key_generation (hr : Reach (AccountCall.code F K) (fun _ => True) s₀ (h₁ ++ h₂ ++ h₃) s ps) {u : UserId}
    {r r' : RecoveryPacketRow} (h : (storeAfter s₀ h₁).recoveryPackets.get? u = some r)
    (h' : (storeAfter s₀ (h₁ ++ h₂)).recoveryPackets.get? u = some r') (hk : r.signingPublicKey ≠ r'.signingPublicKey) :
    r.generation < r'.generation := by
  obtain ⟨row, hrow, hsame⟩ := (along_advances hr h₁ h₂ h₃ rfl).packets u r h
  cases hrow.symm.trans h'
  rcases hsame with rfl | hlt
  · exact absurd rfl hk
  · exact hlt

/-- Recoveries are authorised by the key in force when they commit. -/
theorem recovery_authorised (hr : Reach (AccountCall.code F K) (fun _ => True) s₀ h s ps) :
    (∀ i c e q, .step i c e ∈ h → Finishes e q → ∃ A request signature, c = .recoveryFinish A request signature ∧
      q.challengeId = request.recoveryAttemptId ∧ SignedByStored K q.userId request.normalized signature e.before ∧
      WritesRequest q.userId request.normalized (K.hashToken request.device.credential) e.after) ∧
    (∀ h₁ h₂ h₃ j c' e' row i c e q, h = h₁ ++ .step j c' e' :: h₂ ++ .step i c e :: h₃ →
      Issues e' q.challengeId row → Finishes e q →
      e'.before.authEpoch q.userId = e.before.authEpoch q.userId ∧
        e'.before.recoveryGeneration q.userId = e.before.recoveryGeneration q.userId) ∧
    ∀ h₁ h₂ h₃ u r r', h = h₁ ++ h₂ ++ h₃ → (storeAfter s₀ h₁).recoveryPackets.get? u = some r →
      (storeAfter s₀ (h₁ ++ h₂)).recoveryPackets.get? u = some r' → r.signingPublicKey ≠ r'.signingPublicKey →
      r.generation < r'.generation :=
  ⟨fun _ _ _ _ he hf => finishes_signed hr he hf, fun _ _ _ _ _ _ _ _ _ _ _ hh hi hf => finishes_current (hh ▸ hr) hi hf,
    fun _ _ _ _ _ _ hh h₁ h₂ hk => key_generation (hh ▸ hr) h₁ h₂ hk⟩

end

/-- `recovery_authorised` at the recovery that commits. -/
theorem recovery_authorised_twoFinishes :
    ∃ e ∈ own 1 twoFinishes.1, ∃ request signature,
      SignedByStored plainCrypto sampleOwner (RecoveryFinishUnsignedRequest.normalized request) signature e.before := by
  obtain ⟨⟨e, he, q, hf, hq⟩, -⟩ := twoFinishes_ran
  obtain ⟨c, hc⟩ := mem_own.mp he
  obtain ⟨A, request, signature, -, -, h, -⟩ := (recovery_authorised twoFinishes_reach).1 1 c e q hc hf
  exact ⟨e, he, request, signature, hq ▸ h⟩

end ZeroVault

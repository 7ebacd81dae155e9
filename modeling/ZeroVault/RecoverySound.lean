import ZeroVault.AccountStoreSound

/-!
# What a committed recovery does

`finish_recovered` runs the eleven statements of a recovery: what the claim
checked, and every table of the account afterwards.
-/

namespace ZeroVault

open Lib

def Db.authEpoch (db : Db) (userId : UserId) : Option Nat := (db.users.get? userId).map (·.authEpoch)

def Db.recoveryGeneration (db : Db) (userId : UserId) : Option Nat :=
  (db.recoveryPackets.get? userId).map (·.generation)

section
variable {s s' : Db} {u : UserId} {n : Nat}

theorem Advances.authEpoch (h : Advances s s') (hn : s.authEpoch u = some n) : ∃ m, s'.authEpoch u = some m ∧ n ≤ m := by
  obtain ⟨row, hrow, rfl⟩ := Option.map_eq_some_iff.mp hn
  obtain ⟨row', hrow', hle, -⟩ := h.users u row hrow
  exact ⟨_, by rw [Db.authEpoch, hrow']; rfl, hle⟩

theorem Advances.recoveryGeneration (h : Advances s s') (hn : s.recoveryGeneration u = some n) :
    ∃ m, s'.recoveryGeneration u = some m ∧ n ≤ m := by
  obtain ⟨row, hrow, rfl⟩ := Option.map_eq_some_iff.mp hn
  obtain ⟨row', hrow', hg⟩ := h.packets u row hrow
  refine ⟨_, by rw [Db.recoveryGeneration, hrow']; rfl, ?_⟩
  rcases hg with rfl | hlt
  · exact Nat.le_refl _
  · exact Nat.le_of_lt hlt

end

structure Claimed (q : RecoveryEligibility) (c : RecoveryChallengeRow) (user : UserRow) (row : RecoveryPacketRow)
    (b : Db) : Prop where
  attempt : b.recoveryChallenges.get? q.challengeId = some c
  account : b.users.get? q.userId = some user
  record : b.recoveryPackets.get? q.userId = some row
  owner : c.userId = some q.userId
  epoch : c.authEpoch = some user.authEpoch
  expected : user.authEpoch = q.authEpoch
  generation : c.recoveryGeneration = some row.generation
  expectedGeneration : q.recoveryGeneration = some row.generation
  version : row.protocolVersion = 2
  device : ∀ d, b.trustedDevices.get? q.deviceId = some d → d.userId = q.userId

theorem eligible_claimed {q : RecoveryEligibility} {b : Db} (h : q.eligible b = true) :
    ∃ c user row, Claimed q c user row b := by
  unfold RecoveryEligibility.eligible at h
  split at h
  · rename_i c user row hc hu hr
    simp only [Bool.and_eq_true, decide_eq_true_eq, Option.all_eq_true] at h
    obtain ⟨⟨⟨⟨⟨⟨⟨⟨⟨⟨⟨-, howner⟩, -⟩, hepoch⟩, hexp⟩, hgen⟩, hexpg⟩, hv⟩, -⟩, -⟩, -⟩, hdev⟩ := h
    refine ⟨c, user, row, hc, hu, hr, howner, hepoch, ?_, hgen, ?_, hv, fun d hd => hdev d hd⟩
    · rw [hepoch] at hexp; exact Option.some.inj hexp
    · rw [← hexpg, hgen]
  · cases h

structure Recovered (userId : UserId) (challengeId : String) (request : RecoveryFinishUnsignedRequest)
    (credentialHash : String) (now : Instant) (b a : Db) : Prop where
  unclaimed : b.recoveryClaims.get? challengeId = none
  claimed : a.recoveryClaims.get? challengeId = some ⟨userId⟩
  users : ∀ u, a.users.get? u = (b.users.get? u).map fun r => if u = userId then
    { r with
      opaqueRegistrationRecord := request.registrationRecord
      encryptedRecoveryPacket := .v2 request.newEncryptedRecoveryPacket
      authEpoch := r.authEpoch + 1 } else r
  packets : ∀ u, a.recoveryPackets.get? u = (b.recoveryPackets.get? u).map fun r => if u = userId then
    r.renew request.newEncryptedRecoveryPacket request.newRecoverySigningPublicKey else r
  sessions : ∀ id row, a.sessions.get? id = some row → b.sessions.get? id = some row ∧ row.userId ≠ userId
  logins : ∀ id row, a.loginSessions.get? id = some row → b.loginSessions.get? id = some row ∧ row.userId ≠ userId
  installed : ∃ row, a.trustedDevices.get? request.device.id = some row ∧ row.userId = userId ∧
    row.status = .approved ∧ row.publicKey = request.device.publicKey ∧ row.name = request.device.name ∧
    row.fingerprint = some request.device.fingerprint ∧ row.credentialHash = some credentialHash
  revoked : ∀ d, d ≠ request.device.id → a.trustedDevices.get? d = (b.trustedDevices.get? d).map fun r =>
    if r.userId = userId then { r with status := .revoked, credentialHash := none, updatedAt := now } else r
  keys : ∀ k, a.deviceVaultKeys.get? k = if k = (userId, request.device.id) then
    some (.packet request.device.encryptedVaultKeyPacket) else if k.1 = userId then none else b.deviceVaultKeys.get? k

section
variable {A : Ambient} {user : StoredUser} {challengeId : String} {challenge : RecoveryChallengeRow}
variable {request : RecoveryFinishUnsignedRequest} {hash : String} {b a : Db}

theorem install_devices {db : Db} {id : DeviceId} {row : TrustedDeviceRow} {t : Table DeviceId TrustedDeviceRow}
    (h : DeviceStmt.exec db (.install id row) = some t)
    (hown : ∀ d, db.trustedDevices.get? id = some d → d.userId = row.userId) :
    (∃ row', t.get? id = some row' ∧ row' = { row with createdAt := row'.createdAt }) ∧
      ∀ d, d ≠ id → t.get? d = db.trustedDevices.get? d := by
  simp only [DeviceStmt.exec, insertDevice, putDevice] at h
  cases hd : db.trustedDevices.get? id with
  | none =>
    simp only [hd] at h
    split at h
    · split at h
      · cases h
      · cases h
        exact ⟨⟨row, by rw [Table.get?_set, if_pos rfl], rfl⟩, fun d hne => by rw [Table.get?_set, if_neg hne]⟩
    · cases h
  | some old =>
    simp only [hd, if_pos (hown old hd)] at h
    split at h
    · cases h
    · cases h
      refine ⟨⟨_, by rw [Table.get?_set, if_pos rfl], ?_⟩, fun d hne => by rw [Table.get?_set, if_neg hne]⟩
      simp only [TrustedDeviceRow.reinstall, hown old hd]

theorem finish_recovered
    (hx : execAll AccountStmt.exec (finishRecoveryStmts A user challengeId challenge request hash) b = some a) :
    Recovered user.1 challengeId request hash (A.now "finishRecoveryV2") b a := by
  unfold finishRecoveryStmts at hx
  dsimp only at hx
  generalize A.now "finishRecoveryV2" = now at *
  -- the claim is inserted first, and only if the recovery is still allowed
  obtain ⟨s1, h1, hrest⟩ := (execAll_cons _).mp hx
  obtain ⟨he, hclaim⟩ := exec_claim h1
  obtain ⟨c, ur, row, hc⟩ := eligible_claimed he
  -- all devices are revoked before the recovering one is installed
  obtain ⟨m, m', hm, hrev, hpost⟩ := batch_split Db.trustedDevices (fun hf => hf.devices) [_, _, _, _, _, _, _, _] hx
    (by simp [AccountStmt.table])
  obtain ⟨m'', hi, hlast⟩ := (execAll_cons _).mp hpost
  have hdev : m'.trustedDevices = b.trustedDevices.updateWhere (fun _ r => r.userId = user.1) fun r =>
      { r with status := .revoked, credentialHash := none, updatedAt := now } := by
    rw [← hm]; exact (Option.some.inj (exec_devices hrev)).symm
  obtain ⟨hinst, hother⟩ := install_devices (exec_devices hi) (by
    intro d hd
    rw [hdev, Table.get?_updateWhere] at hd
    obtain ⟨d', hd', rfl⟩ := Option.map_eq_some_iff.mp hd
    have := hc.device d' hd'
    split <;> exact this)
  -- for each table the one statement that writes it, framed by the others
  constructor
  case unclaimed => exact Table.get?_of_insert hclaim
  case claimed =>
    rw [batch_frame Db.recoveryClaims (fun hf => hf.claims) hrest (by simp [AccountStmt.table]),
      Table.get?_insert hclaim, if_pos rfl]
  case users =>
    intro u
    obtain ⟨m, m', hm, hq, hpost⟩ := batch_split Db.users (fun hf => hf.users) [_, _] hx (by simp [AccountStmt.table])
    rw [batch_frame Db.users (fun hf => hf.users) hpost (by simp [AccountStmt.table]),
      ← Option.some.inj (exec_users hq), Table.get?_updateWhere, hm]
    refine Option.map_congr fun r hr => ?_
    by_cases hu : u = user.1
    · subst hu
      cases hr.symm.trans hc.account
      simp only [hc.expected, decide_true, Bool.and_self, if_true]
    · simp [hu]
  case packets =>
    intro u
    obtain ⟨m, m', hm, hq, hpost⟩ :=
      batch_split Db.recoveryPackets (fun hf => hf.packets) [_, _, _] hx (by simp [AccountStmt.table])
    rw [batch_frame Db.recoveryPackets (fun hf => hf.packets) hpost (by simp [AccountStmt.table]),
      ← Option.some.inj (exec_packets hq), Table.get?_updateWhere, hm]
    refine Option.map_congr fun r hr => ?_
    by_cases hu : u = user.1
    · subst hu
      cases hr.symm.trans hc.record
      have hgen : challenge.recoveryGeneration = some row.generation := hc.expectedGeneration
      simp [hgen, hc.version]
    · simp [hu]
  case sessions =>
    intro id r hr
    obtain ⟨m, hpre, hx⟩ := (execAll_append AccountStmt.exec).mp
      (show execAll AccountStmt.exec ([_, _, _, _] ++ _) b = some a from hx)
    obtain ⟨m', hq, hpost⟩ := (execAll_cons _).mp hx
    have hr' := batch_noNewSession hpost (by simp [AccountStmt.table]) hr
    rw [← Option.some.inj (exec_sessions hq), Table.get?_deleteWhere, Option.filter_eq_some_iff] at hr'
    exact ⟨batch_noNewSession hpre (by simp [AccountStmt.table]) hr'.1, by simpa using hr'.2⟩
  case logins =>
    intro id r hr
    obtain ⟨m, m', hm, hq, hpost⟩ :=
      batch_split Db.loginSessions (fun hf => hf.logins) [_, _, _, _, _] hx (by simp [AccountStmt.table])
    rw [batch_frame Db.loginSessions (fun hf => hf.logins) hpost (by simp [AccountStmt.table]),
      ← Option.some.inj (exec_logins hq), Table.get?_deleteWhere, Option.filter_eq_some_iff, hm] at hr
    exact ⟨hr.1, by simpa using hr.2⟩
  case installed =>
    rw [batch_frame Db.trustedDevices (fun hf => hf.devices) hlast (by simp [AccountStmt.table])]
    obtain ⟨r, hr, heq⟩ := hinst
    rw [heq] at hr
    exact ⟨_, hr, rfl, rfl, rfl, rfl, rfl, rfl⟩
  case revoked =>
    intro d hd
    rw [batch_frame Db.trustedDevices (fun hf => hf.devices) hlast (by simp [AccountStmt.table]), hother d hd, hdev,
      Table.get?_updateWhere]
    simp only [decide_eq_true_eq]
  case keys =>
    intro k
    obtain ⟨m, m', hm, hq, hpost⟩ :=
      batch_split Db.deviceVaultKeys (fun hf => hf.vaultKeys) [_, _, _, _, _, _, _] hx (by simp [AccountStmt.table])
    obtain ⟨m'', a', hm', hq', ⟨⟩⟩ :=
      batch_split Db.deviceVaultKeys (fun hf => hf.vaultKeys) [_, _] hpost (by simp [AccountStmt.table])
    rw [← Option.some.inj (exec_vaultKeys hq'), Table.get?_set, hm', ← Option.some.inj (exec_vaultKeys hq),
      Table.get?_deleteWhere, hm]
    split
    · rfl
    split <;> rename_i hk
    · cases b.deviceVaultKeys.get? k <;> simp [Option.filter, hk]
    · cases b.deviceVaultKeys.get? k <;> simp [Option.filter, hk]

end

/-! ## Recoveries among the transactions -/

def finishEligibility (A : Ambient) (user : StoredUser) (challengeId : String) (challenge : RecoveryChallengeRow)
    (request : RecoveryFinishUnsignedRequest) : RecoveryEligibility :=
  ⟨challengeId, user.1, A.now "finishRecoveryV2", user.2.authEpoch, challenge.recoveryGeneration,
    request.registrationSessionId, request.email, request.device.id⟩

section
variable {K : Crypto} {c : AccountCall} {tr : AccountTrace} {stmts : List AccountStmt} {q : RecoveryEligibility}

theorem finish_mem {A : Ambient} {user : StoredUser} {challengeId : String} {challenge : RecoveryChallengeRow}
    {request : RecoveryFinishUnsignedRequest} {hash : String} :
    .claimRecovery q ∈ finishRecoveryStmts A user challengeId challenge request hash ↔
      q = finishEligibility A user challengeId challenge request := by
  simp [finishRecoveryStmts, finishEligibility]

theorem transacts_claim (h : Transacts K c tr stmts) (hq : .claimRecovery q ∈ stmts) :
    ∃ A request signature user challenge, c = .recoveryFinish A request signature ∧
      stmts = finishRecoveryStmts A user request.recoveryAttemptId challenge request.normalized
        (K.hashToken request.device.credential) ∧
      q = finishEligibility A user request.recoveryAttemptId challenge request.normalized ∧
      ReadsOnly tr ∧ request.device.recipientMatches = true ∧
      Authorized K request.normalized signature user challenge tr := by
  cases h with
  | finishRecovery user challenge hro hrec hauth =>
    exact ⟨_, _, _, user, challenge, rfl, rfl, finish_mem.mp hq, hro, hrec, hauth⟩
  | registerLogin _ _ _ _ _ _ _ hreg =>
    cases hreg <;> simp [insertDeviceStmt, replaceDeviceStmts, updateDeviceStmts] at hq
  | registerPost _ _ _ _ hreg =>
    cases hreg <;> simp [insertDeviceStmt, replaceDeviceStmts, updateDeviceStmts] at hq
  | createAccount => simp [mobileAccountStmts] at hq
  | rotateSession => simp [rotateStmts] at hq
  | withdraw => simp [withdrawStmts] at hq
  | approve => simp [approveStmts] at hq
  | migrateRecovery => simp [migrateStmts] at hq
  | rotateRecovery => simp [rotateRecoveryStmts] at hq
  | _ => simp at hq

/-- The finish route runs nothing but its recovery before that is committed. -/
theorem transacts_finishing (h : Transacts K c tr stmts) (hc : c.finishesRecovery = true) :
    (∃ q, .claimRecovery q ∈ stmts) ∨ Finished tr := by
  cases h with
  | finishRecovery => exact .inl ⟨_, finish_mem.mpr rfl⟩
  | migrateKey _ _ _ _ _ _ hfin => exact .inr (hfin hc)
  | deleteToken _ hno | startRegistration _ _ hno | consumeRegistration _ hno | withdraw _ _ _ _ hno
  | approve _ _ _ _ hno => rw [hno] at hc; cases hc
  | _ => cases hc

theorem finish_claimed {A : Ambient} {user : StoredUser} {challengeId : String} {challenge : RecoveryChallengeRow}
    {request : RecoveryFinishUnsignedRequest} {hash : String} {b a : Db}
    (hx : execAll AccountStmt.exec (finishRecoveryStmts A user challengeId challenge request hash) b = some a) :
    ∃ row u r, Claimed (finishEligibility A user challengeId challenge request) row u r b := by
  obtain ⟨s1, h1, -⟩ := (execAll_cons _).mp hx
  exact eligible_claimed (exec_claim h1).1

theorem finish_epoch {A : Ambient} {user : StoredUser} {challengeId : String} {challenge : RecoveryChallengeRow}
    {request : RecoveryFinishUnsignedRequest} {hash : String} {b a : Db}
    (hx : execAll AccountStmt.exec (finishRecoveryStmts A user challengeId challenge request hash) b = some a) :
    ∃ n, b.authEpoch user.1 = some n ∧ a.authEpoch user.1 = some (n + 1) := by
  obtain ⟨c, u, r, hc⟩ := finish_claimed hx
  have hu : b.users.get? user.1 = some u := hc.account
  refine ⟨u.authEpoch, by rw [Db.authEpoch, hu]; rfl, ?_⟩
  rw [Db.authEpoch, (finish_recovered hx).users, hu, Option.map_some, if_pos rfl]; rfl

end

/-! ## Whole runs -/

section
variable {F : Formats} {K : Crypto} {ok : AccountCall → Prop} {s₀ s : Db}
variable {h : History AccountCall Db (Access AccountStmt)}
variable {ps : List (Proc AccountCall Db (Access AccountStmt) (Except AccountError AccountResult))}

theorem guar_advances {c : AccountCall} {tr : AccountTrace} {e : Step Db (Access AccountStmt)}
    (h : c.guar K tr e) : Advances e.before e.after := by
  rcases h.cases with ⟨stmts, -, hx, -⟩ | ⟨-, he⟩
  · exact batch_advances hx
  · rw [he]; exact .refl _

theorem along_advances (hr : Reach (AccountCall.code F K) ok s₀ h s ps) : Along Advances s₀ h :=
  reach_rel (fun c _ => AccountCall.sat F K c) Advances.refl (fun _ _ _ => Advances.trans)
    (fun _ _ _ _ _ _ hg => guar_advances hg) hr

end

section
variable {F : Formats} {K : Crypto} {s₀ s : Db} {h₁ h₂ : History AccountCall Db (Access AccountStmt)}
variable {ps : List (Proc AccountCall Db (Access AccountStmt) (Except AccountError AccountResult))}
variable {i : Nat} {c : AccountCall} {e : Step Db (Access AccountStmt)} {q : RecoveryEligibility}

/-- Where a recovery commits, its call is a finish, authorised by what it read. -/
theorem finishes_step (hr : Reach (AccountCall.code F K) (fun _ => True) s₀ (h₁ ++ .step i c e :: h₂) s ps)
    (hf : Finishes e q) :
    ∃ A request signature user challenge, c = .recoveryFinish A request signature ∧
      q = finishEligibility A user request.recoveryAttemptId challenge request.normalized ∧
      Authorized K request.normalized signature user challenge (own i h₁) ∧ Before Advances (own i h₁) e.before ∧
      execAll AccountStmt.exec (finishRecoveryStmts A user request.recoveryAttemptId challenge request.normalized
        (K.hashToken request.device.credential)) e.before = some e.after := by
  obtain ⟨-, hb, hg⟩ := reach_step (fun c _ => AccountCall.sat F K c) hr
  obtain ⟨ps₁, hr₁⟩ := reach_prefix hr
  obtain ⟨stmts, hl, hq⟩ := hf
  rcases hg.cases with ⟨stmts', hl', hx, ht⟩ | ⟨hno, -⟩
  · cases hl.symm.trans hl'
    obtain ⟨A, request, signature, user, challenge, rfl, rfl, rfl, -, -, hauth⟩ := transacts_claim ht hq
    exact ⟨A, request, signature, user, challenge, rfl, rfl, hauth, hb ▸ (along_advances hr₁).before hr₁ i, hx⟩
  · exact absurd hl (hno stmts)

end

/-! ## A sample account -/

def plainText (n : Nat) : String := String.ofList (List.replicate n 'A')

def plainFormats : Formats := ⟨fun v => v.length == 36, fun v => v.length == 24, fun v => v.toList.contains '@'⟩

/-- Everything happens in the first second, and random values name their place. -/
def plainAmbient : Ambient := ⟨fun _ => 1000, fun place => place⟩

def plainRecoveryPacket : RecoveryPacketV2 :=
  ⟨2, .xchacha20Poly1305, ⟨"ARGON2ID_V13", plainText 22, 65536, 3, 4⟩, plainText 32, plainText 108⟩

/-- Hashes that are their text, and one key with one signature. -/
def plainCrypto : Crypto where
  hashToken token := token
  publicKeyFingerprint key := some key
  verifyEd25519 key signature _ := key == plainText 43 && signature == plainText 86
  createRegistrationResponse _ request := some request
  startLogin _ request _ := request
  finishLogin state request _ := state == request
  dummyMaterial _ := (plainRecoveryPacket, plainText 43)

def sampleOwner : UserId := "0b8f8ed0-4c1a-4e0e-9d5e-0d1c5a0a0001"
def newDeviceId : DeviceId := "0b8f8ed0-4c1a-4e0e-9d5e-0d1c5a0a0011"
def oldDeviceId : DeviceId := "0b8f8ed0-4c1a-4e0e-9d5e-0d1c5a0a0012"

def sampleVaultKeyPacket (deviceId : DeviceId) (publicKey : String) : DeviceVaultKeyPacket :=
  ⟨1, deviceId, publicKey, plainText 43, ⟨.xchacha20Poly1305, plainText 32, plainText 64, none⟩⟩

def sampleOwnerRow : UserRow :=
  ⟨"a@example.org", "record", "bundle", .v2 plainRecoveryPacket, 0, 4⟩

def oldDevice (status : DeviceStatus) : TrustedDeviceRow :=
  ⟨sampleOwner, "old phone", some "fingerprint-old", plainText 42 ++ "E", status, none, 0, 0, none, none⟩

def sampleRecovery : RecoveryFinishUnsignedRequest where
  recoveryAttemptId := "0b8f8ed0-4c1a-4e0e-9d5e-0d1c5a0a0021"
  email := "a@example.org"
  registrationSessionId := "0b8f8ed0-4c1a-4e0e-9d5e-0d1c5a0a0022"
  registrationRecord := plainText 16
  newEncryptedRecoveryPacket := plainRecoveryPacket
  newRecoverySigningPublicKey := plainText 42 ++ "E"
  device := {
    id := newDeviceId, name := "new phone", fingerprint := "fingerprint-new", publicKey := plainText 43
    credential := plainText 43, encryptedVaultKeyPacket := sampleVaultKeyPacket newDeviceId (plainText 43) }

/-- An account with a desktop session and an approved device, its recovery
started. -/
def recoveringStore : Db where
  users := (∅ : Table UserId UserRow).set sampleOwner sampleOwnerRow
  recoveryPackets := (∅ : Table UserId RecoveryPacketRow).set sampleOwner
    ⟨.v2 plainRecoveryPacket, 2, some (plainText 43), 7⟩
  sessions := (∅ : Table String SessionRow).set "session" ⟨sampleOwner, "token", "csrf", none, 4, 5000, 0⟩
  trustedDevices := (∅ : Table DeviceId TrustedDeviceRow).set oldDeviceId (oldDevice .approved)
  registrationSessions := (∅ : Table String RegistrationSessionRow).set sampleRecovery.registrationSessionId
    ⟨"a@example.org", "response", 5000⟩
  recoveryChallenges := (∅ : Table String RecoveryChallengeRow).set sampleRecovery.recoveryAttemptId
    ⟨some sampleOwner, some 4, some 7, plainText 43, sampleRecovery.registrationSessionId, 5000⟩

def sampleFinish : AccountCall := .recoveryFinish plainAmbient sampleRecovery (plainText 86)

def twoFinishes : Play AccountCall Db (Access AccountStmt) (Except AccountError AccountResult) :=
  play (AccountCall.code plainFormats plainCrypto) recoveringStore
    ([.issue sampleFinish, .issue sampleFinish] ++ List.replicate 5 (.step 0) ++ List.replicate 5 (.step 1) ++
      [.step 1, .step 0])

theorem twoFinishes_reach : Reach (AccountCall.code plainFormats plainCrypto) (fun _ => True) recoveringStore
    twoFinishes.1 twoFinishes.2.1 twoFinishes.2.2 := by
  unfold twoFinishes
  exact play_reach fun _ _ => trivial

def recovers : Access AccountStmt → Option (Bool × UserId)
  | .commit (.claimRecovery q :: _) => some (true, q.userId)
  | .abort (.claimRecovery q :: _) => some (false, q.userId)
  | _ => none

theorem recovers_commit {l : Access AccountStmt} {u : UserId} (h : recovers l = some (true, u)) :
    ∃ q stmts, l = .commit (.claimRecovery q :: stmts) ∧ q.userId = u := by
  unfold recovers at h
  split at h
  · rename_i q stmts; cases h; exact ⟨q, stmts, rfl, rfl⟩
  · cases h
  · cases h

theorem recovers_abort {l : Access AccountStmt} {u : UserId} (h : recovers l = some (false, u)) :
    ∃ q stmts, l = .abort (.claimRecovery q :: stmts) := by
  unfold recovers at h
  split at h
  · cases h
  · rename_i q stmts; cases h; exact ⟨q, stmts, rfl⟩
  · cases h

theorem twoFinishes_ran : (∃ e ∈ own 1 twoFinishes.1, ∃ q, Finishes e q ∧ q.userId = sampleOwner) ∧
    ∃ x ∈ own 0 twoFinishes.1, ∃ q, Aborts x q := by
  have h : (own 1 twoFinishes.1).any (fun e => recovers e.label == some (true, sampleOwner)) = true ∧
      (own 0 twoFinishes.1).any (fun e => recovers e.label == some (false, sampleOwner)) = true := by decide +kernel
  simp only [List.any_eq_true, beq_iff_eq] at h
  obtain ⟨⟨e, he, hl⟩, x, hx, hl'⟩ := h
  obtain ⟨q, stmts, hl, hu⟩ := recovers_commit hl
  obtain ⟨q', stmts', hl'⟩ := recovers_abort hl'
  exact ⟨⟨e, he, q, ⟨_, hl, List.mem_cons_self⟩, hu⟩, x, hx, q', _, hl', List.mem_cons_self⟩

end ZeroVault

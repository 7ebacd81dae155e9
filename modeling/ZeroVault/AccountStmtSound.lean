import ZeroVault.AccountStmt

/-!
# What an account statement does

`account_effect` says which table a statement writes. From it: epochs and recovery
generations only grow, a recovery key changes only with its generation, and
challenges and claims are never taken back.
-/

namespace ZeroVault

open Lib

inductive AccountEffect (s : Db) : AccountStmt → Db → Prop
  | users {q t} : UsersStmt.exec s q = some t → AccountEffect s (.users q) { s with users := t }
  | registrations {q t} : RegistrationStmt.exec s q = some t →
      AccountEffect s (.registrations q) { s with registrationSessions := t }
  | logins {q t} : LoginStmt.exec s q = some t → AccountEffect s (.logins q) { s with loginSessions := t }
  | fakeLogins {q t} : FakeLoginStmt.exec s q = some t →
      AccountEffect s (.fakeLogins q) { s with fakeLoginSessions := t }
  | sessions {q t} : SessionStmt.exec s q = some t → AccountEffect s (.sessions q) { s with sessions := t }
  | packets {q t} : PacketStmt.exec s q = some t → AccountEffect s (.packets q) { s with recoveryPackets := t }
  | vaultKeys {q t} : VaultKeyStmt.exec s q = some t → AccountEffect s (.vaultKeys q) { s with deviceVaultKeys := t }
  | devices {q t} : DeviceStmt.exec s q = some t → AccountEffect s (.devices q) (setDevices s t)
  | challenge {id row t} : row.check s = true → s.recoveryChallenges.insert id row = some t →
      AccountEffect s (.insertChallenge id row) { s with recoveryChallenges := t }
  | claim {e t} : e.eligible s = true → s.recoveryClaims.insert e.challengeId ⟨e.userId⟩ = some t →
      AccountEffect s (.claimRecovery e) { s with recoveryClaims := t }

section
variable {q : AccountStmt} {s s' : Db}

theorem account_effect (h : q.exec s = some s') : AccountEffect s q s' := by
  cases q with
  | users r => obtain ⟨t, ht, rfl⟩ := Option.map_eq_some_iff.mp h; exact .users ht
  | registrations r => obtain ⟨t, ht, rfl⟩ := Option.map_eq_some_iff.mp h; exact .registrations ht
  | logins r => obtain ⟨t, ht, rfl⟩ := Option.map_eq_some_iff.mp h; exact .logins ht
  | fakeLogins r => obtain ⟨t, ht, rfl⟩ := Option.map_eq_some_iff.mp h; exact .fakeLogins ht
  | sessions r => obtain ⟨t, ht, rfl⟩ := Option.map_eq_some_iff.mp h; exact .sessions ht
  | packets r => obtain ⟨t, ht, rfl⟩ := Option.map_eq_some_iff.mp h; exact .packets ht
  | vaultKeys r => obtain ⟨t, ht, rfl⟩ := Option.map_eq_some_iff.mp h; exact .vaultKeys ht
  | devices r => obtain ⟨t, ht, rfl⟩ := Option.map_eq_some_iff.mp h; exact .devices ht
  | insertChallenge id row =>
    simp only [AccountStmt.exec] at h
    split at h
    · obtain ⟨t, ht, rfl⟩ := Option.map_eq_some_iff.mp h
      exact .challenge ‹_› ht
    · cases h
  | claimRecovery e =>
    simp only [AccountStmt.exec] at h
    split at h
    · obtain ⟨t, ht, rfl⟩ := Option.map_eq_some_iff.mp h
      exact .claim ‹_› ht
    · cases h

end

/-! ## Footprints -/

inductive AccountTable
  | users
  | registrations
  | logins
  | fakeLogins
  | sessions
  | packets
  | vaultKeys
  | devices
  | challenges
  | claims
deriving DecidableEq

def AccountStmt.table : AccountStmt → AccountTable
  | users _ => .users
  | registrations _ => .registrations
  | logins _ => .logins
  | fakeLogins _ => .fakeLogins
  | sessions _ => .sessions
  | packets _ => .packets
  | vaultKeys _ => .vaultKeys
  | devices _ => .devices
  | insertChallenge .. => .challenges
  | claimRecovery _ => .claims

/-- A statement leaves the other tables; deleted devices take sessions along. -/
structure Frame (t : AccountTable) (s s' : Db) : Prop where
  users : t ≠ .users → s'.users = s.users
  logins : t ≠ .logins → s'.loginSessions = s.loginSessions
  sessions : t ≠ .sessions → t ≠ .devices → s'.sessions = s.sessions
  packets : t ≠ .packets → s'.recoveryPackets = s.recoveryPackets
  vaultKeys : t ≠ .vaultKeys → s'.deviceVaultKeys = s.deviceVaultKeys
  devices : t ≠ .devices → s'.trustedDevices = s.trustedDevices
  challenges : t ≠ .challenges → s'.recoveryChallenges = s.recoveryChallenges
  claims : t ≠ .claims → s'.recoveryClaims = s.recoveryClaims
  noNewSession : t ≠ .sessions → ∀ id row, s'.sessions.get? id = some row → s.sessions.get? id = some row

section
variable {q : AccountStmt} {stmts : List AccountStmt} {s s' : Db}

theorem exec_frame (h : q.exec s = some s') : Frame q.table s s' := by
  cases account_effect h with
  | devices ht =>
    constructor
    case noNewSession =>
      intro _ id row hr
      rw [setDevices, Table.get?_deleteWhere] at hr
      exact (Option.filter_eq_some_iff.mp hr).1
    all_goals first | exact fun _ => rfl | exact fun h => absurd rfl h | exact fun _ h => absurd rfl h
  | _ =>
    constructor
    case noNewSession => first | exact fun h => absurd rfl h | exact fun _ _ _ hr => hr
    all_goals first | exact fun _ => rfl | exact fun _ _ => rfl | exact fun h => absurd rfl h

theorem exec_users {q : UsersStmt} (h : (AccountStmt.users q).exec s = some s') : q.exec s = some s'.users := by
  cases account_effect h with
  | users ht => exact ht

theorem exec_logins {q : LoginStmt} (h : (AccountStmt.logins q).exec s = some s') :
    q.exec s = some s'.loginSessions := by
  cases account_effect h with
  | logins ht => exact ht

theorem exec_sessions {q : SessionStmt} (h : (AccountStmt.sessions q).exec s = some s') :
    q.exec s = some s'.sessions := by
  cases account_effect h with
  | sessions ht => exact ht

theorem exec_packets {q : PacketStmt} (h : (AccountStmt.packets q).exec s = some s') :
    q.exec s = some s'.recoveryPackets := by
  cases account_effect h with
  | packets ht => exact ht

theorem exec_vaultKeys {q : VaultKeyStmt} (h : (AccountStmt.vaultKeys q).exec s = some s') :
    q.exec s = some s'.deviceVaultKeys := by
  cases account_effect h with
  | vaultKeys ht => exact ht

theorem exec_devices {q : DeviceStmt} (h : (AccountStmt.devices q).exec s = some s') :
    q.exec s = some s'.trustedDevices := by
  cases account_effect h with
  | devices ht => exact ht

theorem exec_challenge {id : String} {row : RecoveryChallengeRow}
    (h : (AccountStmt.insertChallenge id row).exec s = some s') :
    s.recoveryChallenges.insert id row = some s'.recoveryChallenges := by
  cases account_effect h with
  | challenge _ ht => exact ht

theorem exec_claim {e : RecoveryEligibility} (h : (AccountStmt.claimRecovery e).exec s = some s') :
    e.eligible s = true ∧ s.recoveryClaims.insert e.challengeId ⟨e.userId⟩ = some s'.recoveryClaims := by
  cases account_effect h with
  | claim he ht => exact ⟨he, ht⟩

/-- A part of the store that depends on one table survives a batch that does
not write it. -/
theorem batch_frame {α : Type} {t : AccountTable} (f : Db → α)
    (hf : ∀ {t' s s'}, Frame t' s s' → t' ≠ t → f s' = f s) (h : execAll AccountStmt.exec stmts s = some s')
    (hn : ∀ q ∈ stmts, q.table ≠ t) : f s' = f s :=
  execAll_rel AccountStmt.exec (R := fun s s' => f s' = f s) (fun _ => rfl) (fun _ _ _ h₁ h₂ => h₂.trans h₁)
    (fun q hq _ _ hx => hf (exec_frame hx) (hn q hq)) h

/-- The first statement of a batch that writes a table finds it as it was. -/
theorem batch_split {α : Type} {t : AccountTable} (f : Db → α)
    (hf : ∀ {t' s s'}, Frame t' s s' → t' ≠ t → f s' = f s) (pre : List AccountStmt) {post : List AccountStmt}
    (h : execAll AccountStmt.exec (pre ++ q :: post) s = some s') (hn : ∀ q ∈ pre, q.table ≠ t) :
    ∃ m m', f m = f s ∧ q.exec m = some m' ∧ execAll AccountStmt.exec post m' = some s' := by
  obtain ⟨m, hpre, h⟩ := (execAll_append AccountStmt.exec).mp h
  obtain ⟨m', hq, hpost⟩ := (execAll_cons AccountStmt.exec).mp h
  exact ⟨m, m', batch_frame f hf hpre hn, hq, hpost⟩

theorem batch_noNewSession (h : execAll AccountStmt.exec stmts s = some s') (hn : ∀ q ∈ stmts, q.table ≠ .sessions)
    {id : String} {row : SessionRow} (hr : s'.sessions.get? id = some row) : s.sessions.get? id = some row :=
  execAll_rel AccountStmt.exec (R := fun s s' => ∀ id row, s'.sessions.get? id = some row →
      s.sessions.get? id = some row) (fun _ _ _ h => h) (fun _ _ _ h₁ h₂ id row h => h₁ id row (h₂ id row h))
    (fun q hq _ _ hx => (exec_frame hx).noNewSession (hn q hq)) h id row hr

end

/-! ## Epochs, generations, challenges, claims -/

section
variable {db : Db} {u : UserId}

theorem users_insert {id : UserId} {row : UserRow} {t : Table UserId UserRow}
    (h : UsersStmt.exec db (.insert id row) = some t) : db.users.get? id = none := by
  simp only [UsersStmt.exec] at h
  split at h
  · cases h
  · exact Table.get?_of_insert h

theorem users_keep {q : UsersStmt} {t : Table UserId UserRow} (h : q.exec db = some t) {row : UserRow}
    (hu : db.users.get? u = some row) :
    ∃ row', t.get? u = some row' ∧ row.authEpoch ≤ row'.authEpoch ∧ row'.email = row.email := by
  cases q with
  | insert id r =>
    have hne : u ≠ id := fun he => by rw [he, users_insert h] at hu; cases hu
    simp only [UsersStmt.exec] at h
    split at h
    · cases h
    exact ⟨row, by rw [Table.get?_insert h, if_neg hne, hu], Nat.le_refl _, rfl⟩
  | recover id epoch record packet =>
    cases h
    rw [Table.get?_updateWhere, hu]
    refine ⟨_, rfl, ?_⟩
    dsimp only
    split
    · exact ⟨Nat.le_succ _, rfl⟩
    · exact ⟨Nat.le_refl _, rfl⟩
  | setPacketMigrated id packet key =>
    cases h
    rw [Table.get?_updateWhere, hu]
    refine ⟨_, rfl, ?_⟩
    dsimp only
    split <;> exact ⟨Nat.le_refl _, rfl⟩
  | setPacketRotated id epoch generation packet key =>
    cases h
    rw [Table.get?_updateWhere, hu]
    refine ⟨_, rfl, ?_⟩
    dsimp only
    split <;> exact ⟨Nat.le_refl _, rfl⟩

/-- A recovery row stays as it is or moves on to a later generation. -/
theorem packets_keep {q : PacketStmt} {t : Table UserId RecoveryPacketRow} (h : q.exec db = some t)
    {row : RecoveryPacketRow} (hu : db.recoveryPackets.get? u = some row) :
    ∃ row', t.get? u = some row' ∧ (row' = row ∨ row.generation < row'.generation) := by
  cases q with
  | insert id r =>
    simp only [PacketStmt.exec] at h
    split at h
    · have hne : u ≠ id := fun he => by rw [he, Table.get?_of_insert h] at hu; cases hu
      exact ⟨row, by rw [Table.get?_insert h, if_neg hne, hu], .inl rfl⟩
    · cases h
  | migrate id packet key =>
    simp only [PacketStmt.exec] at h
    split at h
    · rename_i hn
      have hne : u ≠ id := fun he => by rw [he, hn] at hu; cases hu
      split at h
      · cases h; exact ⟨row, by rw [Table.get?_set, if_neg hne, hu], .inl rfl⟩
      · cases h
    · rename_i old ho
      split at h
      · cases h
        by_cases he : u = id
        · subst he
          cases hu.symm.trans ho
          exact ⟨_, by rw [Table.get?_set, if_pos rfl], .inr (Nat.lt_succ_self _)⟩
        · exact ⟨row, by rw [Table.get?_set, if_neg he, hu], .inl rfl⟩
      · cases h; exact ⟨row, hu, .inl rfl⟩
  | rotate id generation epoch packet key =>
    cases h
    rw [Table.get?_updateWhere, hu]
    refine ⟨_, rfl, ?_⟩
    dsimp only
    split
    · exact .inr (Nat.lt_succ_self _)
    · exact .inl rfl
  | finish id generation packet key =>
    cases h
    rw [Table.get?_updateWhere, hu]
    refine ⟨_, rfl, ?_⟩
    dsimp only
    split
    · exact .inr (Nat.lt_succ_self _)
    · exact .inl rfl

end

/-- How the account tables may move: no user, recovery row, challenge or claim
is taken back. -/
structure Advances (s s' : Db) : Prop where
  users : ∀ u row, s.users.get? u = some row →
    ∃ row', s'.users.get? u = some row' ∧ row.authEpoch ≤ row'.authEpoch ∧ row'.email = row.email
  packets : ∀ u row, s.recoveryPackets.get? u = some row →
    ∃ row', s'.recoveryPackets.get? u = some row' ∧ (row' = row ∨ row.generation < row'.generation)
  challenges : ∀ id row, s.recoveryChallenges.get? id = some row → s'.recoveryChallenges.get? id = some row
  claims : ∀ id row, s.recoveryClaims.get? id = some row → s'.recoveryClaims.get? id = some row

section
variable {s s' s'' : Db}

theorem Advances.refl (s : Db) : Advances s s where
  users := fun _ row h => ⟨row, h, Nat.le_refl _, rfl⟩
  packets := fun _ row h => ⟨row, h, .inl rfl⟩
  challenges := fun _ _ h => h
  claims := fun _ _ h => h

theorem Advances.trans (h₁ : Advances s s') (h₂ : Advances s' s'') : Advances s s'' where
  users := by
    intro u row h
    obtain ⟨row', h', hle, he⟩ := h₁.users u row h
    obtain ⟨row'', h'', hle', he'⟩ := h₂.users u row' h'
    exact ⟨row'', h'', Nat.le_trans hle hle', he'.trans he⟩
  packets := by
    intro u row h
    obtain ⟨row', h', hg⟩ := h₁.packets u row h
    obtain ⟨row'', h'', hg'⟩ := h₂.packets u row' h'
    refine ⟨row'', h'', ?_⟩
    rcases hg with rfl | hg
    · exact hg'
    · rcases hg' with rfl | hg'
      · exact .inr hg
      · exact .inr (Nat.lt_trans hg hg')
  challenges := fun id row h => h₂.challenges id row (h₁.challenges id row h)
  claims := fun id row h => h₂.claims id row (h₁.claims id row h)

theorem exec_advances {q : AccountStmt} (h : q.exec s = some s') : Advances s s' := by
  cases account_effect h with
  | users ht => exact { Advances.refl s with users := fun u row hu => users_keep ht hu }
  | packets ht => exact { Advances.refl s with packets := fun u row hu => packets_keep ht hu }
  | challenge _ ht => exact { Advances.refl s with challenges := fun id row hu => Table.get?_insert_keeps ht hu }
  | claim _ ht => exact { Advances.refl s with claims := fun id row hu => Table.get?_insert_keeps ht hu }
  | registrations _ | logins _ | fakeLogins _ | sessions _ | vaultKeys _ | devices _ =>
    exact { Advances.refl s with }

theorem batch_advances {stmts : List AccountStmt} (h : execAll AccountStmt.exec stmts s = some s') : Advances s s' :=
  execAll_rel AccountStmt.exec Advances.refl (fun _ _ _ => Advances.trans) (fun _ _ _ _ hq => exec_advances hq) h

end

end ZeroVault

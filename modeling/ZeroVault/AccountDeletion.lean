import ZeroVault.DeviceSessions
import ZeroVault.OneAccountPerEmail
import ZeroVault.TenantIsolation

/-!
# The deletion of an account

A deletion that answers leaves no row and no object of its user, as far as it
finds no vault-key packet (their table hangs on no user) and no history row under
another user's item, and nobody stores a packet or an object of the user behind
its back.
-/

namespace ZeroVault

open Lib

structure NoRowsOf (u : UserId) (s : Db) : Prop where
  user : s.users.get? u = none
  logins : ∀ id row, s.loginSessions.get? id = some row → row.userId ≠ u
  sessions : ∀ id row, s.sessions.get? id = some row → row.userId ≠ u
  items : ∀ id row, s.vaultItems.get? id = some row → row.userId ≠ u
  history : ∀ id row, s.vaultItemHistory.get? id = some row → row.userId ≠ u
  packets : s.recoveryPackets.get? u = none
  devices : ∀ id row, s.trustedDevices.get? id = some row → row.userId ≠ u
  vaultKeys : ∀ d, s.deviceVaultKeys.get? (u, d) = none
  challenges : ∀ id row, s.recoveryChallenges.get? id = some row → row.userId ≠ some u
  claims : ∀ id row, s.recoveryClaims.get? id = some row → row.userId ≠ u
  changes : ∀ row ∈ s.itemSyncChanges.rows, row.userId ≠ u
  mutations : ∀ m, s.itemSyncMutations.get? (u, m) = none
  revisions : ∀ r, s.itemSyncRevisionClaims.get? (u, r) = none

/-! ## Tables -/

section
variable {κ ν : Type} [DecidableEq κ] {t t' : Table κ ν} {P : κ → ν → Prop}

theorem forall_deleteWhere {p : κ → ν → Bool} (h : ∀ k v, t.get? k = some v → P k v) :
    ∀ k v, (t.deleteWhere p).get? k = some v → P k v := by
  intro k v hv
  rw [Table.get?_deleteWhere, Option.filter_eq_some_iff] at hv
  exact h k v hv.1

theorem none_deleteWhere {p : κ → ν → Bool} {k : κ} (h : t.get? k = none) : (t.deleteWhere p).get? k = none := by
  rw [Table.get?_deleteWhere, h, Option.filter_none]

theorem forall_updateWhere {p : κ → ν → Bool} {f : ν → ν} (h : ∀ k v, t.get? k = some v → P k v)
    (hf : ∀ k v, P k v → P k (f v)) : ∀ k v, (t.updateWhere p f).get? k = some v → P k v := by
  intro k v hv
  rw [Table.get?_updateWhere] at hv
  obtain ⟨w, hw, rfl⟩ := Option.map_eq_some_iff.mp hv
  split
  · exact hf k w (h k w hw)
  · exact h k w hw

theorem none_updateWhere {p : κ → ν → Bool} {f : ν → ν} {k : κ} (h : t.get? k = none) :
    (t.updateWhere p f).get? k = none := by
  rw [Table.get?_updateWhere, h, Option.map_none]

theorem forall_insert {k₀ : κ} {v₀ : ν} (hi : t.insert k₀ v₀ = some t') (h : ∀ k v, t.get? k = some v → P k v)
    (h₀ : P k₀ v₀) : ∀ k v, t'.get? k = some v → P k v := by
  intro k v hv
  rw [Table.get?_insert hi] at hv
  split at hv
  · rename_i he
    cases hv
    exact he ▸ h₀
  · exact h k v hv

theorem forall_set {k₀ : κ} {v₀ : ν} (h : ∀ k v, t.get? k = some v → P k v) (h₀ : P k₀ v₀) :
    ∀ k v, (t.set k₀ v₀).get? k = some v → P k v := by
  intro k v hv
  rw [Table.get?_set] at hv
  split at hv
  · rename_i he
    cases hv
    exact he ▸ h₀
  · exact h k v hv

theorem none_insert {k k₀ : κ} {v₀ : ν} (hi : t.insert k₀ v₀ = some t') (h : t.get? k = none) (hne : k ≠ k₀) :
    t'.get? k = none := by
  rw [Table.get?_insert hi, if_neg hne, h]

end

/-! ## Account statements -/

section
variable {u : UserId} {s s' : Db}

/-- The statement makes no account and stores no vault key for the user. -/
def AccountStmt.Spares (u : UserId) : AccountStmt → Prop
  | users (.insert id _) => id ≠ u
  | vaultKeys (.insert userId ..) | vaultKeys (.upsert userId ..) => userId ≠ u
  | _ => True

theorem user_other (hu : s.users.get? u = none) {v : UserId} (h : s.users.contains v = true) : v ≠ u := by
  rintro rfl
  rw [Table.contains_eq_true] at h
  obtain ⟨row, hrow⟩ := h
  rw [hu] at hrow; cases hrow

theorem epoch_other (hu : s.users.get? u = none) {v : UserId} {epoch : Option Nat} (h : epochHolds s v epoch = true) :
    v ≠ u := by
  rintro rfl
  rw [epochHolds, hu] at h
  cases h

section
variable (hs : NoRowsOf u s)
include hs

theorem users_noRows {q : UsersStmt} {t : Table UserId UserRow} (hq : AccountStmt.Spares u (.users q))
    (h : q.exec s = some t) : t.get? u = none := by
  cases q with
  | insert id row =>
    simp only [UsersStmt.exec] at h
    split at h
    · cases h
    · exact none_insert h hs.user fun he => hq he.symm
  | recover | setPacketMigrated | setPacketRotated =>
    cases h
    exact none_updateWhere hs.user

theorem logins_noRows {q : LoginStmt} {t : Table String LoginSessionRow} (h : q.exec s = some t) :
    ∀ id row, t.get? id = some row → row.userId ≠ u := by
  cases q with
  | insertAtEpoch id row =>
    simp only [LoginStmt.exec] at h
    split at h
    · rename_i hepoch
      exact forall_insert h hs.logins (epoch_other hs.user hepoch)
    · cases h; exact hs.logins
  | delete | deleteOf =>
    cases h
    exact forall_deleteWhere hs.logins

theorem insertSession_noRows {id : String} {row : SessionRow} {t : Table String SessionRow}
    (h : insertSession s id row = some t) : ∀ id row, t.get? id = some row → row.userId ≠ u := by
  unfold insertSession at h
  split at h
  · cases h
  split at h
  · rename_i hc
    rw [Bool.and_eq_true] at hc
    exact forall_insert h hs.sessions (user_other hs.user hc.1)
  · cases h

theorem sessions_noRows {q : SessionStmt} {t : Table String SessionRow} (h : q.exec s = some t) :
    ∀ id row, t.get? id = some row → row.userId ≠ u := by
  cases q with
  | insert => exact insertSession_noRows hs h
  | insertAtEpoch | insertForDevice =>
    simp only [SessionStmt.exec] at h
    split at h
    · exact insertSession_noRows hs h
    · cases h; exact hs.sessions
  | deleteReplaced =>
    simp only [SessionStmt.exec] at h
    split at h
    · cases h; exact forall_deleteWhere hs.sessions
    · cases h; exact hs.sessions
  | deleteByToken | deleteOf | deleteOfDevice =>
    cases h
    exact forall_deleteWhere hs.sessions

theorem packets_noRows {q : PacketStmt} {t : Table UserId RecoveryPacketRow} (h : q.exec s = some t) :
    t.get? u = none := by
  cases q with
  | insert v row =>
    simp only [PacketStmt.exec] at h
    split at h
    · rename_i hc
      exact none_insert h hs.packets fun he => user_other hs.user hc he.symm
    · cases h
  | migrate v packet key =>
    simp only [PacketStmt.exec] at h
    split at h
    · split at h
      · rename_i hc
        cases h
        rw [Table.get?_set, if_neg fun he => user_other hs.user hc he.symm, hs.packets]
      · cases h
    · rename_i row hrow
      have hne : u ≠ v := by
        rintro rfl
        rw [hs.packets] at hrow; cases hrow
      split at h
      · cases h
        rw [Table.get?_set, if_neg hne, hs.packets]
      · cases h; exact hs.packets
  | rotate | finish =>
    cases h
    exact none_updateWhere hs.packets

theorem vaultKeys_noRows {q : VaultKeyStmt} {t : Table (UserId × DeviceId) VaultKeyBlob}
    (hq : AccountStmt.Spares u (.vaultKeys q)) (h : q.exec s = some t) (d : DeviceId) : t.get? (u, d) = none := by
  cases q with
  | insert v d' packet => exact none_insert h (hs.vaultKeys d) fun he => hq (congrArg Prod.fst he).symm
  | upsert v d' packet =>
    cases h
    rw [Table.get?_set, if_neg fun he => hq (congrArg Prod.fst he).symm, hs.vaultKeys]
  | insertIfPending v d' packet =>
    simp only [VaultKeyStmt.exec, Option.any_eq_true] at h
    split at h
    · rename_i hc
      obtain ⟨row, hrow, hc⟩ := hc
      simp only [Bool.and_eq_true, decide_eq_true_eq] at hc
      cases h
      have hne : v ≠ u := hc.1.1 ▸ hs.devices d' row hrow
      rw [Table.get?_set, if_neg fun he => hne (congrArg Prod.fst he).symm, hs.vaultKeys]
    · cases h; exact hs.vaultKeys d
  | migrate =>
    cases h
    exact none_updateWhere (hs.vaultKeys d)
  | deleteOf | delete =>
    cases h
    exact none_deleteWhere (hs.vaultKeys d)

theorem insertDevice_noRows {id : DeviceId} {row : TrustedDeviceRow} {t : Table DeviceId TrustedDeviceRow}
    (h : insertDevice s id row = some t) : ∀ id row, t.get? id = some row → row.userId ≠ u := by
  unfold insertDevice putDevice at h
  split at h
  · rename_i hc
    rw [Bool.and_eq_true] at hc
    split at h
    · cases h
    cases h
    exact forall_set hs.devices (user_other hs.user hc.1)
  · cases h

theorem devices_noRows {q : DeviceStmt} {t : Table DeviceId TrustedDeviceRow} (h : q.exec s = some t) :
    ∀ id row, t.get? id = some row → row.userId ≠ u := by
  -- a statement of another user writes that user into the row
  cases q with
  | insert => exact insertDevice_noRows hs h
  | insertAtEpoch =>
    simp only [DeviceStmt.exec] at h
    split at h
    · exact insertDevice_noRows hs h
    · cases h; exact hs.devices
  | install id row =>
    simp only [DeviceStmt.exec] at h
    split at h
    · exact insertDevice_noRows hs h
    · rename_i old hold
      split at h
      · unfold putDevice at h
        split at h
        · cases h
        cases h
        exact forall_set hs.devices (hs.devices id old hold)
      · cases h; exact hs.devices
  | revokeAll | setStatus | approvePending =>
    cases h
    exact forall_updateWhere hs.devices fun _ _ hne => hne
  | delete | deleteDuplicates =>
    cases h
    exact forall_deleteWhere hs.devices
  | update v id device =>
    simp only [DeviceStmt.exec] at h
    split at h
    · cases h; exact hs.devices
    · rename_i row hrow
      split at h
      · unfold putDevice at h
        split at h
        · cases h
        cases h
        exact forall_set hs.devices (hs.devices id row hrow)
      · cases h; exact hs.devices

theorem exec_noRows {q : AccountStmt} (hq : q.Spares u) (h : q.exec s = some s') : NoRowsOf u s' := by
  cases account_effect h with
  | users ht => exact { hs with user := users_noRows hs hq ht }
  | logins ht => exact { hs with logins := logins_noRows hs ht }
  | sessions ht => exact { hs with sessions := sessions_noRows hs ht }
  | packets ht => exact { hs with packets := packets_noRows hs ht }
  | vaultKeys ht => exact { hs with vaultKeys := vaultKeys_noRows hs hq ht }
  | devices ht =>
    exact { hs with devices := devices_noRows hs ht, sessions := forall_deleteWhere hs.sessions }
  | registrations _ | fakeLogins _ => exact { hs with }
  | @challenge id row t hcheck ht =>
    refine { hs with challenges := forall_insert ht hs.challenges ?_ }
    intro he
    simp only [RecoveryChallengeRow.check, he, Bool.and_eq_true, Option.all_some] at hcheck
    exact user_other hs.user hcheck.2 rfl
  | @claim q t he ht =>
    refine { hs with claims := forall_insert ht hs.claims ?_ }
    obtain ⟨c, user, row, hc⟩ := eligible_claimed he
    exact user_other hs.user (Table.contains_eq_true.mpr ⟨user, hc.account⟩)

end

end

/-! ## Syncs and maintenance -/

section
variable {u : UserId} {s s' b a : Db}

theorem sync_noRows {q : SyncStmt} (hq : q.userId ≠ u) (hs : NoRowsOf u s) (h : q.exec s = some s') :
    NoRowsOf u s' := by
  have heff := exec_effect h
  have hframe := exec_syncFrame h
  constructor
  case user =>
    rw [heff.users, hs.user]
    cases q <;> rfl
  case logins => rw [hframe.logins]; exact hs.logins
  case sessions => rw [hframe.sessions]; exact hs.sessions
  case packets => rw [hframe.packets]; exact hs.packets
  case devices => rw [hframe.devices]; exact hs.devices
  case vaultKeys => rw [hframe.vaultKeys]; exact hs.vaultKeys
  case challenges => rw [hframe.challenges]; exact hs.challenges
  case claims => rw [hframe.claims]; exact hs.claims
  case items =>
    -- a row of the sync tables belongs to the user whose statement wrote it
    intro id row hr
    rw [heff.items] at hr
    rcases itemRow_step (n := (q.write?.map Prod.snd).getD 0) rfl (fun _ _ hw => by rw [hw]; rfl) id
      (s.vaultItems.get? id) with hsame | ⟨row', hrow', hmine, -⟩
    · exact hs.items id row (hsame ▸ hr)
    · rw [hrow'] at hr
      cases hr
      exact hmine ▸ hq
  case history =>
    intro id row hr
    rw [exec_history h] at hr
    cases q with
    | insertHistory id' v item =>
      simp only [SyncStmt.historyRow] at hr
      split at hr
      · cases hr; exact hq
      · exact hs.history id row hr
    | _ => exact hs.history id row hr
  case changes =>
    intro row hrow
    rw [exec_feed h] at hrow
    split at hrow
    · rename_i v id n c hc
      rcases List.mem_append.mp hrow with hrow | hrow
      · exact hs.changes row hrow
      · rw [List.mem_singleton.mp hrow]
        exact change?_user hc ▸ hq
    · exact hs.changes row hrow
  case mutations =>
    intro m
    rw [heff.receipts, hs.mutations]
    cases q with
    | insertMutation v m' row => exact if_neg fun he => hq (congrArg Prod.fst he).symm
    | _ => rfl
  case revisions =>
    intro r
    rw [heff.claims, hs.revisions]
    cases q with
    | claimRevision v r' => exact if_neg fun he => hq (congrArg Prod.fst he).symm
    | _ => rfl

/-- The batches of a push are its user's, and need the user's row. -/
theorem commit_mine {d : SyncCall} {tr : List SyncStep} {stmts : List SyncStmt} (hg : d.guar tr ⟨.commit stmts, b, a⟩) :
    (∀ q ∈ stmts, q.userId = d.userId) ∧
      ((∃ n, .claimRevision d.userId n ∈ stmts) ∨ ∀ q ∈ stmts, ∃ m row, q = .insertMutation d.userId m row) := by
  cases d with
  | pushVault env v request =>
    obtain ⟨-, s₁, rest, -, -, -, -, rfl⟩ := hg
    have hw := pushVaultStmts_stateWrite (u := v) (n := s₁.serverRevision v + 1) env request
    exact ⟨hw.userId, .inl ⟨_, hw.claim⟩⟩
  | pushItemLevelSync env v plan =>
    obtain ⟨-, old, s₁, s₂, s₃, st, -, ⟨-, n, hst⟩, rfl⟩ := hg
    refine ⟨(batchStmts_writes hst).userId, ?_⟩
    cases hw : st.hasStateWrite with
    | true => exact .inl ⟨_, (batchStmts_claim hw).1⟩
    | false => exact .inr fun q hq => batchStmts_quiet hst hw hq

/-- Where a user has no row, none of its statements that need one commits. -/
theorem needs_user {q : SyncStmt} {stmts : List SyncStmt} (hu : b.users.get? u = none) (hq : q ∈ stmts)
    (hneeds : ∀ m m', q.exec m = some m' → m.users.contains u = true) (hx : execBatch stmts b = some a) : False := by
  obtain ⟨pre, post, rfl⟩ := List.append_of_mem hq
  obtain ⟨m, hpre, hx⟩ := (execAll_append SyncStmt.exec).mp hx
  obtain ⟨m', hm, -⟩ := (execAll_cons SyncStmt.exec).mp hx
  have hnone : m.users.contains u = false := by
    rw [batch_users hpre, Table.contains_eq_false]
    exact hu
  rw [hneeds m m' hm] at hnone
  cases hnone

theorem push_noRows {d : SyncCall} {tr : List SyncStep} {stmts : List SyncStmt} (hs : NoRowsOf u b)
    (hg : d.guar tr ⟨.commit stmts, b, a⟩) (hx : execBatch stmts b = some a) : NoRowsOf u a := by
  obtain ⟨hmine, hneed⟩ := commit_mine hg
  by_cases hu : d.userId = u
  · rcases hneed with ⟨n, hclaim⟩ | hreceipts
    · refine absurd hx fun hx => needs_user hs.user hclaim (fun m m' h => ?_) hx
      exact hu ▸ (exec_claimRevision h).1
    · cases stmts with
      | nil => cases hx; exact hs
      | cons q stmts =>
        obtain ⟨m, row, rfl⟩ := hreceipts q List.mem_cons_self
        refine absurd hx fun hx => needs_user hs.user List.mem_cons_self (fun m m' h => ?_) hx
        simp only [SyncStmt.exec] at h
        split at h
        · exact hu ▸ ‹_›
        · cases h
  · exact execAll_keeps SyncStmt.exec (fun q hq _ _ h hm => sync_noRows (hmine q hq ▸ hu) hm h) hx hs

theorem maintenance_noRows {q : MaintenanceStmt} (hs : NoRowsOf u b) (h : q.exec b = some a) : NoRowsOf u a := by
  cases q with
  | deleteExpired table now =>
    cases table with
    | sessions => cases h; exact { hs with sessions := forall_deleteWhere hs.sessions }
    | loginSessions => cases h; exact { hs with logins := forall_deleteWhere hs.logins }
    | fakeLoginSessions | registrationSessions => cases h; exact { hs with }
    | recoveryChallenges =>
      cases h
      exact { hs with challenges := forall_deleteWhere hs.challenges, claims := forall_deleteWhere hs.claims }
  | deleteUser v =>
    cases h
    exact {
      user := none_deleteWhere hs.user
      logins := forall_deleteWhere hs.logins
      sessions := forall_deleteWhere hs.sessions
      items := forall_deleteWhere hs.items
      history := forall_deleteWhere hs.history
      packets := none_deleteWhere hs.packets
      devices := forall_deleteWhere hs.devices
      vaultKeys := hs.vaultKeys
      challenges := forall_deleteWhere hs.challenges
      claims := forall_deleteWhere hs.claims
      changes := fun row hrow => hs.changes row (List.mem_of_mem_filter hrow)
      mutations := fun m => none_deleteWhere (hs.mutations m)
      revisions := fun r => none_deleteWhere (hs.revisions r) }

/-! ## The deletion itself -/

/-- What hangs on nothing that the deletion takes along is not there. -/
structure Attached (u : UserId) (s : Db) : Prop where
  vaultKeys : ∀ d, s.deviceVaultKeys.get? (u, d) = none
  history : ∀ id row, s.vaultItemHistory.get? id = some row → row.userId = u →
    ∃ item, s.vaultItems.get? row.itemId = some item ∧ item.userId = u

theorem deleteUser_noRows (hb : Attached u b) : NoRowsOf u (b.deleteUser u) := by
  constructor
  case user => simp [Db.deleteUser]
  case packets => simp [Db.deleteUser]
  case vaultKeys => exact hb.vaultKeys
  case mutations => intro m; simp [Db.deleteUser]
  case revisions => intro r; simp [Db.deleteUser]
  case changes => intro row hrow; simpa using (List.mem_filter.mp hrow).2
  case history =>
    intro id row hrow hu
    simp only [Db.deleteUser, Table.get?_deleteWhere, Option.filter_eq_some_iff] at hrow
    obtain ⟨item, hitem, hmine⟩ := hb.history id row hrow.1 hu
    simp [hitem, hmine] at hrow
  all_goals
    intro id row hrow hu
    simp only [Db.deleteUser, Table.get?_deleteWhere, Option.filter_eq_some_iff] at hrow
    simp [hu] at hrow

end

/-! ## Whole runs -/

/-- The deletion `i` finds nothing that it leaves behind, nobody makes rows of
its user after it, and nobody stores an object that it has listed past. -/
structure Undisturbed (i : Nat) (u : UserId) (h : WorkerHistory) : Prop where
  attached : ∀ c e, .step i c e ∈ h → RunsStmt (.deleteUser u) e → Attached u e.before.db
  rows : ∀ h₁ c e h₂, h = h₁ ++ .step i c e :: h₂ → RunsStmt (.deleteUser u) e →
    ∀ j c' e' stmts, .step j c' e' ∈ h₂ → e'.label = .account (.commit stmts) → ∀ q ∈ stmts, q.Spares u
  objects : ∀ h₁ c e h₂ pre key, h = h₁ ++ .step i c e :: h₂ → pre ∈ objectPrefixes u → under pre key = true →
    Covers e pre key → ∀ j c' e', .step j c' e' ∈ h₂ → e'.label = .put key → e'.before.bucket.contains key = true

section
variable {K : Crypto} {c : WorkerCall} {tr : WorkerTrace} {e : WorkerStep} {u : UserId} {key : String}

theorem step_noRows (hg : c.guar K tr e) (hs : NoRowsOf u e.before.db)
    (hspares : ∀ stmts, e.label = .account (.commit stmts) → ∀ q ∈ stmts, q.Spares u) : NoRowsOf u e.after.db := by
  cases guar_effect hg with
  | account _ hx _ =>
    exact execAll_keeps AccountStmt.exec (fun q hq _ _ h hm => exec_noRows hm (hspares _ rfl q hq) h) hx hs
  | sync _ hx hd => exact push_noRows hs hd hx
  | maintenance hx _ => exact maintenance_noRows hs hx
  | put | delete | idle => exact hs

theorem step_absent (hg : c.guar K tr e) (hs : e.before.bucket.get? key = none)
    (hput : e.label = .put key → e.before.bucket.contains key = true) : e.after.bucket.get? key = none := by
  cases guar_effect hg with
  | @put b key' object hnew =>
    have hne : key ≠ key' := by
      rintro rfl
      obtain ⟨object, hobject⟩ := Table.contains_eq_true.mp (hput rfl)
      rw [hs] at hobject; cases hobject
    rw [Table.get?_set, if_neg hne]
    exact hs
  | delete =>
    rw [Table.get?_erase]
    split
    · rfl
    · exact hs
  | account | sync | maintenance | idle => exact hs

theorem runsStmt_after (hg : c.guar K tr e) (hrun : RunsStmt (.deleteUser u) e) :
    e.after.db = e.before.db.deleteUser u := by
  cases guar_effect hg with
  | maintenance hx _ =>
    cases hrun
    exact (Option.some.inj hx).symm
  | account | sync | put | delete => cases hrun
  | idle hidle =>
    have hl : _ = WorkerAccess.maintenance (.commit [.deleteUser u]) := hrun
    subst hl
    cases hidle

theorem deletes_after (hg : c.guar K tr e) (hl : e.label = .delete key) : e.after.bucket.get? key = none := by
  cases guar_effect hg with
  | delete =>
    cases hl
    rw [Table.get?_erase, if_pos rfl]
  | account | sync | maintenance | put => cases hl
  | idle hidle =>
    have hl : _ = WorkerAccess.delete key := hl
    subst hl
    cases hidle

theorem covers_after {pre : String} (hg : c.guar K tr e) (hcov : Covers e pre key) : e.after = e.before := by
  obtain ⟨cursor, size, hl, -⟩ := hcov
  cases guar_effect hg with
  | idle => rfl
  | account | sync | maintenance | put | delete => cases hl

end

section
variable {F : Formats} {K : Crypto} {s₀ s : Worker} {h : WorkerHistory} {ps : WorkerProcs}

theorem rows_deleted {i : Nat} {u : UserId} (hr : Reach (WorkerCall.code F K) (fun _ => True) s₀ h s ps)
    (hu : Undisturbed i u h) {e : WorkerStep} (he : e ∈ own i h) (hrun : RunsStmt (.deleteUser u) e) :
    NoRowsOf u s.db := by
  obtain ⟨c, hc⟩ := mem_own.mp he
  obtain ⟨h₁, h₂, rfl⟩ := List.append_of_mem hc
  obtain ⟨-, -, hg⟩ := reach_step (fun c _ => WorkerCall.sat F K c) hr
  have hdeleted : NoRowsOf u e.after.db := by
    rw [runsStmt_after hg hrun]
    exact deleteUser_noRows (hu.attached c e hc hrun)
  rw [List.append_cons] at hr
  refine reach_keeps (fun c _ => WorkerCall.sat F K c) (I := fun w => NoRowsOf u w.db)
    (P := fun _ e => ∀ stmts, e.label = .account (.commit stmts) → ∀ q ∈ stmts, q.Spares u)
    (fun _ _ _ _ hs hg hspares => step_noRows hg hs hspares) hr ?_ fun j c' e' he' stmts hl =>
      hu.rows h₁ c e h₂ rfl hrun j c' e' stmts he' hl
  rw [storeAfter_snoc]
  exact hdeleted

/-- A key that is absent after one of its own accesses stays absent, if nobody
stores an object under it. -/
theorem absent_since {h₁ h₂ : WorkerHistory} {i : Nat} {c : WorkerCall} {e : WorkerStep} {key : String}
    (hr : Reach (WorkerCall.code F K) (fun _ => True) s₀ (h₁ ++ .step i c e :: h₂) s ps)
    (ha : e.after.bucket.get? key = none)
    (hput : ∀ j c' e', .step j c' e' ∈ h₂ → e'.label = .put key → e'.before.bucket.contains key = true) :
    s.bucket.get? key = none := by
  rw [List.append_cons] at hr
  refine reach_keeps (fun c _ => WorkerCall.sat F K c) (I := fun w => w.bucket.get? key = none)
    (P := fun _ e => e.label = .put key → e.before.bucket.contains key = true)
    (fun _ _ _ _ hs hg hp => step_absent hg hs hp) hr ?_ hput
  rw [storeAfter_snoc]
  exact ha

theorem objects_deleted {i : Nat} {u : UserId} (hr : Reach (WorkerCall.code F K) (fun _ => True) s₀ h s ps)
    (hu : Undisturbed i u h) {pre key : String} (hpre : pre ∈ objectPrefixes u) (hunder : under pre key = true)
    (hd : Dropped pre key (own i h)) : s.bucket.get? key = none := by
  obtain ⟨t₁, e, t₂, ho, hcov, hdrop⟩ := hd
  obtain ⟨h₁, c, h₂, rfl, ho₁⟩ := own_split ho
  obtain ⟨-, -, hg⟩ := reach_step (fun c _ => WorkerCall.sat F K c) hr
  have hputs := hu.objects h₁ c e h₂ pre key rfl hpre hunder hcov
  cases hbefore : e.before.bucket.get? key with
  | none => exact absent_since hr (by rw [covers_after hg hcov, hbefore]) hputs
  | some object =>
    -- The listing found the key, so the call deletes it later on.
    obtain ⟨d, hd, hl⟩ := hdrop (by rw [hbefore]; rfl)
    rw [own_append, ho₁] at ho
    have ho₂ : own i (.step i c e :: h₂) = e :: t₂ := List.append_cancel_left ho
    rw [show (.step i c e :: h₂ : WorkerHistory) = [.step i c e] ++ h₂ from rfl, own_append, own_step, if_pos rfl] at ho₂
    have ho₃ : own i h₂ = t₂ := List.cons.inj ho₂ |>.2
    rw [← ho₃] at hd
    obtain ⟨c', hc'⟩ := mem_own.mp hd
    obtain ⟨h₃, h₄, rfl⟩ := List.append_of_mem hc'
    rw [show h₁ ++ .step i c e :: (h₃ ++ .step i c' d :: h₄) = (h₁ ++ .step i c e :: h₃) ++ .step i c' d :: h₄ by simp]
      at hr
    obtain ⟨-, -, hg'⟩ := reach_step (fun c _ => WorkerCall.sat F K c) hr
    exact absent_since hr (deletes_after hg' hl) fun j c' e' he' =>
      hputs j c' e' (List.mem_append_right _ (List.mem_cons_of_mem _ he'))

/-- A deletion that answered has left nothing of its user, unless it was
disturbed. -/
theorem deletion_complete (hr : Reach (WorkerCall.code F K) (fun _ => True) s₀ h s ps) {i : Nat} {A : Ambient}
    {cred : Credentials} {R : R2Env} {csrfHeader : Option String} {r : WorkerResult}
    (hp : ps[i]? = some ⟨.deleteAccount A cred R csrfHeader, .ret (.ok r)⟩) :
    ∃ u, (∃ x ∈ own i h, FindsSession K cred u x.before.db) ∧ (Undisturbed i u h → NoRowsOf u s.db ∧
      ∀ pre ∈ objectPrefixes u, ∀ key, under pre key = true → s.bucket.get? key = none) := by
  obtain ⟨u, hd⟩ := reach_result (fun c _ => WorkerCall.sat F K c) hr hp
  obtain ⟨e, he, hrun⟩ := hd.row
  exact ⟨u, hd.session, fun hu => ⟨rows_deleted hr hu he hrun, fun pre hpre key hunder =>
    objects_deleted hr hu hpre hunder (hd.objects pre hpre key hunder)⟩⟩

end

/-! ## Two deletions -/

def deletionOf (token csrf : String) : WorkerCall :=
  .deleteAccount plainAmbient ⟨token, .bearer⟩ ⟨true, [some 1000], [some 1000], fun _ => false⟩ (some csrf)

/-- A phone's account without a stored vault key, and one of its exports. -/
def exportedStore : Worker where
  db := { settledStore with
    trustedDevices := (∅ : Table DeviceId TrustedDeviceRow).set oldDeviceId (oldDevice .approved)
    sessions := (∅ : Table String SessionRow).set "session" ⟨sampleOwner, "token", "csrf", some oldDeviceId, 4, 5000, 0⟩ }
  bucket := (∅ : Table String R2Object).set (exportKey sampleOwner "export") ⟨"data", "alg", 0⟩

def oneDeletion : Play WorkerCall Worker WorkerAccess (Except WorkerError WorkerResult) :=
  play (WorkerCall.code plainFormats plainCrypto) exportedStore
    ([.issue (deletionOf "token" "csrf")] ++ List.replicate 5 (.step 0))

theorem oneDeletion_reach : Reach (WorkerCall.code plainFormats plainCrypto) (fun _ => True) exportedStore
    oneDeletion.1 oneDeletion.2.1 oneDeletion.2.2 := by
  unfold oneDeletion
  exact play_reach fun _ _ => trivial

/-- Nothing that a deletion leaves behind is there or being made. -/
def undisturbed : Event WorkerCall Worker WorkerAccess → Bool
  | .issue .. => true
  | .step _ _ e => e.before.db.deviceVaultKeys.rows.isEmpty && e.before.db.vaultItemHistory.rows.isEmpty &&
    match e.label with
    | .account (.commit _) | .put _ => false
    | _ => true

theorem undisturbed_of {i : Nat} {u : UserId} {h : WorkerHistory} (hall : h.all undisturbed = true) :
    Undisturbed i u h := by
  have hstep : ∀ j c e, .step j c e ∈ h → undisturbed (.step j c e) = true := fun j c e he =>
    List.all_eq_true.mp hall _ he
  constructor
  · intro c e he _
    have hq := hstep i c e he
    simp only [undisturbed, Bool.and_eq_true, List.isEmpty_iff] at hq
    refine ⟨fun d => Table.get?_eq_none.mpr (by simp [hq.1.1]), fun id row hrow => ?_⟩
    have hmem := Table.mem_rows.mpr hrow
    rw [hq.1.2] at hmem
    cases hmem
  · rintro h₁ c e h₂ rfl - j c' e' stmts he' hl
    have hq := hstep j c' e' (by simp [he'])
    simp [undisturbed, hl] at hq
  · rintro h₁ c e h₂ pre key rfl - - - j c' e' he' hl
    have hq := hstep j c' e' (by simp [he'])
    simp [undisturbed, hl] at hq

/-- Has the call answered `{ ok: true }`? -/
def answered (p : Proc WorkerCall Worker WorkerAccess (Except WorkerError WorkerResult)) : Bool :=
  match p.prog with
  | .ret (.ok .ok) => true
  | _ => false

/-- `deletion_complete` at that deletion. -/
theorem deletion_complete_oneDeletion : ∃ u, (∃ x ∈ own 0 oneDeletion.1, FindsSession plainCrypto ⟨"token", .bearer⟩ u
    x.before.db) ∧ NoRowsOf u oneDeletion.2.1.db := by
  have hran : (oneDeletion.2.2[0]?.map answered) = some true ∧ oneDeletion.1.all undisturbed = true := by
    decide +kernel
  have hcall : oneDeletion.2.2[0]?.map (·.call) = some (deletionOf "token" "csrf") := play_call _ _
  obtain ⟨p, hp, hok⟩ := Option.map_eq_some_iff.mp hran.1
  rw [hp] at hcall
  obtain ⟨call, prog⟩ := p
  cases hcall
  unfold answered at hok
  split at hok
  · rename_i hprog
    obtain rfl : prog = .ret (.ok .ok) := hprog
    obtain ⟨u, hfound, hclean⟩ := deletion_complete oneDeletion_reach hp
    exact ⟨u, hfound, (hclean (undisturbed_of hran.2)).1⟩
  · cases hok

def registeredDeletion : Play WorkerCall Worker WorkerAccess (Except WorkerError WorkerResult) :=
  play (WorkerCall.code plainFormats plainCrypto) {}
    ([.issue (.account (.registerStart (registrantAmbient "1") "a@example.org" (plainText 16))), .step 0, .step 0,
      .issue (.account (.mobileRegisterFinish (registrantAmbient "1") ⟨none, none⟩
        (registrationOf "1" "a@example.org")))] ++ List.replicate 6 (.step 1) ++
      [.issue (deletionOf (registrant "1") (registrant "1"))] ++ List.replicate 4 (.step 2))

theorem registeredDeletion_reach : Reach (WorkerCall.code plainFormats plainCrypto) (fun _ => True) {}
    registeredDeletion.1 registeredDeletion.2.1 registeredDeletion.2.2 := by
  unfold registeredDeletion
  exact play_reach fun _ _ => trivial

/-- The deletion answered, and the packet of the account's phone is still there. -/
theorem deletion_leaves_packet : Reach (WorkerCall.code plainFormats plainCrypto) (fun _ => True) {}
      registeredDeletion.1 registeredDeletion.2.1 registeredDeletion.2.2 ∧
    registeredDeletion.2.2.getLast?.map answered = some true ∧
    ¬ NoRowsOf (registrant "1") registeredDeletion.2.1.db := by
  refine ⟨registeredDeletion_reach, by decide +kernel, fun hclean => ?_⟩
  have hkept : registeredDeletion.2.1.db.deviceVaultKeys.contains (registrant "1", registrant "1") = true := by
    decide +kernel
  obtain ⟨packet, hpacket⟩ := Table.contains_eq_true.mp hkept
  rw [hclean.vaultKeys] at hpacket
  cases hpacket

end ZeroVault

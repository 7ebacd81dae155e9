import ZeroVault.DeviceRegistration
import ZeroVault.DeviceSessions
import ZeroVault.Since

/-!
# Where approvals come from

A device is approved under a key since an account was created with it, since it
was approved while it waited with that key, or since a recovery installed it.
The one exception is a registration that writes back an approval it has read.
-/

namespace ZeroVault

open Lib

def ApprovedUnder (u : UserId) (d : DeviceId) (key : String) (db : Db) : Prop :=
  ∃ row, deviceOf u d db = some row ∧ row.status = .approved ∧ row.publicKey = key

def TrustedDeviceRow.approves (row : TrustedDeviceRow) (u : UserId) (key : String) : Prop :=
  row.userId = u ∧ row.status = .approved ∧ row.publicKey = key

theorem approvedUnder_iff {u : UserId} {d : DeviceId} {key : String} {db : Db} :
    ApprovedUnder u d key db ↔ ∃ row, db.trustedDevices.get? d = some row ∧ row.approves u key := by
  simp only [ApprovedUnder, deviceOf_eq, and_assoc, TrustedDeviceRow.approves]

/-! ## One statement -/

def AccountStmt.Approves (u : UserId) (d : DeviceId) (key : String) (s : Db) : AccountStmt → Prop
  | devices (.insert id row) | devices (.insertAtEpoch id row _) | devices (.install id row) =>
    id = d ∧ row.approves u key
  | devices (.setStatus _ _ status _) => status = .approved
  | devices (.approvePending userId id packet _) =>
    userId = u ∧ id = d ∧ s.deviceVaultKeys.get? (u, d) = some (.packet packet) ∧
      ∃ row, deviceOf u d s = some row ∧ row.status = .pending ∧ row.publicKey = key
  | devices (.update userId id device status _ epoch _) =>
    userId = u ∧ id = d ∧ status = .approved ∧ device.publicKey = key ∧ epochHolds s u epoch = true ∧
      ∃ row, deviceOf u d s = some row
  | _ => False

section
variable {u : UserId} {d : DeviceId} {key : String} {s s' : Db} {q : AccountStmt}

theorem put_row {t t' : Table DeviceId TrustedDeviceRow} {id : DeviceId} {new row : TrustedDeviceRow}
    (h : putDevice t id new = some t') (hget : t'.get? d = some row) : id = d ∧ new = row ∨ t.get? d = some row := by
  obtain ⟨-, rfl⟩ := putDevice_eq_some.mp h
  rw [Table.get?_set] at hget
  split at hget
  · exact .inl ⟨Eq.symm ‹_›, Option.some.inj hget⟩
  · exact .inr hget

theorem inserted_row {t : Table DeviceId TrustedDeviceRow} {id : DeviceId} {new row : TrustedDeviceRow}
    (h : insertDevice s id new = some t) (hget : t.get? d = some row) :
    id = d ∧ new = row ∨ s.trustedDevices.get? d = some row :=
  put_row (insertDevice_eq_some.mp h).2.2 hget

theorem exec_approves (h : q.exec s = some s') (ha : ApprovedUnder u d key s') :
    ApprovedUnder u d key s ∨ q.Approves u d key s := by
  rw [approvedUnder_iff] at ha ⊢
  -- an approved row was there before, or the statement wrote it
  cases account_effect h with
  | @devices q t ht =>
    obtain ⟨row, hget, happroves⟩ := ha
    change t.get? d = some row at hget
    cases q with
    | insert id new =>
      rcases inserted_row ht hget with ⟨rfl, rfl⟩ | hold
      · exact .inr ⟨rfl, happroves⟩
      · exact .inl ⟨row, hold, happroves⟩
    | insertAtEpoch id new epoch =>
      simp only [DeviceStmt.exec] at ht
      split at ht
      · rcases inserted_row ht hget with ⟨rfl, rfl⟩ | hold
        · exact .inr ⟨rfl, happroves⟩
        · exact .inl ⟨row, hold, happroves⟩
      · cases ht
        exact .inl ⟨row, hget, happroves⟩
    | revokeAll userId now =>
      cases ht
      rw [Table.get?_updateWhere] at hget
      obtain ⟨old, hold, hrow⟩ := Option.map_eq_some_iff.mp hget
      split at hrow
      · rw [← hrow] at happroves
        cases happroves.2.1
      · exact .inl ⟨row, hrow ▸ hold, happroves⟩
    | install id new =>
      simp only [DeviceStmt.exec] at ht
      split at ht
      · rcases inserted_row ht hget with ⟨rfl, rfl⟩ | hold
        · exact .inr ⟨rfl, happroves⟩
        · exact .inl ⟨row, hold, happroves⟩
      · rename_i old hold
        split at ht
        · rename_i huser
          rcases put_row ht hget with ⟨rfl, rfl⟩ | hkept
          · exact .inr ⟨rfl, huser ▸ happroves.1, happroves.2⟩
          · exact .inl ⟨row, hkept, happroves⟩
        · cases ht
          exact .inl ⟨row, hget, happroves⟩
    | setStatus userId id status now =>
      cases ht
      rw [Table.get?_updateWhere] at hget
      obtain ⟨old, hold, hrow⟩ := Option.map_eq_some_iff.mp hget
      split at hrow
      · rw [← hrow] at happroves
        exact .inr happroves.2.1
      · exact .inl ⟨row, hrow ▸ hold, happroves⟩
    | approvePending userId id packet now =>
      cases ht
      rw [Table.get?_updateWhere] at hget
      obtain ⟨old, hold, hrow⟩ := Option.map_eq_some_iff.mp hget
      split at hrow
      · rename_i hpending
        simp only [Bool.and_eq_true, decide_eq_true_eq] at hpending
        obtain ⟨⟨⟨rfl, rfl⟩, hstatus⟩, hpacket⟩ := hpending
        rw [← hrow] at happroves
        obtain rfl : old.userId = u := happroves.1
        exact .inr ⟨rfl, rfl, hpacket, old, deviceOf_eq.mpr ⟨hold, rfl⟩, hstatus, happroves.2.2⟩
      · exact .inl ⟨row, hrow ▸ hold, happroves⟩
    | delete userId id epoch =>
      cases ht
      rw [Table.get?_deleteWhere] at hget
      exact .inl ⟨row, (Option.filter_eq_some_iff.mp hget).1, happroves⟩
    | deleteDuplicates userId id publicKey fingerprint epoch =>
      cases ht
      rw [Table.get?_deleteWhere] at hget
      exact .inl ⟨row, (Option.filter_eq_some_iff.mp hget).1, happroves⟩
    | update userId id device status hash epoch now =>
      simp only [DeviceStmt.exec] at ht
      split at ht
      · cases ht
        exact .inl ⟨row, hget, happroves⟩
      · rename_i old hold
        split at ht
        · rename_i hguard
          rcases put_row ht hget with ⟨rfl, rfl⟩ | hkept
          · obtain ⟨hu, hstatus, hkey⟩ := happroves
            obtain rfl : old.userId = u := hu
            exact .inr ⟨hguard.1.symm, rfl, hstatus, hkey, hguard.1 ▸ hguard.2, old, deviceOf_eq.mpr ⟨hold, rfl⟩⟩
          · exact .inl ⟨row, hkept, happroves⟩
        · cases ht
          exact .inl ⟨row, hget, happroves⟩
  | _ => exact .inl ha

theorem approvedUnder_frame (h : s'.trustedDevices = s.trustedDevices) (ha : ApprovedUnder u d key s') :
    ApprovedUnder u d key s := by
  rw [approvedUnder_iff] at ha ⊢
  rwa [h] at ha

end

/-! ## One transaction -/

/-- The transaction approves the device of `u` under `key`. -/
inductive Grants (u : UserId) (d : DeviceId) (key : String) (b : Db) : List AccountStmt → Prop
  | create {A request device hash tokenHash csrf expiresAt} : A.random "userId" = u → device.id = d →
      device.publicKey = key → Grants u d key b (mobileAccountStmts A request device hash tokenHash csrf expiresAt)
  | approve {A packet row} : packet.recipientDeviceId = d → deviceOf u d b = some row → row.status = .pending →
      row.publicKey = key →
      packet.recipientPublicKey = key ∨ b.deviceVaultKeys.get? (u, d) = some (.packet packet) →
      Grants u d key b (approveStmts A u d packet)
  | recover {A user challengeId challenge request hash} : user.1 = u → request.device.id = d →
      request.device.publicKey = key → Grants u d key b (finishRecoveryStmts A user challengeId challenge request hash)

section
variable {u : UserId} {d : DeviceId} {key : String} {b a : Db} {stmts : List AccountStmt}

/-- What approves a device for the first time is one of the statements, at a store in between. -/
theorem batch_approves (hx : execAll AccountStmt.exec stmts b = some a) (hb : ¬ ApprovedUnder u d key b)
    (ha : ApprovedUnder u d key a) : ∃ q ∈ stmts, ∃ m, q.Approves u d key m := by
  obtain ⟨pre, q, post, m, m', rfl, -, hq, hm, hm'⟩ := execAll_appears _ hx hb ha
  exact ⟨q, by simp, m, (exec_approves hq hm').resolve_left hm⟩

theorem approve_grants {A : Ambient} {userId : UserId} {id : DeviceId} {packet : DeviceVaultKeyPacket}
    (hid : packet.recipientDeviceId = id) (hx : execAll AccountStmt.exec (approveStmts A userId id packet) b = some a)
    (hb : ¬ ApprovedUnder u d key b) (ha : ApprovedUnder u d key a) :
    Grants u d key b (approveStmts A userId id packet) := by
  obtain ⟨m, h1, hrest⟩ := (execAll_cons _).mp hx
  obtain ⟨a', h2, ⟨⟩⟩ := (execAll_cons _).mp hrest
  have hdev : m.trustedDevices = b.trustedDevices := (exec_frame h1).devices nofun
  obtain ⟨rfl, rfl, hstored, row, hrow, hstatus, hkey⟩ :=
    (exec_approves h2 ha).resolve_left fun hm => hb (approvedUnder_frame hdev hm)
  rw [deviceOf, hdev] at hrow
  refine .approve hid hrow hstatus hkey ?_
  have hput := exec_vaultKeys h1
  simp only [VaultKeyStmt.exec] at hput
  split at hput
  · rename_i hpending
    rw [Option.any_eq_true] at hpending
    obtain ⟨row', hrow', hmatch⟩ := hpending
    cases hrow'.symm.trans (deviceOf_eq.mp hrow).1
    simp only [Bool.and_eq_true, decide_eq_true_eq] at hmatch
    exact .inl (hmatch.2.symm.trans hkey)
  · rw [← Option.some.inj hput] at hstored
    exact .inr hstored

/-- A registration writes an approval only over a row of the device, in the place of the status that it read. -/
theorem update_approves {A : Ambient} {userId : UserId} {id : DeviceId} {device : TrustedDevice} {status : DeviceStatus}
    {hash : Option String} {epoch : Option Nat} {reset : Bool}
    (hx : execAll AccountStmt.exec (updateDeviceStmts A userId id device status hash epoch reset) b = some a)
    (hb : ¬ ApprovedUnder u d key b) (ha : ApprovedUnder u d key a) :
    userId = u ∧ id = d ∧ status = .approved ∧ device.publicKey = key ∧ epochHolds b u epoch = true ∧
      ∃ row, deviceOf u d b = some row := by
  obtain ⟨m1, h1, hrest⟩ := (execAll_cons _).mp hx
  obtain ⟨m2, h2, hrest⟩ := (execAll_cons _).mp hrest
  have hdev : a.trustedDevices = m2.trustedDevices :=
    batch_frame Db.trustedDevices (fun hf => hf.devices) hrest (by cases reset <;> simp [AccountStmt.table])
  have hm1 : ApprovedUnder u d key m1 → ApprovedUnder u d key b := fun hm =>
    (exec_approves h1 hm).resolve_right (by rintro ⟨⟩)
  obtain ⟨rfl, rfl, hstatus, hkey, hepoch, row, hrow⟩ :=
    (exec_approves h2 (approvedUnder_frame hdev ha)).resolve_left fun hm => hb (hm1 hm)
  refine ⟨rfl, rfl, hstatus, hkey, ?_, row, ?_⟩
  · rwa [epochHolds, (exec_frame h1).users (by rintro ⟨⟩)] at hepoch
  · obtain ⟨hget, hu⟩ := deviceOf_eq.mp hrow
    rw [← Option.some.inj (exec_devices h1), Table.get?_deleteWhere] at hget
    exact deviceOf_eq.mpr ⟨(Option.filter_eq_some_iff.mp hget).1, hu⟩

def WritesApproval (u : UserId) (d : DeviceId) (key : String) (b : Db) (stmts : List AccountStmt) : Prop :=
  ∃ A device hash epoch, stmts = updateDeviceStmts A u d device .approved hash epoch false ∧ device.publicKey = key ∧
    epochHolds b u epoch = true ∧ ∃ row, deviceOf u d b = some row

theorem registers_approves {A : Ambient} {userId : UserId} {device : TrustedDevice} {hash : Option String}
    {epoch : Option Nat} (hreg : Registers A userId device hash epoch stmts) (hpending : device.status = .pending)
    (hx : execAll AccountStmt.exec stmts b = some a) (hb : ¬ ApprovedUnder u d key b) (ha : ApprovedUnder u d key a) :
    WritesApproval u d key b stmts := by
  cases hreg with
  | insert =>
    obtain ⟨q, hq, m, happroves⟩ := batch_approves hx hb ha
    cases List.mem_singleton.mp hq
    cases hpending.symm.trans happroves.2.2.1
  | replace existingId =>
    obtain ⟨q, hq, m, happroves⟩ := batch_approves hx hb ha
    simp only [replaceDeviceStmts, List.mem_cons, List.not_mem_nil, or_false] at hq
    rcases hq with rfl | rfl | rfl | rfl
    · exact happroves.elim
    · exact happroves.elim
    · exact happroves.elim
    · cases happroves.2.2.1
  | update existingId status reset hreset =>
    obtain ⟨rfl, rfl, hstatus, hkey, hepoch, hrow⟩ := update_approves hx hb ha
    cases reset with
    | true => cases (hreset rfl).symm.trans hstatus
    | false => exact ⟨A, device, hash, epoch, by rw [hstatus], hkey, hepoch, hrow⟩

theorem transacts_grants {K : Crypto} {c : AccountCall} {tr : AccountTrace} (ht : Transacts K c tr stmts)
    (hx : execAll AccountStmt.exec stmts b = some a) (hb : ¬ ApprovedUnder u d key b) (ha : ApprovedUnder u d key a) :
    Grants u d key b stmts ∨ WritesApproval u d key b stmts := by
  cases ht with
  | createAccount device hash tokenHash csrf expiresAt =>
    obtain ⟨q, hq, m, happroves⟩ := batch_approves hx hb ha
    simp only [mobileAccountStmts, List.mem_cons, List.not_mem_nil, or_false] at hq
    rcases hq with rfl | rfl | rfl | rfl | rfl
    · exact happroves.elim
    · exact happroves.elim
    · exact .inl (.create happroves.2.1 happroves.1 happroves.2.2.2)
    · exact happroves.elim
    · exact happroves.elim
  | registerLogin userId device hash epoch stmts hpending _ hreg =>
    exact .inr (registers_approves hreg hpending hx hb ha)
  | registerPost userId device stmts hpending hreg => exact .inr (registers_approves hreg hpending hx hb ha)
  | withdraw A userId id status _ hstatus =>
    obtain ⟨q, hq, m, happroves⟩ := batch_approves hx hb ha
    simp only [withdrawStmts, List.mem_cons, List.not_mem_nil, or_false] at hq
    rcases hq with rfl | rfl | rfl
    · obtain rfl : status = .approved := happroves
      cases hstatus
    · exact happroves.elim
    · exact happroves.elim
  | approve A userId id packet _ hid => exact .inl (approve_grants hid hx hb ha)
  | finishRecovery user challenge =>
    obtain ⟨q, hq, m, happroves⟩ := batch_approves hx hb ha
    simp only [finishRecoveryStmts, List.mem_cons, List.not_mem_nil, or_false] at hq
    rcases hq with rfl | rfl | rfl | rfl | rfl | rfl | rfl | rfl | rfl | rfl | rfl <;> try exact happroves.elim
    exact .inl (.recover happroves.2.1 happroves.1 happroves.2.2.2)
  | rotateSession id deviceId row =>
    obtain ⟨q, hq, m, happroves⟩ := batch_approves hx hb ha
    simp only [rotateStmts, List.mem_cons, List.not_mem_nil, or_false] at hq
    rcases hq with rfl | rfl <;> exact happroves.elim
  | migrateRecovery userId packet key =>
    obtain ⟨q, hq, m, happroves⟩ := batch_approves hx hb ha
    simp only [migrateStmts, List.mem_cons, List.not_mem_nil, or_false] at hq
    rcases hq with rfl | rfl <;> exact happroves.elim
  | rotateRecovery user generation packet key =>
    obtain ⟨q, hq, m, happroves⟩ := batch_approves hx hb ha
    simp only [rotateRecoveryStmts, List.mem_cons, List.not_mem_nil, or_false] at hq
    rcases hq with rfl | rfl <;> exact happroves.elim
  | _ =>
    obtain ⟨q, hq, m, happroves⟩ := batch_approves hx hb ha
    cases List.mem_singleton.mp hq
    exact happroves.elim

end

/-! ## Whole runs -/

/-- A registration writes back an approval that it read; when it commits, the device is no longer approved under this
key. -/
def RestoresApproval (tr : WorkerTrace) (e : WorkerStep) : Prop :=
  ∃ A u d device old hash epoch,
    e.label = .account (.commit (updateDeviceStmts A u d device .approved hash epoch false)) ∧
    (∃ x ∈ tr, existingDevice u device x.before.db = some (d, old)) ∧ old.approves u device.publicKey ∧
    ¬ ApprovedUnder u d device.publicKey e.before.db ∧ epochHolds e.before.db u epoch = true ∧
    ∃ row, deviceOf u d e.before.db = some row

def Granted (u : UserId) (d : DeviceId) (key : String) (e : WorkerStep) : Prop :=
  ∃ stmts, e.label = .account (.commit stmts) ∧ Grants u d key e.before.db stmts

/-- The device is rejected or revoked, or the account is recovered with another one. -/
inductive Withdraws (u : UserId) (d : DeviceId) (e : WorkerStep) : Prop
  | withdraw {A status} : status.active = false → e.label = .account (.commit (withdrawStmts A u d status)) →
      Withdraws u d e
  | recover {A user challengeId challenge request hash} : user.1 = u → request.device.id ≠ d →
      e.label = .account (.commit (finishRecoveryStmts A user challengeId challenge request hash)) → Withdraws u d e

section
variable {F : Formats} {K : Crypto} {u : UserId} {d : DeviceId} {key : String} {c : WorkerCall} {tr : WorkerTrace}
  {e : WorkerStep}

theorem guar_grants (hg : c.guar K tr e) (hfresh : ¬ RestoresApproval tr e) (hb : ¬ ApprovedUnder u d key e.before.db)
    (ha : ApprovedUnder u d key e.after.db) : Granted u d key e := by
  cases guar_effect hg with
  | account htr hx hw =>
    cases c with
    | account call =>
      rcases transacts_grants hw.1 hx hb ha with hgrants | ⟨A, device, hash, epoch, rfl, rfl, hepoch, hrow⟩
      · exact ⟨_, rfl, hgrants⟩
      · obtain ⟨old, hstatus, hkey, hsaw⟩ := hw.2.read A u d device .approved hash epoch rfl
        obtain ⟨x, hx, hfound⟩ := embedded_saw htr hsaw
        have howner : old.userId = u := (existing_found hfound).2.1
        exact absurd
          ⟨A, u, d, device, old, hash, epoch, rfl, ⟨x, hx, hfound⟩, ⟨howner, hstatus, hkey⟩, hb, hepoch, hrow⟩ hfresh
    | sync | cleanupExpiredSessions => exact hw.elim
    | createExport | deleteExport | deleteAccount =>
      obtain ⟨t, rfl⟩ := hw
      obtain ⟨q, hq, m, happroves⟩ := batch_approves hx hb ha
      cases List.mem_singleton.mp hq
      exact happroves.elim
  | sync _ hx _ => exact absurd (approvedUnder_frame (batch_syncFrame hx).devices ha) hb
  | @maintenance b db q hx _ =>
    refine absurd ?_ hb
    cases q with
    | deleteExpired table now => cases table <;> cases hx <;> exact ha
    | deleteUser userId =>
      cases hx
      rw [approvedUnder_iff] at ha ⊢
      obtain ⟨row, hget, happroves⟩ := ha
      simp only [Db.deleteUser, Table.get?_deleteWhere, Option.filter_eq_some_iff] at hget
      exact ⟨row, hget.1, happroves⟩
  | put | delete | idle => exact absurd ha hb

theorem withdraws_ends (hg : c.guar K tr e) (hw : Withdraws u d e) : ¬ ApprovedUnder u d key e.after.db := by
  rw [approvedUnder_iff]
  rintro ⟨row, hget, hu, hstatus, -⟩
  -- after a withdrawal the row has another status, or is gone
  cases guar_effect hg with
  | @account b db tr0 stmts htr hx _ =>
    cases hw with
    | @withdraw A status hdead hl =>
      cases hl
      obtain ⟨m1, h1, hx⟩ := (execAll_cons _).mp hx
      obtain ⟨m2, h2, hx⟩ := (execAll_cons _).mp hx
      obtain ⟨m3, h3, ⟨⟩⟩ := (execAll_cons _).mp hx
      change db.trustedDevices.get? d = some row at hget
      rw [(exec_frame h3).devices nofun, (exec_frame h2).devices nofun, ← Option.some.inj (exec_devices h1),
        Table.get?_updateWhere] at hget
      obtain ⟨old, hold, hrow⟩ := Option.map_eq_some_iff.mp hget
      split at hrow
      · rw [← hrow] at hstatus
        obtain rfl : status = .approved := hstatus
        exact nomatch hdead
      · rename_i hother
        simp [hrow, hu] at hother
    | @recover A user challengeId challenge request hash huser hother hl =>
      cases hl
      have hrevoked := (finish_recovered hx).revoked d (Ne.symm hother)
      change db.trustedDevices.get? d = some row at hget
      rw [hget] at hrevoked
      obtain ⟨old, hold, hrow⟩ := Option.map_eq_some_iff.mp hrevoked.symm
      split at hrow
      · rw [← hrow] at hstatus
        exact nomatch hstatus
      · rename_i hne
        exact hne (by rw [hrow, hu, huser])
  | sync | maintenance | put | delete =>
    cases hw with
    | withdraw _ hl => cases hl
    | recover _ _ hl => cases hl
  | idle hidle =>
    cases hw with
    | withdraw _ hl =>
      cases hl
      exact nomatch hidle
    | recover _ _ hl =>
      cases hl
      exact nomatch hidle

variable {s₀ s : Worker} {h : WorkerHistory} {ps : WorkerProcs}

/-- A device has been approved under its key since a grant, and none that is withdrawn is approved again without one. -/
theorem approvals_granted (hr : Reach (WorkerCall.code F K) (fun _ => True) s₀ h s ps)
    (hfresh : ∀ h₁ i c e h₂, h = h₁ ++ .step i c e :: h₂ → ¬ RestoresApproval (own i h₁) e)
    (ha : ApprovedUnder u d key s.db) :
    (ApprovedUnder u d key s₀.db ∧ Throughout (fun w => ApprovedUnder u d key w.db) h ∨
      ∃ h₁ i c e h₂, h = h₁ ++ .step i c e :: h₂ ∧ Granted u d key e ∧
        Throughout (fun w => ApprovedUnder u d key w.db) h₂) ∧
    ∀ h₁ i c e h₂, h = h₁ ++ .step i c e :: h₂ → Withdraws u d e →
      ∃ h₃ j c' e' h₄, h₂ = h₃ ++ .step j c' e' :: h₄ ∧ Granted u d key e' ∧
        Throughout (fun w => ApprovedUnder u d key w.db) h₄ := by
  have hstep : ∀ c tr e, WorkerCall.guar K c tr e → ¬ RestoresApproval tr e → ¬ ApprovedUnder u d key e.before.db →
      ApprovedUnder u d key e.after.db → Granted u d key e := fun _ _ _ hg hfresh hb ha => guar_grants hg hfresh hb ha
  constructor
  · rcases reach_granted (p := fun w => ApprovedUnder u d key w.db) (fun c _ => WorkerCall.sat F K c) hstep hr hfresh ha
      with hall | ⟨h₁, i, c, e, h₂, hh, hgrants, -, hall⟩
    · exact .inl hall
    · exact .inr ⟨h₁, i, c, e, h₂, hh, hgrants, hall⟩
  · intro h₁ i c e h₂ hh hw
    have hg := (reach_step (fun c _ => WorkerCall.sat F K c) (hh ▸ hr)).2.2
    obtain ⟨h₃, j, c', e', h₄, hh', hgrants, -, hall⟩ :=
      reach_regranted (p := fun w => ApprovedUnder u d key w.db) (fun c _ => WorkerCall.sat F K c) hstep hr hfresh ha hh
        (withdraws_ends hg hw)
    exact ⟨h₃, j, c', e', h₄, hh', hgrants, hall⟩

end

/-! ## A phone that is approved twice -/

def pendingStore : Worker where
  db := { settledStore with
    trustedDevices := (∅ : Table DeviceId TrustedDeviceRow).set oldDeviceId
      { oldDevice .pending with publicKey := plainText 43 }
    sessions := (∅ : Table String SessionRow).set "session" ⟨sampleOwner, "token", "csrf", none, 4, 5000, 0⟩ }

def approveOld (publicKey : String) : WorkerCall :=
  .account (.approve plainAmbient ⟨"token", .cookie⟩ oldDeviceId (.packet (sampleVaultKeyPacket oldDeviceId publicKey)))

def revokeOld : WorkerCall := .account (.revoke plainAmbient ⟨"token", .cookie⟩ oldDeviceId)

/-- The phone is approved, revoked, registered with a new key and approved with that. -/
def twiceApproved : Play WorkerCall Worker WorkerAccess (Except WorkerError WorkerResult) :=
  play (WorkerCall.code plainFormats plainCrypto) pendingStore
    ([.issue (approveOld (plainText 43))] ++ List.replicate 5 (.step 0) ++ [.issue revokeOld] ++
      List.replicate 3 (.step 1) ++ [.issue (registerOld (plainText 42 ++ "E"))] ++ List.replicate 5 (.step 2) ++
      [.issue (approveOld (plainText 42 ++ "E"))] ++ List.replicate 5 (.step 3))

theorem twiceApproved_reach : Reach (WorkerCall.code plainFormats plainCrypto) (fun _ => True) pendingStore
    twiceApproved.1 twiceApproved.2.1 twiceApproved.2.2 := by
  unfold twiceApproved
  exact play_reach fun _ _ => trivial

def revokesOld : Event WorkerCall Worker WorkerAccess → Bool
  | .step _ _ ⟨.account (.commit stmts), _, _⟩ => stmts = withdrawStmts plainAmbient sampleOwner oldDeviceId .revoked
  | _ => false

theorem revokesOld_withdraws {v : Event WorkerCall Worker WorkerAccess} (h : revokesOld v = true) :
    ∃ i c e, v = .step i c e ∧ Withdraws sampleOwner oldDeviceId e := by
  unfold revokesOld at h
  split at h
  · exact ⟨_, _, _, rfl, .withdraw rfl (by rw [of_decide_eq_true h])⟩
  · exact nomatch h

theorem RestoresApproval.alone {tr : WorkerTrace} {e : WorkerStep} (h : RestoresApproval tr e) (i : Nat)
    (c : WorkerCall) : updatesAlone (.step i c e) = true := by
  obtain ⟨A, u, d, device, old, hash, epoch, hl, -⟩ := h
  obtain ⟨label, b, a⟩ := e
  cases hl
  rfl

theorem twiceApproved_ran : twiceApproved.1.any updatesAlone = false ∧ twiceApproved.1.any revokesOld = true ∧
    (deviceOf sampleOwner oldDeviceId twiceApproved.2.1.db).any
      (fun row => row.status = .approved && row.publicKey = plainText 42 ++ "E") = true := by
  decide +kernel

/-- `approvals_granted` for the new key, after the revocation. -/
theorem approvals_granted_twiceApproved : ∃ h₁ i c e h₂, twiceApproved.1 = h₁ ++ .step i c e :: h₂ ∧
    Withdraws sampleOwner oldDeviceId e ∧ ∃ h₃ j c' e' h₄, h₂ = h₃ ++ .step j c' e' :: h₄ ∧
      Granted sampleOwner oldDeviceId (plainText 42 ++ "E") e' ∧
      Throughout (fun w => ApprovedUnder sampleOwner oldDeviceId (plainText 42 ++ "E") w.db) h₄ := by
  obtain ⟨hnone, hrevoked, happroved⟩ := twiceApproved_ran
  rw [Option.any_eq_true] at happroved
  obtain ⟨row, hrow, hkey⟩ := happroved
  simp only [Bool.and_eq_true, decide_eq_true_eq] at hkey
  have hunder : ApprovedUnder sampleOwner oldDeviceId (plainText 42 ++ "E") twiceApproved.2.1.db := ⟨row, hrow, hkey⟩
  have hgranted := (approvals_granted twiceApproved_reach (fun h₁ i c e h₂ hh hrestores => by
    rw [hh, List.any_append, List.any_cons, hrestores.alone, Bool.true_or, Bool.or_true] at hnone
    cases hnone) hunder).2
  rw [List.any_eq_true] at hrevoked
  obtain ⟨v, hv, hrevokes⟩ := hrevoked
  obtain ⟨h₁, h₂, hh⟩ := List.append_of_mem hv
  obtain ⟨i, c, e, rfl, hw⟩ := revokesOld_withdraws hrevokes
  exact ⟨h₁, i, c, e, h₂, hh, hw, hgranted h₁ i c e h₂ hh hw⟩

end ZeroVault

import ZeroVault.Accesses
import ZeroVault.DeviceSessions
import ZeroVault.RecoveryAuthorised
import ZeroVault.RecoveryRecords

/-!
# Operations that confirm their own batch

Five operations of the store commit a batch, read back the rows it was to
leave, and throw when these are not there. A batch leaves either everything as
it was or these rows (`batch_leaves`), so a throw without an effect is told
from a commit only as long as nobody replaces the rows before they are read
(`thrown_without_effect`).
-/

namespace Lib.Table

variable {κ ν : Type} [DecidableEq κ]

theorem updateWhere_eq_self {t : Table κ ν} {p : κ → ν → Bool} {f : ν → ν}
    (h : ∀ k v, t.get? k = some v → p k v = false) : t.updateWhere p f = t := by
  obtain ⟨rows, nodup⟩ := t
  have hrows : (rows.map fun r => if p r.1 r.2 then (r.1, f r.2) else r) = rows := by
    refine (List.map_congr_left fun r hr => ?_).trans (List.map_id rows)
    rw [h r.1 r.2 (mem_rows.mp hr)]
    rfl
  simp only [updateWhere, hrows]

end Lib.Table

namespace ZeroVault

open Lib

/-! ## The operations -/

/-- The operations that look up afterwards what their batch was to leave. -/
inductive ConfirmedCall
  | finishRecoveryV2 (A : Ambient) (user : StoredUser) (challengeId : String) (challenge : RecoveryChallengeRow)
      (request : RecoveryFinishUnsignedRequest) (deviceCredentialHash : String)
  | rotateRecoveryV2 (user : StoredUser) (expectedGeneration : Nat) (packet : RecoveryPacketV2)
      (signingPublicKey : String)
  | migrateRecoveryV1 (userId : UserId) (packet : RecoveryPacketV2) (signingPublicKey : String)
  | approveDeviceWithVaultKey (A : Ambient) (userId : UserId) (deviceId : DeviceId) (packet : DeviceVaultKeyPacket)
  | rotateDeviceSession (A : Ambient) (deviceId : DeviceId) (row : SessionRow)

namespace ConfirmedCall

def code (F : Formats) : ConfirmedCall → AccountProg Unit
  | finishRecoveryV2 A user challengeId challenge request hash =>
    ZeroVault.finishRecoveryV2 F A user challengeId challenge request hash
  | rotateRecoveryV2 user generation packet key => ZeroVault.rotateRecoveryV2 user generation packet key
  | migrateRecoveryV1 userId packet key => ZeroVault.migrateRecoveryV1 userId packet key
  | approveDeviceWithVaultKey A userId deviceId packet => ZeroVault.approveDeviceWithVaultKey F A userId deviceId packet
  | rotateDeviceSession A deviceId row => ZeroVault.rotateDeviceSession A deviceId row

def stmts : ConfirmedCall → List AccountStmt
  | finishRecoveryV2 A user challengeId challenge request hash =>
    finishRecoveryStmts A user challengeId challenge request hash
  | rotateRecoveryV2 user generation packet key => rotateRecoveryStmts user generation packet key
  | migrateRecoveryV1 userId packet key => migrateStmts userId packet key
  | approveDeviceWithVaultKey A userId deviceId packet => approveStmts A userId deviceId packet
  | rotateDeviceSession A deviceId row => rotateStmts (A.random "sessionId") deviceId row

def accepted (F : Formats) : ConfirmedCall → Bool
  | finishRecoveryV2 _ _ _ _ request _ =>
    recoveryPacketV2Schema request.newEncryptedRecoveryPacket &&
      recoverySigningPublicKeySchema request.newRecoverySigningPublicKey &&
      deviceVaultKeyPacketSchema F request.device.encryptedVaultKeyPacket
  | rotateRecoveryV2 _ _ packet key => recoveryPacketV2Schema packet && recoverySigningPublicKeySchema key
  | migrateRecoveryV1 _ packet key => recoveryPacketV2Schema packet && recoverySigningPublicKeySchema key
  | approveDeviceWithVaultKey _ _ _ packet => deviceVaultKeyPacketSchema F packet
  | rotateDeviceSession _ _ _ => true

/-- The rows the operation reads back are as its batch leaves them. -/
def inPlace (F : Formats) (db : Db) : ConfirmedCall → Bool
  | finishRecoveryV2 _ user _ challenge request _ =>
    (db.users.get? user.1).any (·.authEpoch = user.2.authEpoch + 1) &&
      ((db.recoveryPackets.get? user.1).bind (·.record)).any (fun r => r.protocolVersion = 2 &&
        (r.generation : Int) = (challenge.recoveryGeneration.map (Int.ofNat ·)).getD (-1) + 1) &&
      (deviceOf user.1 request.device.id db).any (·.status = .approved) &&
      (db.deviceVaultKeys.get? (user.1, request.device.id)).bind (·.parse F) =
        some request.device.encryptedVaultKeyPacket
  | rotateRecoveryV2 user expectedGeneration packet key =>
    (db.users.get? user.1).any (fun u => u.authEpoch = user.2.authEpoch && u.encryptedRecoveryPacket = .v2 packet) &&
      ((db.recoveryPackets.get? user.1).bind (·.record)).any fun r => r.protocolVersion = 2 &&
        r.generation = expectedGeneration + 1 && r.signingPublicKey = some key && r.encryptedRecoveryPacket = .v2 packet
  | migrateRecoveryV1 userId packet key =>
    ((db.recoveryPackets.get? userId).bind (·.record)).any fun r => r.protocolVersion = 2 &&
      r.signingPublicKey = some key && r.encryptedRecoveryPacket = .v2 packet
  | approveDeviceWithVaultKey _ userId deviceId packet =>
    (deviceOf userId deviceId db).any (·.status = .approved) &&
      (db.deviceVaultKeys.get? (userId, deviceId)).bind (·.parse F) = some packet
  | rotateDeviceSession A _ row =>
    (sessionByTokenHash row.tokenHash db).any fun r =>
      r.1 = A.random "sessionId" && A.now "findSessionByTokenHash" < r.2.expiresAt

/-- The state a batch may be prepared for: a session's random id is new and its lifetime not over, and the rotation of
a recovery code is not a repetition, whose batch would touch the user's row once more. -/
def unspent (db : Db) : ConfirmedCall → Bool
  | rotateDeviceSession A _ row =>
    (db.sessions.get? (A.random "sessionId")).isNone && A.now "findSessionByTokenHash" < row.expiresAt
  | rotateRecoveryV2 user expectedGeneration packet key =>
    !(db.recoveryPackets.get? user.1).any fun r => r.generation = expectedGeneration + 1 && r.holds packet key
  | _ => true

end ConfirmedCall

/-! ## What the batches leave -/

theorem setDevices_self (db : Db) : setDevices db db.trustedDevices = db := by
  have hsessions : (db.sessions.deleteWhere fun _ s =>
      s.deviceId.any fun d => db.trustedDevices.contains d && !db.trustedDevices.contains d) = db.sessions :=
    Table.deleteWhere_eq_self fun _ s _ => by simp
  unfold setDevices
  rw [hsessions]

section
variable {F : Formats} {s s' : Db}

theorem unchanged {q r : AccountStmt} (hx : execAll AccountStmt.exec [q, r] s = some s') (hq : q.exec s = some s)
    (hr : r.exec s = some s) : s' = s := by
  have hsame : execAll AccountStmt.exec [q, r] s = some s := by
    refine execAll_fixed _ fun p hp => ?_
    rcases List.mem_cons.mp hp with rfl | hp
    · exact hq
    · exact List.mem_singleton.mp hp ▸ hr
  exact Option.some.inj (hx.symm.trans hsame)

theorem record_of_holds {row : RecoveryPacketRow} {packet : RecoveryPacketV2} {key : String}
    (hpacket : recoveryPacketV2Schema packet = true) (hkey : recoverySigningPublicKeySchema key = true)
    (h : row.holds packet key = true) : row.record = some ⟨2, .v2 packet, some key, row.generation⟩ := by
  obtain ⟨encrypted, version, signing, generation⟩ := row
  simp only [RecoveryPacketRow.holds, Bool.and_eq_true, decide_eq_true_eq] at h
  obtain ⟨⟨rfl, rfl⟩, rfl⟩ := h
  simp [RecoveryPacketRow.record, hpacket, hkey]

theorem parse_accepted {packet : DeviceVaultKeyPacket} (h : deviceVaultKeyPacketSchema F packet = true) :
    (VaultKeyBlob.packet packet).parse F = some packet := if_pos h

theorem holds_renew {packet : RecoveryPacketV2} {key : String} {row : RecoveryPacketRow} :
    (row.renew packet key).holds packet key = true := by simp [RecoveryPacketRow.renew, RecoveryPacketRow.holds]

theorem insertSession_token {id : String} {row : SessionRow} {t : Table String SessionRow}
    (h : insertSession s id row = some t) {k : String} {r : SessionRow} (hr : s.sessions.get? k = some r) :
    r.tokenHash ≠ row.tokenHash := by
  unfold insertSession at h
  split at h
  · cases h
  · next htoken =>
    intro he
    refine htoken (Table.any_eq_true.mpr ⟨k, r, hr, decide_eq_true he⟩)

theorem head_of_only {α : Type} {l : List α} {x : α} (hmem : x ∈ l) (honly : ∀ y ∈ l, y = x) : l.head? = some x := by
  cases l with
  | nil => cases hmem
  | cons y l => rw [List.head?_cons, honly y List.mem_cons_self]

/-- The session that a rotation inserts is the one that is found under its token. -/
theorem rotate_leaves {id : String} {d : DeviceId} {row : SessionRow} (hid : s.sessions.get? id = none)
    (hx : execAll AccountStmt.exec (rotateStmts id d row) s = some s') :
    s' = s ∨ sessionByTokenHash row.tokenHash s' = some (id, row) := by
  -- if the insertion is not let in, the deletion that looks for the new row finds none
  by_cases hallow : RotationAllowed d row s
  · right
    obtain ⟨m, h1, hrest⟩ := (execAll_cons _).mp hx
    obtain ⟨a', h2, ⟨⟩⟩ := (execAll_cons _).mp hrest
    have husers : s'.users = s.users := ((exec_frame h2).users nofun).trans ((exec_frame h1).users nofun)
    have hins := exec_sessions h1
    rw [SessionStmt.exec, if_pos (rotationAllowed_iff.mp hallow)] at hins
    obtain ⟨-, hget⟩ := insertSession_get? hins
    have hdel := exec_sessions h2
    have hmine : s'.sessions.get? id = some row := by
      unfold SessionStmt.exec at hdel
      dsimp only at hdel
      split at hdel
      · rw [← Option.some.inj hdel, Table.get?_deleteWhere, hget, if_pos rfl]
        simp
      · rw [← Option.some.inj hdel, hget, if_pos rfl]
    have hsub : ∀ k r, s'.sessions.get? k = some r → m.sessions.get? k = some r := by
      intro k r hr
      unfold SessionStmt.exec at hdel
      dsimp only at hdel
      split at hdel
      · rw [← Option.some.inj hdel, Table.get?_deleteWhere] at hr
        exact (Option.filter_eq_some_iff.mp hr).1
      · rwa [← Option.some.inj hdel] at hr
    have hepoch : (s'.users.get? row.userId).any (·.authEpoch = row.authEpoch) = true := by
      obtain ⟨user, huser, he⟩ := (Option.any_eq_true ..).mp hallow.1
      rw [husers, huser]
      exact decide_eq_true (of_decide_eq_true he).symm
    have hmatch : (decide (row.tokenHash = row.tokenHash) &&
        (s'.users.get? row.userId).any (·.authEpoch = row.authEpoch)) = true := by
      rw [hepoch, decide_eq_true rfl]
      rfl
    refine head_of_only (Table.mem_select.mpr ⟨hmine, hmatch⟩) fun x hx => ?_
    obtain ⟨k, r⟩ := x
    obtain ⟨hr, hmatch⟩ := Table.mem_select.mp hx
    have htoken : r.tokenHash = row.tokenHash := by
      simp only [Bool.and_eq_true, decide_eq_true_eq] at hmatch
      exact hmatch.1
    have hr := hsub k r hr
    rw [hget] at hr
    split at hr
    · next hk => rw [hk, Option.some.inj hr]
    · exact absurd htoken (insertSession_token hins hr)
  · left
    have hfirst : (AccountStmt.sessions (.insertForDevice id d row)).exec s = some s := by
      unfold AccountStmt.exec SessionStmt.exec
      dsimp only
      rw [if_neg fun h => hallow (rotationAllowed_iff.mpr h)]
      rfl
    have hsecond : (AccountStmt.sessions (.deleteReplaced row.userId d id row.authEpoch)).exec s = some s := by
      unfold AccountStmt.exec SessionStmt.exec
      dsimp only
      rw [hid]
      rfl
    exact unchanged hx hfirst hsecond

theorem approve_leaves {A : Ambient} {u : UserId} {d : DeviceId} {packet : DeviceVaultKeyPacket}
    (hx : execAll AccountStmt.exec (approveStmts A u d packet) s = some s') :
    s' = s ∨ (deviceOf u d s').any (·.status = .approved) = true ∧
      s'.deviceVaultKeys.get? (u, d) = some (.packet packet) := by
  obtain ⟨m, h1, hrest⟩ := (execAll_cons _).mp hx
  obtain ⟨a', h2, ⟨⟩⟩ := (execAll_cons _).mp hrest
  have hdevices : m.trustedDevices = s.trustedDevices := (exec_frame h1).devices nofun
  have hkeys : s'.deviceVaultKeys = m.deviceVaultKeys := (exec_frame h2).vaultKeys nofun
  have hupdate := Option.some.inj (exec_devices h2)
  -- the packet and the approval look for the same pending device
  by_cases hready : ∃ r, s.trustedDevices.get? d = some r ∧ r.userId = u ∧ r.status = .pending ∧
      m.deviceVaultKeys.get? (u, d) = some (.packet packet)
  · right
    obtain ⟨r, hr, hu, hpending, hkey⟩ := hready
    refine ⟨?_, by rw [hkeys, hkey]⟩
    unfold deviceOf
    rw [← hupdate, Table.get?_updateWhere, hdevices, hr, Option.map_some]
    simp [hu, hpending, hkey]
  · left
    have hfirst : (AccountStmt.vaultKeys (.insertIfPending u d packet)).exec s = some s := by
      have hkey := exec_vaultKeys h1
      unfold VaultKeyStmt.exec at hkey
      unfold AccountStmt.exec VaultKeyStmt.exec
      dsimp only at hkey ⊢
      split at hkey
      · next hmine =>
        obtain ⟨r, hr, hcond⟩ := (Option.any_eq_true ..).mp hmine
        simp only [Bool.and_eq_true, decide_eq_true_eq] at hcond
        refine absurd ⟨r, hr, hcond.1.1, hcond.1.2, ?_⟩ hready
        rw [← Option.some.inj hkey, Table.get?_set, if_pos rfl]
      · next hnot =>
        rw [if_neg hnot]
        rfl
    obtain rfl : m = s := Option.some.inj (h1.symm.trans hfirst)
    refine unchanged hx hfirst ?_
    unfold AccountStmt.exec DeviceStmt.exec
    dsimp only
    rw [Table.updateWhere_eq_self]
    · exact congrArg some (setDevices_self _)
    · intro k r hr
      rw [← Bool.not_eq_true]
      intro hp
      simp only [Bool.and_eq_true, decide_eq_true_eq] at hp
      obtain ⟨⟨⟨rfl, hu⟩, hpending⟩, hkey⟩ := hp
      exact hready ⟨r, hr, hu, hpending, hkey⟩

/-- The user's copy is replaced only beside a row that holds the packet. -/
theorem migrate_leaves {u : UserId} {packet : RecoveryPacketV2} {key : String}
    (hx : execAll AccountStmt.exec (migrateStmts u packet key) s = some s') :
    s' = s ∨ ∃ row, s'.recoveryPackets.get? u = some row ∧ row.holds packet key = true := by
  obtain ⟨m, h1, hrest⟩ := (execAll_cons _).mp hx
  obtain ⟨a', h2, ⟨⟩⟩ := (execAll_cons _).mp hrest
  have hrows : s'.recoveryPackets = m.recoveryPackets := (exec_frame h2).packets nofun
  -- the second statement looks at what the first one left
  by_cases hholds : (m.recoveryPackets.get? u).any (·.holds packet key) = true
  · right
    obtain ⟨row, hrow, h⟩ := (Option.any_eq_true ..).mp hholds
    exact ⟨row, hrows ▸ hrow, h⟩
  · left
    have hfirst : (AccountStmt.packets (.migrate u packet key)).exec s = some s := by
      have hput := exec_packets h1
      unfold PacketStmt.exec at hput
      unfold AccountStmt.exec PacketStmt.exec
      dsimp only at hput ⊢
      cases hold : s.recoveryPackets.get? u with
      | none =>
        rw [hold] at hput
        dsimp only at hput
        split at hput
        · rw [← Option.some.inj hput, Table.get?_set, if_pos rfl] at hholds
          exact absurd (@holds_renew packet key ⟨.v2 packet, 1, none, 0⟩) hholds
        · cases hput
      | some row =>
        rw [hold] at hput
        dsimp only at hput ⊢
        split at hput
        · rw [← Option.some.inj hput, Table.get?_set, if_pos rfl] at hholds
          exact absurd holds_renew hholds
        · next hv =>
          rw [if_neg hv]
          rfl
    obtain rfl : m = s := Option.some.inj (h1.symm.trans hfirst)
    refine unchanged hx hfirst ?_
    unfold AccountStmt.exec UsersStmt.exec
    dsimp only
    rw [Table.updateWhere_eq_self]
    · rfl
    · intro k r hr
      rw [← Bool.not_eq_true]
      intro hp
      simp only [Bool.and_eq_true, decide_eq_true_eq] at hp
      obtain ⟨rfl, hp⟩ := hp
      exact hholds hp

theorem rotateRecovery_leaves {user : StoredUser} {g : Nat} {packet : RecoveryPacketV2} {key : String}
    (hnew : (s.recoveryPackets.get? user.1).any (fun r => r.generation = g + 1 && r.holds packet key) = false)
    (hx : execAll AccountStmt.exec (rotateRecoveryStmts user g packet key) s = some s') :
    s' = s ∨ (counts AccountStmt.exec AccountStmt.changes (rotateRecoveryStmts user g packet key) s).headD 0 = 1 ∧
      (s'.users.get? user.1).any (fun u => u.authEpoch = user.2.authEpoch && u.encryptedRecoveryPacket = .v2 packet) =
        true ∧
      ∃ row, s'.recoveryPackets.get? user.1 = some row ∧ row.holds packet key = true ∧ row.generation = g + 1 := by
  obtain ⟨m, h1, hrest⟩ := (execAll_cons _).mp hx
  obtain ⟨a', h2, ⟨⟩⟩ := (execAll_cons _).mp hrest
  have hrows : s'.recoveryPackets = m.recoveryPackets := (exec_frame h2).packets nofun
  have husers : m.users = s.users := (exec_frame h1).users nofun
  have hput := Option.some.inj (exec_packets h1)
  -- the row moves under its generation and epoch; the user's column follows the row
  by_cases hcond : ((s.recoveryPackets.get? user.1).any (fun r => r.protocolVersion = 2 && r.generation = g) &&
      epochHolds s user.1 (some user.2.authEpoch)) = true
  · right
    obtain ⟨hrow, hepoch⟩ := Bool.and_eq_true_iff.mp hcond
    obtain ⟨row, hrow, hversion⟩ := (Option.any_eq_true ..).mp hrow
    obtain ⟨u, hu, he⟩ := (Option.any_eq_true ..).mp hepoch
    simp only [Bool.and_eq_true, decide_eq_true_eq] at hversion
    have hm : m.recoveryPackets.get? user.1 = some (row.renew packet key) := by
      rw [← hput, Table.get?_updateWhere, hrow, Option.map_some, if_pos]
      simp [hversion, hepoch]
    refine ⟨?_, ?_, row.renew packet key, hrows ▸ hm, holds_renew, congrArg (· + 1) hversion.2⟩
    · change (AccountStmt.packets (.rotate user.1 g user.2.authEpoch packet key)).changes s = 1
      unfold AccountStmt.changes
      dsimp only
      rw [if_pos hcond]
    · have he : u.authEpoch = user.2.authEpoch := (of_decide_eq_true he).symm
      have hmine : (m.recoveryPackets.get? user.1).any (fun p => p.generation = g + 1 && p.holds packet key) = true := by
        rw [hm, Option.any_some, holds_renew, Bool.and_true]
        exact decide_eq_true (congrArg (· + 1) hversion.2)
      rw [← Option.some.inj (exec_users h2), Table.get?_updateWhere, husers, hu, Option.map_some, if_pos]
      · simp [he]
      · simp [he, hmine]
  · left
    have hfirst : (AccountStmt.packets (.rotate user.1 g user.2.authEpoch packet key)).exec s = some s := by
      unfold AccountStmt.exec PacketStmt.exec
      dsimp only
      rw [Table.updateWhere_eq_self]
      · rfl
      · intro k r hr
        rw [← Bool.not_eq_true]
        intro hp
        simp only [Bool.and_eq_true, decide_eq_true_eq] at hp
        obtain ⟨⟨⟨rfl, hv⟩, hg⟩, hepoch⟩ := hp
        refine hcond ?_
        rw [hr, hepoch]
        simp [hv, hg]
    refine unchanged hx hfirst ?_
    unfold AccountStmt.exec UsersStmt.exec
    dsimp only
    rw [Table.updateWhere_eq_self]
    · rfl
    · intro k r hr
      rw [← Bool.not_eq_true]
      intro hp
      simp only [Bool.and_eq_true, decide_eq_true_eq] at hp
      obtain ⟨⟨rfl, -⟩, hp⟩ := hp
      rw [hp] at hnew
      cases hnew

/-- What the operation looks for is in place once its batch changed anything. -/
theorem batch_leaves {c : ConfirmedCall} (hc : c.accepted F = true) (hs : c.unspent s = true)
    (hx : execAll AccountStmt.exec c.stmts s = some s') (hne : s' ≠ s) : c.inPlace F s' = true := by
  cases c with
  | finishRecoveryV2 A user challengeId challenge request hash =>
    have hr := finish_recovered hx
    obtain ⟨_, u, row, hclaimed⟩ := finish_claimed hx
    simp only [ConfirmedCall.accepted, Bool.and_eq_true] at hc
    have hu : s.users.get? user.1 = some u := hclaimed.account
    have hexpected : u.authEpoch = user.2.authEpoch := hclaimed.expected
    have hrow : s.recoveryPackets.get? user.1 = some row := hclaimed.record
    have hgen : challenge.recoveryGeneration = some row.generation := hclaimed.expectedGeneration
    have hrecord := record_of_holds hc.1.1 hc.1.2 (@holds_renew _ _ row)
    obtain ⟨device, hdevice, hmine, happroved, -⟩ := hr.installed
    have hdeviceOf : deviceOf user.1 request.device.id s' = some device := deviceOf_eq.mpr ⟨hdevice, hmine⟩
    unfold ConfirmedCall.inPlace
    dsimp only
    rw [hr.users, hu, hr.packets, hrow, hdeviceOf, hr.keys]
    simp only [if_true, Option.map_some, Option.bind_some, hrecord, parse_accepted hc.2, Option.any_some, hexpected,
      happroved, hgen]
    simp [RecoveryPacketRow.renew]
  | rotateRecoveryV2 user g packet key =>
    simp only [ConfirmedCall.accepted, Bool.and_eq_true] at hc
    have hnew : (s.recoveryPackets.get? user.1).any (fun r => r.generation = g + 1 && r.holds packet key) = false :=
      (Bool.not_eq_true' _).mp hs
    obtain ⟨-, huser, row, hrow, hholds, hgen⟩ := (rotateRecovery_leaves hnew hx).resolve_left hne
    unfold ConfirmedCall.inPlace
    dsimp only
    rw [huser, hrow, Option.bind_some, record_of_holds hc.1 hc.2 hholds]
    simp [hgen]
  | migrateRecoveryV1 u packet key =>
    simp only [ConfirmedCall.accepted, Bool.and_eq_true] at hc
    obtain ⟨row, hrow, hholds⟩ := (migrate_leaves hx).resolve_left hne
    unfold ConfirmedCall.inPlace
    dsimp only
    rw [hrow, Option.bind_some, record_of_holds hc.1 hc.2 hholds]
    simp
  | approveDeviceWithVaultKey A u d packet =>
    obtain ⟨happroved, hkey⟩ := (approve_leaves hx).resolve_left hne
    unfold ConfirmedCall.inPlace
    dsimp only
    rw [happroved, hkey, Option.bind_some, parse_accepted hc]
    exact decide_eq_true rfl
  | rotateDeviceSession A d row =>
    obtain ⟨hid, hexpires⟩ := Bool.and_eq_true_iff.mp hs
    have hfound := (rotate_leaves (Option.isNone_iff_eq_none.mp hid) hx).resolve_left hne
    unfold ConfirmedCall.inPlace
    dsimp only
    rw [hfound, Option.any_some, hexpires, decide_eq_true rfl]
    rfl

end

/-! ## The accesses beside the batch -/

section
variable {F : Formats} {P : Access AccountStmt → Prop}

theorem tryBatch_labels {stmts : List AccountStmt} (hcommit : P (.commit stmts)) (habort : P (.abort stmts)) :
    Prog.Labels P (tryBatch stmts) := by
  refine fun s => ⟨?_, trivial⟩
  dsimp only
  cases execAll AccountStmt.exec stmts s with
  | none => exact habort
  | some s' => exact hcommit

theorem runStmt_labels {q : AccountStmt} (hcommit : P (.commit [q])) (habort : P (.abort [q])) :
    Prog.Labels P (runStmt q) := by
  refine Prog.Labels.tryBind ((tryBatch_labels hcommit habort).tryBind fun result => ?_) fun _ => trivial
  cases result <;> trivial

variable (hquery : P .query)
include hquery

theorem read_labels {α : Type} {g : Db → α} : Prog.Labels P (read g) := fun _ => ⟨hquery, trivial⟩

theorem getRecoveryRecord_labels {u : UserId} : Prog.Labels P (getRecoveryRecord u) := by
  refine (read_labels hquery).tryBind fun row => ?_
  cases row with
  | some row => trivial
  | none => exact (read_labels hquery).tryBind fun _ => trivial

theorem getDeviceVaultKey_labels {u : UserId} {d : DeviceId} (hone : ∀ q, P (.commit [q]) ∧ P (.abort [q])) :
    Prog.Labels P (getDeviceVaultKey F u d) := by
  refine (read_labels hquery).tryBind fun stored => ?_
  split
  · trivial
  split
  · trivial
  refine (read_labels hquery).tryBind fun device => ?_
  split
  · trivial
  split
  · trivial
  refine (runStmt_labels (hone _).1 (hone _).2).tryBind fun changes => ?_
  split
  · trivial
  · exact (read_labels hquery).tryBind fun _ => trivial

theorem finishAborted_labels {A : Ambient} {user : StoredUser} {challengeId : String} {challenge : RecoveryChallengeRow}
    {request : RecoveryFinishUnsignedRequest} :
    Prog.Labels P (finishAborted A user challengeId challenge request) := by
  refine (read_labels hquery).tryBind fun owner => ?_
  split
  · trivial
  refine (read_labels hquery).tryBind fun freshUser => (getRecoveryRecord_labels hquery).tryBind fun freshRecord =>
    (read_labels hquery).tryBind fun freshChallenge => Prog.Labels.tryBind ?_ fun registration =>
    (read_labels hquery).tryBind fun claim => ?_
  · exact (read_labels hquery).tryBind fun _ => trivial
  · split <;> trivial

end

/-! ## Throws and their cause -/

/-- Where the operation throws, its batch changed nothing, or the rows were in place and then missed. -/
def Explained (F : Formats) (c : ConfirmedCall) (tr : AccountTrace) (r : Except AccountError Unit) : Prop :=
  ∀ err, r = .error err → ∀ b ∈ tr, b.label = .commit c.stmts → c.unspent b.before = true →
    b.after = b.before ∨ c.inPlace F b.after = true ∧ ∃ t, Misses (fun db => c.inPlace F db = true) (t ++ [b]) tr

section
variable {F : Formats} {c : ConfirmedCall} {tr : AccountTrace} (hc : c.accepted F = true)
include hc

omit hc in
theorem starts {P : Step Db (Access AccountStmt) → Prop} (tr : AccountTrace) : ∃ t, tr = tr ++ t ∧ ∀ x ∈ t, P x :=
  ⟨[], (List.append_nil _).symm, fun _ h => absurd h List.not_mem_nil⟩

omit hc in
theorem only_batch {t : AccountTrace} {x b : Step Db (Access AccountStmt)}
    (htr : ∀ x ∈ tr, x.label ≠ .commit c.stmts) (ht : ∀ x ∈ t, x.label ≠ .commit c.stmts)
    (hb : b ∈ tr ++ [x] ++ t) (hlabel : b.label = .commit c.stmts) : b = x := by
  rcases List.mem_append.mp hb with hb | hb
  · rcases List.mem_append.mp hb with hb | hb
    · exact absurd hlabel (htr b hb)
    · exact List.mem_singleton.mp hb
  · exact absurd hlabel (ht b hb)

theorem confirmed_batch {k : Option (List Nat) → AccountProg Unit} (htr : ∀ x ∈ tr, x.label ≠ .commit c.stmts)
    (hlabels : ∀ r, Prog.Labels (· ≠ .commit c.stmts) (k r))
    (hsettles : ∀ s s', execAll AccountStmt.exec c.stmts s = some s' → s' ≠ s → c.unspent s = true →
      Settles (fun db => c.inPlace F db = true) (k (some (counts AccountStmt.exec AccountStmt.changes c.stmts s)))) :
    Sat (fun _ _ => True) (Explained F c) (tryBatch c.stmts >>= k : AccountProg Unit) tr := by
  intro s
  refine ⟨trivial, ?_⟩
  dsimp only
  cases hx : execAll AccountStmt.exec c.stmts s with
  | none =>
    refine ((hlabels none).sat (starts _)).mono fun tr' r h => ?_
    obtain ⟨t, rfl, ht⟩ := h
    intro err _ b hb hlabel
    rw [only_batch htr ht hb hlabel] at hlabel
    cases hlabel
  | some s' =>
    have hrest := (hlabels (some (counts AccountStmt.exec AccountStmt.changes c.stmts s))).sat
      (starts (tr ++ [⟨.commit c.stmts, s, s'⟩]))
    by_cases hsame : s' = s
    · refine hrest.mono fun tr' r h => ?_
      obtain ⟨t, rfl, ht⟩ := h
      intro err _ b hb hlabel _
      rw [only_batch htr ht hb hlabel]
      exact .inl hsame
    · cases hunspent : c.unspent s with
      | false =>
        refine hrest.mono fun tr' r h => ?_
        obtain ⟨t, rfl, ht⟩ := h
        intro err _ b hb hlabel hb'
        rw [only_batch htr ht hb hlabel, hunspent] at hb'
        cases hb'
      | true =>
        have hmisses := (hsettles s s' hx hsame hunspent).sat
          (starts (tr ++ [⟨.commit c.stmts, s, s'⟩]))
        refine ((hrest.both hmisses).imp fun _ _ _ => trivial).mono fun tr' r h => ?_
        obtain ⟨⟨t, rfl, ht⟩, hmiss⟩ := h
        intro err herr b hb hlabel _
        rw [only_batch htr ht hb hlabel]
        exact .inr ⟨batch_leaves hc hunspent hx hsame, tr, hmiss err herr⟩

omit hc in
theorem accountBatch_bind {stmts : List AccountStmt} {k : List Nat → AccountProg Unit} :
    (accountBatch stmts >>= k) = tryBatch stmts >>= fun r =>
      match r with
      | some changes => k changes
      | none => TryProg.throw .databaseError := by
  refine congrArg (Prog.act _) (funext fun s => ?_)
  dsimp only
  cases execAll AccountStmt.exec stmts s with
  | none => rfl
  | some s' => rfl

omit hc in
theorem not_batch {q : AccountStmt} : Access.commit [q] ≠ .commit c.stmts ∧ Access.abort [q] ≠ .commit c.stmts := by
  refine ⟨fun h => ?_, nofun⟩
  have hlength := congrArg List.length (Access.commit.inj h)
  cases c <;> exact absurd hlength (by simp [ConfirmedCall.stmts, finishRecoveryStmts, rotateRecoveryStmts, migrateStmts,
    approveStmts, rotateStmts])

omit hc in
theorem vaultKey_settles {S : Db → Prop} {u : UserId} {d : DeviceId} {packet : DeviceVaultKeyPacket}
    {k : Option DeviceVaultKeyPacket → AccountProg Unit}
    (hstored : ∀ s, S s → (s.deviceVaultKeys.get? (u, d)).bind (·.parse F) = some packet)
    (hk : Settles S (k (some packet))) : Settles S (getDeviceVaultKey F u d >>= k : AccountProg Unit) := by
  intro s hs
  refine ⟨rfl, ?_⟩
  obtain ⟨blob, hblob, hparse⟩ := Option.bind_eq_some_iff.mp (hstored s hs)
  dsimp only
  rw [hblob]
  simp only [Prog.bind, hparse]
  exact hk

omit hc in
theorem record_settles {S : Db → Prop} {u : UserId} {k : Option RecoveryRecord → AccountProg Unit}
    (hstored : ∀ s, S s → ∃ record, (s.recoveryPackets.get? u).bind (·.record) = some record ∧
      Settles S (k (some record))) : Settles S (getRecoveryRecord u >>= k : AccountProg Unit) := by
  intro s hs
  refine ⟨rfl, ?_⟩
  obtain ⟨record, hrecord, hk⟩ := hstored s hs
  obtain ⟨row, hrow, hr⟩ := Option.bind_eq_some_iff.mp hrecord
  dsimp only
  rw [hrow]
  change Settles S (k row.record)
  rw [hr]
  exact hk

end

section
variable {F : Formats} {A : Ambient}

theorem rotateDeviceSession_explained {d : DeviceId} {row : SessionRow}
    (hc : ConfirmedCall.accepted F (.rotateDeviceSession A d row) = true) :
    Sat (fun _ _ => True) (Explained F (.rotateDeviceSession A d row)) (rotateDeviceSession A d row) [] := by
  unfold rotateDeviceSession
  rw [accountBatch_bind]
  refine confirmed_batch hc (fun _ h => absurd h List.not_mem_nil) (fun r => ?_) fun s s' _ _ _ => ?_
  · cases r with
    | none => trivial
    | some changes =>
      refine Prog.Labels.tryBind ((read_labels nofun).tryBind fun _ => trivial) fun inserted => ?_
      split <;> trivial
  · refine fun m hm => ⟨rfl, ?_⟩
    obtain ⟨found, hfound, hmine⟩ := (Option.any_eq_true ..).mp hm
    obtain ⟨hid, hexpires⟩ := Bool.and_eq_true_iff.mp hmine
    have hkept : (sessionByTokenHash row.tokenHash m).filter (fun r => A.now "findSessionByTokenHash" < r.2.expiresAt) =
        some found := Option.filter_eq_some_iff.mpr ⟨hfound, hexpires⟩
    have hfinds : ∀ x, x = some found → Settles (fun db => ConfirmedCall.inPlace F db (.rotateDeviceSession A d row) = true)
        (if x.all (·.1 ≠ A.random "sessionId") then TryProg.throw .authEpochChanged else pure () : AccountProg Unit) := by
      rintro _ rfl
      rw [Option.all_some, of_decide_eq_true hid, if_neg (by simp)]
      exact Settles.ret ()
    exact hfinds _ hkept

theorem approve_explained {u : UserId} {d : DeviceId} {packet : DeviceVaultKeyPacket}
    (hc : ConfirmedCall.accepted F (.approveDeviceWithVaultKey A u d packet) = true) :
    Sat (fun _ _ => True) (Explained F (.approveDeviceWithVaultKey A u d packet))
      (approveDeviceWithVaultKey F A u d packet) [] := by
  unfold approveDeviceWithVaultKey
  rw [accountBatch_bind]
  refine confirmed_batch hc (fun _ h => absurd h List.not_mem_nil) (fun r => ?_) fun s s' _ _ _ => ?_
  · cases r with
    | none => trivial
    | some changes =>
      refine (read_labels nofun).tryBind fun device =>
        (getDeviceVaultKey_labels nofun fun q => not_batch).tryBind fun storedPacket => ?_
      split <;> trivial
  · refine Settles.read fun m hm => vaultKey_settles (fun m' hm' => of_decide_eq_true (Bool.and_eq_true_iff.mp hm').2) ?_
    obtain ⟨row, hrow, happroved⟩ := (Option.any_eq_true ..).mp (Bool.and_eq_true_iff.mp hm).1
    rw [hrow, if_neg]
    · exact Settles.ret ()
    · rw [Option.map_some, Option.all_some]
      simp [rowToDevice, of_decide_eq_true happroved]

theorem migrate_explained {u : UserId} {packet : RecoveryPacketV2} {key : String}
    (hc : ConfirmedCall.accepted F (.migrateRecoveryV1 u packet key) = true) :
    Sat (fun _ _ => True) (Explained F (.migrateRecoveryV1 u packet key)) (migrateRecoveryV1 u packet key) [] := by
  unfold migrateRecoveryV1
  refine Sat.bind ((getRecoveryRecord_labels (P := (· ≠ .commit (migrateStmts u packet key))) nofun).sat (starts []))
    fun tr r _ htr => ?_
  obtain ⟨t, htr, ht⟩ := htr
  rw [List.nil_append] at htr
  rw [← htr] at ht
  have hbefore : ∀ err : AccountError, Explained F (.migrateRecoveryV1 u packet key) tr (.error err) :=
    fun err _ _ b hb hlabel => absurd hlabel (ht b hb)
  cases r with
  | error err => exact hbefore err
  | ok current =>
    cases current with
    | none => exact hbefore _
    | some current =>
      dsimp only
      split
      · exact hbefore _
      · rw [accountBatch_bind]
        refine confirmed_batch hc ht (fun r => ?_) fun s s' hx hne hunspent => ?_
        · cases r with
          | none => trivial
          | some changes =>
            refine (getRecoveryRecord_labels nofun).tryBind fun migrated => ?_
            split <;> trivial
        · refine record_settles fun m hm => ?_
          obtain ⟨record, hrecord, hmatch⟩ := (Option.any_eq_true ..).mp hm
          refine ⟨record, hrecord, ?_⟩
          rw [if_pos]
          · exact Settles.ret ()
          · rw [Option.any_some, hmatch]

theorem rotateRecovery_explained {user : StoredUser} {g : Nat} {packet : RecoveryPacketV2} {key : String}
    (hc : ConfirmedCall.accepted F (.rotateRecoveryV2 user g packet key) = true) :
    Sat (fun _ _ => True) (Explained F (.rotateRecoveryV2 user g packet key)) (rotateRecoveryV2 user g packet key)
      [] := by
  unfold rotateRecoveryV2
  rw [accountBatch_bind]
  refine confirmed_batch hc (fun _ h => absurd h List.not_mem_nil) (fun r => ?_) fun s s' hx hne hunspent => ?_
  · cases r with
    | none => trivial
    | some changes =>
      dsimp only
      split
      · trivial
      · refine (read_labels nofun).tryBind fun committedUser =>
          (getRecoveryRecord_labels nofun).tryBind fun committedRecord => ?_
        split <;> trivial
  · have hnew : (s.recoveryPackets.get? user.1).any (fun r => r.generation = g + 1 && r.holds packet key) = false :=
      (Bool.not_eq_true' _).mp hunspent
    obtain ⟨hcount, -⟩ := (rotateRecovery_leaves hnew hx).resolve_left hne
    dsimp only
    rw [if_neg fun h => h hcount]
    refine Settles.read fun m hm => record_settles fun m' hm' => ?_
    obtain ⟨record, hrecord, hmatch⟩ := (Option.any_eq_true ..).mp (Bool.and_eq_true_iff.mp hm').2
    refine ⟨record, hrecord, ?_⟩
    rw [if_pos]
    · exact Settles.ret ()
    · rw [Option.any_some, hmatch, (Bool.and_eq_true_iff.mp hm).1]
      rfl

theorem finish_explained {user : StoredUser} {challengeId : String} {challenge : RecoveryChallengeRow}
    {request : RecoveryFinishUnsignedRequest} {hash : String}
    (hc : ConfirmedCall.accepted F (.finishRecoveryV2 A user challengeId challenge request hash) = true) :
    Sat (fun _ _ => True) (Explained F (.finishRecoveryV2 A user challengeId challenge request hash))
      (finishRecoveryV2 F A user challengeId challenge request hash) [] := by
  unfold finishRecoveryV2
  refine confirmed_batch hc (fun _ h => absurd h List.not_mem_nil) (fun r => ?_) fun s s' hx hne hunspent => ?_
  · split
    · exact finishAborted_labels nofun
    · refine (read_labels nofun).tryBind fun committedUser => (getRecoveryRecord_labels nofun).tryBind fun committedRecord =>
        (read_labels nofun).tryBind fun committedDevice =>
        (getDeviceVaultKey_labels nofun fun q => not_batch).tryBind fun committedPacket => ?_
      split <;> trivial
  · rw [if_neg (by simp)]
    refine Settles.read fun m hm => record_settles fun m' hm' => ?_
    obtain ⟨record, hrecord, hmatch⟩ :=
      (Option.any_eq_true ..).mp (Bool.and_eq_true_iff.mp (Bool.and_eq_true_iff.mp (Bool.and_eq_true_iff.mp hm').1).1).2
    refine ⟨record, hrecord, Settles.read fun m₂ hm₂ => vaultKey_settles
      (fun m₃ hm₃ => of_decide_eq_true (Bool.and_eq_true_iff.mp hm₃).2) ?_⟩
    obtain ⟨row, hrow, happroved⟩ :=
      (Option.any_eq_true ..).mp (Bool.and_eq_true_iff.mp (Bool.and_eq_true_iff.mp hm₂).1).2
    rw [if_pos]
    · exact Settles.ret ()
    · rw [(Bool.and_eq_true_iff.mp (Bool.and_eq_true_iff.mp (Bool.and_eq_true_iff.mp hm).1).1).1, Option.any_some, hmatch,
        hrow, Option.map_some, Option.any_some, decide_eq_true rfl, Bool.and_true, Bool.true_and, Bool.true_and]
      exact happroved

theorem confirmed_sat (c : ConfirmedCall) (hc : c.accepted F = true) :
    Sat (fun _ _ => True) (Explained F c) (c.code F) [] := by
  cases c with
  | finishRecoveryV2 => exact finish_explained hc
  | rotateRecoveryV2 => exact rotateRecovery_explained hc
  | migrateRecoveryV1 => exact migrate_explained hc
  | approveDeviceWithVaultKey => exact approve_explained hc
  | rotateDeviceSession => exact rotateDeviceSession_explained hc

end

/-! ## Runs -/

/-- One of the operations, or whatever else runs beside it. -/
inductive StoreCall
  | confirmed (c : ConfirmedCall)
  | other (p : AccountProg Unit)

def StoreCall.code (F : Formats) : StoreCall → AccountProg Unit
  | confirmed c => c.code F
  | other p => p

def StoreCall.Accepted (F : Formats) : StoreCall → Prop
  | confirmed c => c.accepted F = true
  | other _ => True

abbrev StoreHistory := History StoreCall Db (Access AccountStmt)

/-- The step of another call takes away what a call that has committed is still to look for. -/
structure Supersedes (F : Formats) (pre post : StoreHistory) (j : Nat) (e : Step Db (Access AccountStmt)) (i : Nat)
    (c : ConfirmedCall) (b : Step Db (Access AccountStmt)) : Prop where
  another : i ≠ j
  committed : .step i (.confirmed c) b ∈ pre
  batch : b.label = .commit c.stmts
  pending : ∃ d, .step i (.confirmed c) d ∈ post
  before : c.inPlace F e.before = true
  after : c.inPlace F e.after = false

structure Unreplaced (F : Formats) (h : StoreHistory) : Prop where
  unspent : ∀ i c b, .step i (.confirmed c) b ∈ h → b.label = .commit c.stmts → c.unspent b.before = true
  kept : ∀ pre j d e post, h = pre ++ .step j d e :: post → ∀ i c b, ¬ Supersedes F pre post j e i c b

section
variable {F : Formats} {s₀ s : Db} {h : StoreHistory}
variable {ps : List (Proc StoreCall Db (Access AccountStmt) (Except AccountError Unit))}

theorem storeCall_sat (d : StoreCall) (hd : d.Accepted F) : Sat (fun _ _ => True) (fun tr r =>
    ∀ c, d = .confirmed c → Explained F c tr r) (d.code F) [] := by
  cases d with
  | confirmed c =>
    refine (confirmed_sat c hd).mono fun tr r hr c' he => ?_
    cases he
    exact hr
  | other p => exact Sat.any fun _ _ _ he => nomatch he

/-- In a run where nobody replaces the rows before they are read back, a throw means that nothing was committed. -/
theorem thrown_without_effect (hr : Reach (StoreCall.code F) (StoreCall.Accepted F) s₀ h s ps) (hu : Unreplaced F h)
    {i : Nat} {c : ConfirmedCall} {err : AccountError} (hp : ps[i]? = some ⟨.confirmed c, .ret (.error err)⟩)
    {d : StoreCall} {b : Step Db (Access AccountStmt)} (hb : .step i d b ∈ h) (hlabel : b.label = .commit c.stmts) :
    b.after = b.before := by
  have hcall : ∀ x d, .step i d x ∈ h → d = .confirmed c := by
    intro x d hx
    obtain ⟨p, hp', hd⟩ := reach_call hr _ hx
    cases hp.symm.trans hp'
    exact hd.symm
  have hmine : .step i (.confirmed c) b ∈ h := hcall b d hb ▸ hb
  have hexplained := reach_result storeCall_sat hr hp c rfl err rfl b (mem_own.mpr ⟨d, hb⟩) hlabel
    (hu.unspent i c b hmine hlabel)
  refine hexplained.resolve_right ?_
  rintro ⟨hplace, t, t₁, x, t₂, hown, hmissed, hquiet⟩
  rw [List.append_assoc, List.singleton_append] at hown
  obtain ⟨h₁, c₁, h₂, rfl, hown₁⟩ := own_split hown
  have hown₂ : own i h₂ = t₁ ++ x :: t₂ := by
    have hcons : own i (h₁ ++ .step i c₁ b :: h₂) = t ++ b :: own i h₂ := by
      rw [← List.singleton_append, own_append, own_append, hown₁, own_step, if_pos rfl, List.singleton_append]
    exact (List.cons.inj (List.append_cancel_left (hcons.symm.trans hown))).2
  obtain ⟨h₃, c₂, h₄, rfl, hown₃⟩ := own_split hown₂
  have hc₁ := hcall b c₁ (by simp)
  have hc₂ := hcall x c₂ (by simp)
  subst hc₁ hc₂
  -- Between the batch and the access that misses, the rows stay in place.
  have hsplit : h₁ ++ .step i (.confirmed c) b :: (h₃ ++ .step i (.confirmed c) x :: h₄) =
      (h₁ ++ [.step i (.confirmed c) b] ++ h₃) ++ .step i (.confirmed c) x :: h₄ := by simp
  rw [hsplit] at hr hu
  obtain ⟨ps₁, hr₁⟩ := reach_prefix hr
  have hkeeps : c.inPlace F (storeAfter s₀ (h₁ ++ [.step i (.confirmed c) b] ++ h₃)) = true := by
    refine reach_keeps (I := fun db => c.inPlace F db = true)
      (P := fun _ e => c.inPlace F e.before = true → c.inPlace F e.after = true) storeCall_sat
      (fun _ _ _ _ hbefore _ hkeeps => hkeeps hbefore) hr₁ (by rwa [storeAfter_snoc]) fun j d e he hbefore => ?_
    by_cases hj : i = j
    · subst hj
      have hquiet := hquiet e (hown₃ ▸ mem_own.mpr ⟨d, he⟩)
      rwa [hquiet]
    · obtain ⟨g₁, g₂, rfl⟩ := List.append_of_mem he
      by_contra hafter
      refine hu.kept (h₁ ++ [.step i (.confirmed c) b] ++ g₁) j d e (g₂ ++ .step i (.confirmed c) x :: h₄) (by simp)
        i c b ⟨hj, by simp, hlabel, ⟨x, by simp⟩, hbefore, ?_⟩
      exact (Bool.not_eq_true _).mp hafter
  rw [← reach_before hr] at hkeeps
  exact hmissed hkeeps

end

/-! ## Logins of one phone -/

def phoneStore : Db where
  users := (∅ : Table UserId UserRow).set sampleOwner sampleOwnerRow
  trustedDevices := (∅ : Table DeviceId TrustedDeviceRow).set oldDeviceId (oldDevice .approved)
  sessions := (∅ : Table String SessionRow).set "session" ⟨sampleOwner, "token", "csrf", some oldDeviceId, 4, 5000, 0⟩

def phoneLogin (name : String) (epoch : Nat) : ConfirmedCall :=
  .rotateDeviceSession ⟨fun _ => 1000, fun place => name ++ place⟩ oldDeviceId
    ⟨sampleOwner, name, "csrf", some oldDeviceId, epoch, 5000, 1000⟩

/-- Two logins that both run their batches before they read back. -/
def twoPhoneLogins (epoch : Nat) : Play StoreCall Db (Access AccountStmt) (Except AccountError Unit) :=
  play (StoreCall.code plainFormats) phoneStore
    [.issue (.confirmed (phoneLogin "first" epoch)), .issue (.confirmed (phoneLogin "second" 4)),
      .step 0, .step 1, .step 0, .step 1]

theorem twoPhoneLogins_reach (epoch : Nat) : Reach (StoreCall.code plainFormats) (StoreCall.Accepted plainFormats)
    phoneStore (twoPhoneLogins epoch).1 (twoPhoneLogins epoch).2.1 (twoPhoneLogins epoch).2.2 := by
  unfold twoPhoneLogins
  refine play_reach fun c hc => ?_
  simp only [List.mem_cons, Move.issue.injEq, reduceCtorEq, List.not_mem_nil, or_false] at hc
  rcases hc with rfl | rfl <;> exact rfl

def threw (p : Proc StoreCall Db (Access AccountStmt) (Except AccountError Unit)) : Bool :=
  match p.prog with
  | .ret (.error _) => true
  | _ => false

theorem firstLogin_threw {epoch : Nat} (h : (twoPhoneLogins epoch).2.2[0]?.any threw = true) : ∃ err,
    (twoPhoneLogins epoch).2.2[0]? = some ⟨.confirmed (phoneLogin "first" epoch), .ret (.error err)⟩ := by
  obtain ⟨⟨call, prog⟩, hp, hthrew⟩ := (Option.any_eq_true ..).mp h
  have hcall : (twoPhoneLogins epoch).2.2[0]?.map (·.call) = some (.confirmed (phoneLogin "first" epoch)) := play_call _ _
  rw [hp, Option.map_some, Option.some.injEq] at hcall
  rw [hp, ← hcall]
  unfold threw at hthrew
  split at hthrew
  · next err herr => exact ⟨err, congrArg some (congrArg (Proc.mk call) herr)⟩
  · cases hthrew

/-- The first login's batch, if it is as `p` says. -/
def runsFirst (epoch : Nat) (p : Step Db (Access AccountStmt) → Bool) : Event StoreCall Db (Access AccountStmt) → Bool
  | .step i _ e => i == 0 && p e && match e.label with
    | .commit stmts => stmts = (phoneLogin "first" epoch).stmts
    | _ => false
  | _ => false

theorem firstLogin_runs {epoch : Nat} {p : Step Db (Access AccountStmt) → Bool}
    (h : (twoPhoneLogins epoch).1.any (runsFirst epoch p) = true) : ∃ d b, .step 0 d b ∈ (twoPhoneLogins epoch).1 ∧
      b.label = .commit (phoneLogin "first" epoch).stmts ∧ p b = true := by
  obtain ⟨v, hv, hruns⟩ := List.any_eq_true.mp h
  unfold runsFirst at hruns
  split at hruns
  · next i d e =>
    obtain ⟨hfirst, hlabel⟩ := Bool.and_eq_true_iff.mp hruns
    obtain ⟨hi, hp⟩ := Bool.and_eq_true_iff.mp hfirst
    rw [beq_iff_eq.mp hi] at hv
    refine ⟨d, e, hv, ?_, hp⟩
    split at hlabel
    · next stmts hstmts => rw [hstmts, of_decide_eq_true hlabel]
    · cases hlabel
  · cases hruns

/-- `Unreplaced`, as a test that no step takes any rows away. -/
def unreplacedIn (F : Formats) (h : StoreHistory) : Bool :=
  h.all fun v => match v with
    | .issue .. => true
    | .step _ d e => (match d with
        | .confirmed c => c.unspent e.before || (match e.label with
          | .commit _ => false
          | _ => true)
        | .other _ => true) &&
      h.all fun w => match w with
        | .step _ (.confirmed c) _ => !c.inPlace F e.before || c.inPlace F e.after
        | _ => true

theorem unreplaced_of {F : Formats} {h : StoreHistory} (htest : unreplacedIn F h = true) : Unreplaced F h := by
  unfold unreplacedIn at htest
  constructor
  · intro i c b hb hlabel
    have hv := (Bool.and_eq_true_iff.mp (List.all_eq_true.mp htest _ hb)).1
    dsimp only at hv
    rw [hlabel, Bool.or_false] at hv
    exact hv
  · intro pre j d e post hh i c b hsup
    have hv := (Bool.and_eq_true_iff.mp (List.all_eq_true.mp htest (.step j d e) (by rw [hh]; simp))).2
    have hw := List.all_eq_true.mp hv _ (by rw [hh]; exact List.mem_append_left _ hsup.committed)
    dsimp only at hw
    rw [hsup.before, hsup.after] at hw
    cases hw

/-- `thrown_without_effect` where the first login is of an epoch that has passed. -/
theorem thrown_without_effect_stale : ∃ d b, .step 0 d b ∈ (twoPhoneLogins 3).1 ∧
    b.label = .commit (phoneLogin "first" 3).stmts ∧ b.after = b.before := by
  have hran : (twoPhoneLogins 3).2.2[0]?.any threw = true ∧
      (twoPhoneLogins 3).1.any (runsFirst 3 fun _ => true) = true ∧
      unreplacedIn plainFormats (twoPhoneLogins 3).1 = true := by decide +kernel
  obtain ⟨hthrew, hruns, htest⟩ := hran
  obtain ⟨err, hp⟩ := firstLogin_threw hthrew
  obtain ⟨d, b, hb, hlabel, -⟩ := firstLogin_runs hruns
  exact ⟨d, b, hb, hlabel, thrown_without_effect (twoPhoneLogins_reach 3) (unreplaced_of htest) hp hb hlabel⟩

/-- The session that the first login committed is replaced before the first login reads it back. -/
theorem superseded_login : ¬ ∀ h s ps, Reach (StoreCall.code plainFormats) (StoreCall.Accepted plainFormats) phoneStore h s
    ps → ∀ i c err d b, ps[i]? = some ⟨.confirmed c, .ret (.error err)⟩ → .step i d b ∈ h → b.label = .commit c.stmts →
    b.after = b.before := by
  intro hall
  have hran : (twoPhoneLogins 4).2.2[0]?.any threw = true ∧ (twoPhoneLogins 4).1.any (runsFirst 4 fun b =>
      b.after.sessions.contains "firstsessionId" && !b.before.sessions.contains "firstsessionId") = true := by
    decide +kernel
  obtain ⟨hthrew, hruns⟩ := hran
  obtain ⟨err, hp⟩ := firstLogin_threw hthrew
  obtain ⟨d, b, hb, hlabel, hchanged⟩ := firstLogin_runs hruns
  have hsame := hall _ _ _ (twoPhoneLogins_reach 4) 0 _ err d b hp hb hlabel
  rw [hsame, Bool.and_not_self] at hchanged
  cases hchanged

end ZeroVault

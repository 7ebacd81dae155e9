import ZeroVault.DeviceApprovals

/-!
# Vault-key packets and their devices

A structured packet is for the device it is stored under, which waits or is in
use with the packet's recipient key. Most transactions keep this. The ones that
break it (`Strands`) write a packet or a registration that was decided before
the device changed, or delete devices and leave their packets.
-/

namespace ZeroVault

open Lib

def EligibleUnder (u : UserId) (d : DeviceId) (key : String) (db : Db) : Prop :=
  ∃ row, db.trustedDevices.get? d = some row ∧ row.userId = u ∧ row.status.active = true ∧ row.publicKey = key

def HoldsPacket (u : UserId) (d : DeviceId) (p : DeviceVaultKeyPacket) (db : Db) : Prop :=
  db.deviceVaultKeys.get? (u, d) = some (.packet p)

def PacketFits (u : UserId) (d : DeviceId) (db : Db) : Prop :=
  ∀ p, HoldsPacket u d p db → p.recipientDeviceId = d ∧ EligibleUnder u d p.recipientPublicKey db

def PacketsFit (db : Db) : Prop := ∀ u d, PacketFits u d db

/-! ## One statement -/

/-- The statement may leave the device with a packet that does not fit. -/
def AccountStmt.Misfits (u : UserId) (d : DeviceId) (s : Db) : AccountStmt → Prop
  | vaultKeys (.insert userId id p) | vaultKeys (.upsert userId id p) =>
    userId = u ∧ id = d ∧ ¬ (p.recipientDeviceId = d ∧ EligibleUnder u d p.recipientPublicKey s)
  | vaultKeys (.migrate userId id stored p) =>
    userId = u ∧ id = d ∧ s.deviceVaultKeys.get? (u, d) = some (.raw stored) ∧
      ¬ (p.recipientDeviceId = d ∧ EligibleUnder u d p.recipientPublicKey s)
  | vaultKeys (.insertIfPending userId id p) => userId = u ∧ id = d ∧ p.recipientDeviceId ≠ d
  | devices (.revokeAll userId _) => userId = u ∧ ∃ p, HoldsPacket u d p s
  | devices (.install id _) => id = d ∧ ∃ p, HoldsPacket u d p s
  | devices (.setStatus userId id _ _) => userId = u ∧ id = d ∧ ∃ p, HoldsPacket u d p s
  | devices (.delete userId id epoch) => userId = u ∧ id = d ∧ epochHolds s u epoch = true ∧ ∃ p, HoldsPacket u d p s
  | devices (.deleteDuplicates userId id key fingerprint epoch) =>
    userId = u ∧ d ≠ id ∧ epochHolds s u epoch = true ∧ (∃ p, HoldsPacket u d p s) ∧
      ∃ row, s.trustedDevices.get? d = some row ∧ row.userId = u ∧ sameDevice key fingerprint row = true
  | devices (.update userId id device status _ epoch _) =>
    userId = u ∧ id = d ∧ epochHolds s u epoch = true ∧
      ∃ p, HoldsPacket u d p s ∧ ¬ (status.active = true ∧ device.publicKey = p.recipientPublicKey)
  | _ => False

section
variable {u : UserId} {d : DeviceId} {key : String} {s s' : Db} {q : AccountStmt} {t : Table DeviceId TrustedDeviceRow}

theorem EligibleUnder.of_devices (h : EligibleUnder u d key s)
    (hd : s'.trustedDevices.get? d = s.trustedDevices.get? d) : EligibleUnder u d key s' := by
  obtain ⟨row, hrow, h⟩ := h
  exact ⟨row, hd.trans hrow, h⟩

theorem PacketFits.of_same (h : PacketFits u d s) (hk : s'.deviceVaultKeys.get? (u, d) = s.deviceVaultKeys.get? (u, d))
    (hd : s'.trustedDevices.get? d = s.trustedDevices.get? d) : PacketFits u d s' := by
  intro p hp
  obtain ⟨hid, helig⟩ := h p (hk.symm.trans hp)
  exact ⟨hid, helig.of_devices hd⟩

theorem PacketFits.of_none (h : ∀ p, ¬ HoldsPacket u d p s) : PacketFits u d s := fun p hp => absurd hp (h p)

/-- A new packet fits, or the packets are as they were. -/
theorem PacketFits.put (h : PacketFits u d s) {userId : UserId} {id : DeviceId} {p : DeviceVaultKeyPacket}
    (hfit : userId = u → id = d → p.recipientDeviceId = d ∧ EligibleUnder u d p.recipientPublicKey s) :
    PacketFits u d { s with deviceVaultKeys := s.deviceVaultKeys.set (userId, id) (.packet p) } := by
  intro p' hp
  simp only [HoldsPacket, Table.get?_set] at hp
  split at hp
  · rename_i heq
    cases heq
    cases hp
    exact hfit rfl rfl
  · exact h p' hp

/-- A device is written, and where the packet's device is written the packet is for what is written. -/
theorem PacketFits.device (h : PacketFits u d s) {id : DeviceId} {row : TrustedDeviceRow}
    (hrow : id = d → ∀ p, HoldsPacket u d p s →
      row.userId = u ∧ row.status.active = true ∧ row.publicKey = p.recipientPublicKey) :
    PacketFits u d (setDevices s (s.trustedDevices.set id row)) := by
  intro p hp
  obtain ⟨hid, old, hold, helig⟩ := h p hp
  refine ⟨hid, ?_⟩
  by_cases heq : id = d
  · refine ⟨row, ?_, hrow heq p hp⟩
    change (s.trustedDevices.set id row).get? d = some row
    rw [Table.get?_set, if_pos heq.symm]
  · refine ⟨old, ?_, helig⟩
    change (s.trustedDevices.set id row).get? d = some old
    rw [Table.get?_set, if_neg (Ne.symm heq)]
    exact hold

theorem PacketFits.insert (h : PacketFits u d s) {id : DeviceId} {row : TrustedDeviceRow}
    (hi : insertDevice s id row = some t) : PacketFits u d (setDevices s t) := by
  obtain ⟨-, hfree, hput⟩ := insertDevice_eq_some.mp hi
  obtain ⟨-, rfl⟩ := putDevice_eq_some.mp hput
  refine h.device fun heq p hp => ?_
  obtain ⟨-, old, hold, -⟩ := h p hp
  rw [heq, Table.contains_eq_false, hold] at hfree
  cases hfree

theorem kept_row {t : Table DeviceId TrustedDeviceRow} {row : TrustedDeviceRow} {p : DeviceId → TrustedDeviceRow → Bool}
    (hrow : t.get? d = some row) (hp : p d row = false) : (t.deleteWhere p).get? d = t.get? d := by
  rw [Table.get?_deleteWhere, hrow, Option.filter_some, hp]
  rfl

theorem vaultKeys_fits {q : VaultKeyStmt} {t : Table (UserId × DeviceId) VaultKeyBlob} (ht : q.exec s = some t)
    (hs : PacketFits u d s) (hq : ¬ (AccountStmt.vaultKeys q).Misfits u d s) :
    PacketFits u d { s with deviceVaultKeys := t } := by
  -- what is put in place fits, or the statement misfits
  cases q with
  | insert userId id p =>
    have hput := Table.get?_insert ht
    intro p' hp
    simp only [HoldsPacket, hput] at hp
    split at hp
    · rename_i heq
      cases heq
      cases hp
      exact not_not.mp fun hno => hq ⟨rfl, rfl, hno⟩
    · exact hs p' hp
  | upsert userId id p =>
    cases ht
    exact hs.put fun hu hid => not_not.mp fun hno => hq ⟨hu, hid, hno⟩
  | insertIfPending userId id p =>
    simp only [VaultKeyStmt.exec] at ht
    split at ht
    · rename_i hpending
      cases ht
      refine hs.put fun hu hid => ⟨not_not.mp fun hno => hq ⟨hu, hid, hno⟩, ?_⟩
      rw [Option.any_eq_true] at hpending
      obtain ⟨row, hrow, hmatch⟩ := hpending
      simp only [Bool.and_eq_true, decide_eq_true_eq] at hmatch
      exact ⟨row, hid ▸ hrow, hmatch.1.1.trans hu, by rw [hmatch.1.2]; rfl, hmatch.2⟩
    · cases ht
      exact hs
  | migrate userId id stored p =>
    cases ht
    intro p' hp
    simp only [HoldsPacket, Table.get?_updateWhere] at hp
    obtain ⟨v, hv, hnew⟩ := Option.map_eq_some_iff.mp hp
    split at hnew
    · rename_i hmatch
      simp only [Bool.and_eq_true, decide_eq_true_eq, Prod.mk.injEq] at hmatch
      cases hnew
      exact not_not.mp fun hno => hq ⟨hmatch.1.1.symm, hmatch.1.2.symm, hv.trans (congrArg some hmatch.2), hno⟩
    · exact hs p' (hv.trans (congrArg some hnew))
  | deleteOf userId =>
    cases ht
    intro p hp
    simp only [HoldsPacket, Table.get?_deleteWhere, Option.filter_eq_some_iff] at hp
    exact hs p hp.1
  | delete userId id guard =>
    cases ht
    intro p hp
    simp only [HoldsPacket, Table.get?_deleteWhere, Option.filter_eq_some_iff] at hp
    exact hs p hp.1

theorem devices_fits {q : DeviceStmt} (ht : q.exec s = some t) (hs : PacketFits u d s)
    (hq : ¬ (AccountStmt.devices q).Misfits u d s) : PacketFits u d (setDevices s t) := by
  -- the device of a packet keeps its owner, status and key, or the statement strands the packet
  cases q with
  | insert id new => exact hs.insert ht
  | insertAtEpoch id new epoch =>
    simp only [DeviceStmt.exec] at ht
    split at ht
    · exact hs.insert ht
    · cases ht
      exact hs.of_same rfl rfl
  | revokeAll userId now =>
    cases ht
    by_cases hp : ∃ p, HoldsPacket u d p s
    · obtain ⟨p, hp⟩ := hp
      obtain ⟨-, row, hrow, hu, -⟩ := hs p hp
      refine hs.of_same rfl ?_
      have hne : row.userId ≠ userId := fun heq => hq ⟨heq.symm.trans hu, p, hp⟩
      simp [setDevices, Table.get?_updateWhere, hrow, hne]
    · exact .of_none fun p hp' => hp ⟨p, hp'⟩
  | install id new =>
    simp only [DeviceStmt.exec] at ht
    split at ht
    · exact hs.insert ht
    · split at ht
      · obtain ⟨-, rfl⟩ := putDevice_eq_some.mp ht
        exact hs.device fun heq p hp => absurd ⟨heq, p, hp⟩ hq
      · cases ht
        exact hs.of_same rfl rfl
  | setStatus userId id status now =>
    cases ht
    by_cases hp : ∃ p, HoldsPacket u d p s
    · obtain ⟨p, hp⟩ := hp
      obtain ⟨-, row, hrow, hu, -⟩ := hs p hp
      refine hs.of_same rfl ?_
      have hne : ¬ (d = id ∧ row.userId = userId) := fun heq => hq ⟨heq.2.symm.trans hu, heq.1.symm, p, hp⟩
      simp [setDevices, Table.get?_updateWhere, hrow, hne]
    · exact .of_none fun p hp' => hp ⟨p, hp'⟩
  | approvePending userId id packet now =>
    cases ht
    intro p hp
    obtain ⟨hid, row, hrow, hu, hact, hkey⟩ := hs p hp
    refine ⟨hid, ?_⟩
    simp only [EligibleUnder, setDevices, Table.get?_updateWhere, hrow, Option.map_some]
    split
    · exact ⟨_, rfl, hu, rfl, hkey⟩
    · exact ⟨_, rfl, hu, hact, hkey⟩
  | delete userId id epoch =>
    cases ht
    by_cases hp : ∃ p, HoldsPacket u d p s
    · obtain ⟨p, hp⟩ := hp
      obtain ⟨-, row, hrow, rfl, -⟩ := hs p hp
      refine hs.of_same rfl (kept_row hrow (Bool.eq_false_iff.mpr fun hdel => ?_))
      simp only [Bool.and_eq_true, decide_eq_true_eq] at hdel
      exact hq ⟨hdel.1.2.symm, hdel.1.1.symm, hdel.1.2 ▸ hdel.2, p, hp⟩
    · exact .of_none fun p hp' => hp ⟨p, hp'⟩
  | deleteDuplicates userId id publicKey fingerprint epoch =>
    cases ht
    by_cases hp : ∃ p, HoldsPacket u d p s
    · obtain ⟨p, hp⟩ := hp
      obtain ⟨-, row, hrow, rfl, -⟩ := hs p hp
      refine hs.of_same rfl (kept_row hrow (Bool.eq_false_iff.mpr fun hdel => ?_))
      simp only [Bool.and_eq_true, decide_eq_true_eq] at hdel
      obtain ⟨⟨⟨hu, hne⟩, hsame⟩, hepoch⟩ := hdel
      exact hq ⟨hu.symm, hne, hu ▸ hepoch, ⟨p, hp⟩, row, hrow, rfl, hsame⟩
    · exact .of_none fun p hp' => hp ⟨p, hp'⟩
  | update userId id device status hash epoch now =>
    simp only [DeviceStmt.exec] at ht
    split at ht
    · cases ht
      exact hs.of_same rfl rfl
    · rename_i old hold
      split at ht
      · rename_i hguard
        obtain ⟨-, rfl⟩ := putDevice_eq_some.mp ht
        refine hs.device fun heq p hp => ?_
        obtain ⟨-, row, hrow, hu, -⟩ := hs p hp
        cases (heq ▸ hold).symm.trans hrow
        refine ⟨hu, not_not.mp fun hno => hq ⟨hguard.1.symm.trans hu, heq, ?_, p, hp, hno⟩⟩
        rw [← hu, hguard.1]
        exact hguard.2
      · cases ht
        exact hs.of_same rfl rfl

theorem exec_fits (h : q.exec s = some s') (hs : PacketFits u d s) (hq : ¬ q.Misfits u d s) : PacketFits u d s' := by
  cases account_effect h with
  | vaultKeys ht => exact vaultKeys_fits ht hs hq
  | devices ht => exact devices_fits ht hs hq
  | _ => exact hs.of_same rfl rfl

end

/-! ## One transaction -/

/-- A packet or a registration is written over a device that has changed, or a
registration deletes a device that has a packet. -/
inductive Strands (b : Db) : List AccountStmt → Prop
  | share {u d p} : ¬ EligibleUnder u d p.recipientPublicKey b → Strands b [.vaultKeys (.upsert u d p)]
  | migrate {u d stored p} : b.deviceVaultKeys.get? (u, d) = some (.raw stored) →
      ¬ EligibleUnder u d p.recipientPublicKey b → Strands b [.vaultKeys (.migrate u d stored p)]
  | rewrite {A u d device status hash epoch p} : epochHolds b u epoch = true → HoldsPacket u d p b →
      ¬ (status.active = true ∧ device.publicKey = p.recipientPublicKey) →
      Strands b (updateDeviceStmts A u d device status hash epoch false)
  | duplicate {A u id device status hash epoch reset d p row} : epochHolds b u epoch = true → d ≠ id →
      HoldsPacket u d p b → b.trustedDevices.get? d = some row → row.userId = u →
      sameDevice device.publicKey device.fingerprint row = true →
      Strands b (updateDeviceStmts A u id device status hash epoch reset)

section
variable {u : UserId} {d : DeviceId} {b a : Db} {stmts : List AccountStmt}

theorem batch_fits (hx : execAll AccountStmt.exec stmts b = some a) (hb : PacketFits u d b)
    (hq : ∀ q ∈ stmts, ∀ m, ¬ q.Misfits u d m) : PacketFits u d a :=
  execAll_keeps AccountStmt.exec (fun q hm m _ hx hs => exec_fits hx hs (hq q hm m)) hx hb

theorem deleted_packet {userId : UserId} {id : DeviceId} {guard : Guard} {s s' : Db}
    (h : AccountStmt.exec (.vaultKeys (.delete userId id guard)) s = some s') (hg : guard.holds s userId = true)
    (p : DeviceVaultKeyPacket) : ¬ HoldsPacket userId id p s' := by
  intro hp
  rw [HoldsPacket, ← Option.some.inj (exec_vaultKeys h), Table.get?_deleteWhere] at hp
  simp [hg] at hp

theorem epoch_frame {s s' : Db} (h : s'.users = s.users) (epoch : Option Nat) :
    epochHolds s' u epoch = epochHolds s u epoch := by
  rw [epochHolds, epochHolds, h]

theorem withdraw_fits {A : Ambient} {userId : UserId} {id : DeviceId} {status : DeviceStatus}
    (hx : execAll AccountStmt.exec (withdrawStmts A userId id status) b = some a) (hb : PacketFits u d b) :
    PacketFits u d a := by
  by_cases hthis : userId = u ∧ id = d
  · obtain ⟨rfl, rfl⟩ := hthis
    obtain ⟨m1, -, hx⟩ := (execAll_cons _).mp hx
    obtain ⟨m2, -, hx⟩ := (execAll_cons _).mp hx
    obtain ⟨m3, h3, ⟨⟩⟩ := (execAll_cons _).mp hx
    exact .of_none (deleted_packet h3 rfl)
  · refine batch_fits hx hb fun q hq m hmis => ?_
    simp only [withdrawStmts, List.mem_cons, List.not_mem_nil, or_false] at hq
    rcases hq with rfl | rfl | rfl
    · exact hthis ⟨hmis.1, hmis.2.1⟩
    · exact hmis
    · exact hmis

theorem replace_fits {A : Ambient} {userId : UserId} {id : DeviceId} {device : TrustedDevice} {hash : String}
    {epoch : Option Nat}
    (hx : execAll AccountStmt.exec (replaceDeviceStmts A userId id device hash epoch) b = some a)
    (hb : PacketFits u d b) : PacketFits u d a := by
  obtain ⟨m1, h1, hx⟩ := (execAll_cons _).mp hx
  obtain ⟨m2, h2, hx⟩ := (execAll_cons _).mp hx
  obtain ⟨m3, h3, hx⟩ := (execAll_cons _).mp hx
  obtain ⟨m4, h4, ⟨⟩⟩ := (execAll_cons _).mp hx
  have hm2 : PacketFits u d m2 := exec_fits h2 (exec_fits h1 hb nofun) nofun
  refine exec_fits h4 (exec_fits h3 hm2 ?_) nofun
  -- The device's packet went in the statement before, under the same condition.
  rintro ⟨rfl, rfl, hepoch, p, hp⟩
  rw [epoch_frame ((exec_frame h2).users nofun)] at hepoch
  exact deleted_packet h2 hepoch p hp

theorem update_fits {A : Ambient} {userId : UserId} {id : DeviceId} {device : TrustedDevice} {status : DeviceStatus}
    {hash : Option String} {epoch : Option Nat} {reset : Bool}
    (hx : execAll AccountStmt.exec (updateDeviceStmts A userId id device status hash epoch reset) b = some a)
    (hb : PacketFits u d b) (hs : ¬ Strands b (updateDeviceStmts A userId id device status hash epoch reset)) :
    PacketFits u d a := by
  obtain ⟨m1, h1, hx⟩ := (execAll_cons _).mp hx
  obtain ⟨m2, h2, hx⟩ := (execAll_cons _).mp hx
  have husers : m1.users = b.users := (exec_frame h1).users (by rintro ⟨⟩)
  have hkeys : m1.deviceVaultKeys = b.deviceVaultKeys := (exec_frame h1).vaultKeys (by rintro ⟨⟩)
  have hm1 : PacketFits u d m1 := by
    refine exec_fits h1 hb ?_
    rintro ⟨rfl, hne, hepoch, ⟨p, hp⟩, row, hrow, hu, hsame⟩
    exact hs (.duplicate hepoch hne hp hrow hu hsame)
  by_cases hthis : userId = u ∧ id = d ∧ epochHolds b u epoch = true ∧ reset = true
  · obtain ⟨rfl, rfl, hepoch, rfl⟩ := hthis
    obtain ⟨m3, h3, hx⟩ := (execAll_cons _).mp hx
    obtain ⟨m4, h4, ⟨⟩⟩ := (execAll_cons _).mp hx
    refine .of_none (deleted_packet h4 ?_)
    rw [Guard.holds, epoch_frame ((exec_frame h3).users (by rintro ⟨⟩)),
      epoch_frame ((exec_frame h2).users (by rintro ⟨⟩)), epoch_frame husers]
    exact hepoch
  · have hm2 : PacketFits u d m2 := by
      refine exec_fits h2 hm1 ?_
      rintro ⟨rfl, rfl, hepoch, p, hp, hno⟩
      rw [epoch_frame husers] at hepoch
      rw [HoldsPacket, hkeys] at hp
      cases reset with
      | true => exact hthis ⟨rfl, rfl, hepoch, rfl⟩
      | false => exact hs (.rewrite hepoch hp hno)
    cases reset with
    | true =>
      obtain ⟨m3, h3, hx⟩ := (execAll_cons _).mp hx
      obtain ⟨m4, h4, ⟨⟩⟩ := (execAll_cons _).mp hx
      exact exec_fits h4 (exec_fits h3 hm2 (by rintro ⟨⟩)) (by rintro ⟨⟩)
    | false =>
      cases hx
      exact hm2

theorem registers_fits {A : Ambient} {userId : UserId} {device : TrustedDevice} {hash : Option String}
    {epoch : Option Nat} (hreg : Registers A userId device hash epoch stmts)
    (hx : execAll AccountStmt.exec stmts b = some a) (hb : PacketFits u d b) (hs : ¬ Strands b stmts) :
    PacketFits u d a := by
  cases hreg with
  | insert =>
    refine batch_fits hx hb fun q hq m hmis => ?_
    cases List.mem_singleton.mp hq
    exact hmis
  | replace id => exact replace_fits hx hb
  | update id status reset => exact update_fits hx hb hs

theorem create_fits {A : Ambient} {request : MobileRegisterFinishRequest} {device : TrustedDevice}
    {hash tokenHash csrf : String} {expiresAt : Instant} (hmatch : request.device.recipientMatches = true)
    (hid : device.id = request.device.id) (hkey : device.publicKey = request.device.publicKey)
    (hx : execAll AccountStmt.exec (mobileAccountStmts A request device hash tokenHash csrf expiresAt) b = some a)
    (hb : PacketFits u d b) : PacketFits u d a := by
  obtain ⟨m1, h1, hx⟩ := (execAll_cons _).mp hx
  obtain ⟨m2, h2, hx⟩ := (execAll_cons _).mp hx
  obtain ⟨m3, h3, hx⟩ := (execAll_cons _).mp hx
  obtain ⟨m4, h4, hx⟩ := (execAll_cons _).mp hx
  obtain ⟨m5, h5, ⟨⟩⟩ := (execAll_cons _).mp hx
  have hm3 : PacketFits u d m3 := exec_fits h3 (exec_fits h2 (exec_fits h1 hb nofun) nofun) nofun
  refine exec_fits h5 (exec_fits h4 hm3 ?_) nofun
  rintro ⟨rfl, rfl, hno⟩
  simp only [MobileDeviceKey.recipientMatches, Bool.and_eq_true, decide_eq_true_eq] at hmatch
  obtain ⟨-, -, hput⟩ := insertDevice_eq_some.mp (exec_devices h3)
  obtain ⟨-, hset⟩ := putDevice_eq_some.mp hput
  refine hno ⟨hmatch.1.trans hid.symm, ⟨_, device.name, device.fingerprint, device.publicKey, .approved, some hash,
    device.createdAt, device.updatedAt, device.lastSeenIp, device.lastSeenLocation⟩, ?_, rfl, rfl,
    hkey.trans hmatch.2.symm⟩
  rw [← hset, Table.get?_set, if_pos rfl]

theorem finish_fits {A : Ambient} {user : StoredUser} {challengeId : String} {challenge : RecoveryChallengeRow}
    {request : RecoveryFinishUnsignedRequest} {hash : String} (hmatch : request.device.recipientMatches = true)
    (hx : execAll AccountStmt.exec (finishRecoveryStmts A user challengeId challenge request hash) b = some a)
    (hb : PacketFits u d b) : PacketFits u d a := by
  have hrec := finish_recovered hx
  obtain ⟨_, _, _, hclaim⟩ := finish_claimed hx
  simp only [MobileDeviceKey.recipientMatches, Bool.and_eq_true, decide_eq_true_eq] at hmatch
  intro p hp
  rw [HoldsPacket, hrec.keys] at hp
  split at hp
  · rename_i heq
    cases heq
    cases hp
    obtain ⟨row, hrow, hu, hstatus, hkey, -⟩ := hrec.installed
    exact ⟨hmatch.1, row, hrow, hu, by rw [hstatus]; rfl, hkey.trans hmatch.2.symm⟩
  · split at hp
    · cases hp
    · rename_i hother
      obtain ⟨hid, row, hrow, rfl, hold⟩ := hb p hp
      have hne : d ≠ request.device.id := by
        rintro rfl
        exact hother (hclaim.device row hrow)
      refine ⟨hid, row, ?_, rfl, hold⟩
      rw [hrec.revoked d hne, hrow, Option.map_some, if_neg hother]

theorem transacts_fits {K : Crypto} {c : AccountCall} {tr : AccountTrace} (ht : Transacts K c tr stmts)
    (hx : execAll AccountStmt.exec stmts b = some a) (hb : PacketFits u d b) (hs : ¬ Strands b stmts) :
    PacketFits u d a := by
  cases ht with
  | createAccount device hash tokenHash csrf expiresAt hmatch hid hkey => exact create_fits hmatch hid hkey hx hb
  | registerLogin userId device hash epoch stmts _ _ hreg => exact registers_fits hreg hx hb hs
  | registerPost userId device stmts _ hreg => exact registers_fits hreg hx hb hs
  | withdraw => exact withdraw_fits hx hb
  | approve A userId id packet _ hid =>
    refine batch_fits hx hb fun q hq m hmis => ?_
    simp only [approveStmts, List.mem_cons, List.not_mem_nil, or_false] at hq
    rcases hq with rfl | rfl
    · exact hmis.2.2 (hid.trans hmis.2.1)
    · exact hmis
  | shareKey userId packet hid =>
    obtain ⟨m, h, ⟨⟩⟩ := (execAll_cons _).mp hx
    refine exec_fits h hb ?_
    rintro ⟨rfl, rfl, hno⟩
    exact hs (.share fun helig => hno ⟨hid, helig⟩)
  | migrateKey userId id value packet hid =>
    obtain ⟨m, h, ⟨⟩⟩ := (execAll_cons _).mp hx
    refine exec_fits h hb ?_
    rintro ⟨rfl, rfl, hraw, hno⟩
    exact hs (.migrate hraw fun helig => hno ⟨hid, helig⟩)
  | @finishRecovery A request signature tr user challenge _ hmatch =>
    have hmatch : request.normalized.device.recipientMatches = true := hmatch
    exact finish_fits hmatch hx hb
  | rotateSession =>
    exact batch_fits hx hb fun q hq m hmis => by
      simp only [rotateStmts, List.mem_cons, List.not_mem_nil, or_false] at hq
      rcases hq with rfl | rfl <;> exact hmis
  | migrateRecovery =>
    exact batch_fits hx hb fun q hq m hmis => by
      simp only [migrateStmts, List.mem_cons, List.not_mem_nil, or_false] at hq
      rcases hq with rfl | rfl <;> exact hmis
  | rotateRecovery =>
    exact batch_fits hx hb fun q hq m hmis => by
      simp only [rotateRecoveryStmts, List.mem_cons, List.not_mem_nil, or_false] at hq
      rcases hq with rfl | rfl <;> exact hmis
  | _ =>
    exact batch_fits hx hb fun q hq m hmis => by
      cases List.mem_singleton.mp hq
      exact hmis

theorem update_row {userId : UserId} {id : DeviceId} {device : TrustedDevice} {status : DeviceStatus}
    {hash : Option String} {epoch : Option Nat} {now : Instant} {s s' : Db}
    (h : AccountStmt.exec (.devices (.update userId id device status hash epoch now)) s = some s') :
    (d ≠ id → s'.trustedDevices.get? d = s.trustedDevices.get? d) ∧
      ∀ row, s.trustedDevices.get? id = some row → row.userId = userId → epochHolds s userId epoch = true →
        s'.trustedDevices.get? id = some (row.register device status hash now) := by
  have hu := exec_devices h
  simp only [DeviceStmt.exec] at hu
  split at hu
  · rename_i hnone
    rw [← Option.some.inj hu]
    exact ⟨fun _ => rfl, fun row hrow => by cases hnone.symm.trans hrow⟩
  · rename_i old hold
    split at hu
    · obtain ⟨-, hset⟩ := putDevice_eq_some.mp hu
      rw [← hset]
      refine ⟨fun hne => by rw [Table.get?_set, if_neg hne], fun row hrow _ _ => ?_⟩
      cases hold.symm.trans hrow
      rw [Table.get?_set, if_pos rfl]
    · rename_i hguard
      rw [← Option.some.inj hu]
      refine ⟨fun _ => rfl, fun row hrow hrowUser hepoch => ?_⟩
      cases hold.symm.trans hrow
      exact absurd ⟨hrowUser, hepoch⟩ hguard

theorem devices_hold {q : DeviceStmt} {p : DeviceVaultKeyPacket} (h : (AccountStmt.devices q).exec b = some a) :
    HoldsPacket u d p a ↔ HoldsPacket u d p b := by
  unfold HoldsPacket
  rw [(exec_frame h).vaultKeys (by rintro ⟨⟩)]

/-- No transaction that strands a packet leaves the packets as they should be. -/
theorem strands_misfits (hs : Strands b stmts) (hx : execAll AccountStmt.exec stmts b = some a) (hb : PacketsFit b) :
    ¬ PacketsFit a := by
  intro ha
  -- one case for each way to strand a packet: it does not fit its device afterwards
  cases hs with
  | @share u d p hno =>
    obtain ⟨m, h, ⟨⟩⟩ := (execAll_cons _).mp hx
    have hp : HoldsPacket u d p a := by
      rw [HoldsPacket, ← Option.some.inj (exec_vaultKeys h), Table.get?_set, if_pos rfl]
    exact hno ((ha u d p hp).2.of_devices (by rw [(exec_frame h).devices (by rintro ⟨⟩)]))
  | @migrate u d stored p hraw hno =>
    obtain ⟨m, h, ⟨⟩⟩ := (execAll_cons _).mp hx
    have hp : HoldsPacket u d p a := by
      rw [HoldsPacket, ← Option.some.inj (exec_vaultKeys h), Table.get?_updateWhere, hraw]
      simp
    exact hno ((ha u d p hp).2.of_devices (by rw [(exec_frame h).devices (by rintro ⟨⟩)]))
  | @rewrite A u d device status hash epoch p hepoch hp hno =>
    obtain ⟨-, row, hrow, hu, -⟩ := hb u d p hp
    obtain ⟨m1, h1, hx⟩ := (execAll_cons _).mp hx
    obtain ⟨m2, h2, ⟨⟩⟩ := (execAll_cons _).mp hx
    have hrow1 : m1.trustedDevices.get? d = some row := by
      rw [← Option.some.inj (exec_devices h1), kept_row hrow (by simp), hrow]
    have hepoch1 : epochHolds m1 u epoch = true := by rw [epoch_frame ((exec_frame h1).users (by rintro ⟨⟩)), hepoch]
    have hrow2 := (update_row (d := d) h2).2 row hrow1 hu hepoch1
    have hp2 : HoldsPacket u d p a := (devices_hold h2).mpr ((devices_hold h1).mpr hp)
    obtain ⟨-, row', hrow', -, hact, hkey⟩ := ha u d p hp2
    cases hrow2.symm.trans hrow'
    exact hno ⟨hact, hkey⟩
  | @duplicate A u id device status hash epoch reset d p row hepoch hne hp hrow hu hsame =>
    obtain ⟨m1, h1, hx⟩ := (execAll_cons _).mp hx
    obtain ⟨m2, h2, hx⟩ := (execAll_cons _).mp hx
    have hgone : m1.trustedDevices.get? d = none := by
      rw [← Option.some.inj (exec_devices h1), Table.get?_deleteWhere, hrow, Option.filter_some]
      simp [hu, hne, hsame, hepoch]
    have hdevices : a.trustedDevices.get? d = none := by
      rw [batch_frame Db.trustedDevices (fun hf => hf.devices) hx (by cases reset <;> simp [AccountStmt.table]),
        (update_row h2).1 hne, hgone]
    have hp2 : HoldsPacket u d p m2 := (devices_hold h2).mpr ((devices_hold h1).mpr hp)
    have hpa : HoldsPacket u d p a := by
      cases reset with
      | false =>
        cases hx
        exact hp2
      | true =>
        obtain ⟨m3, h3, hx⟩ := (execAll_cons _).mp hx
        obtain ⟨m4, h4, ⟨⟩⟩ := (execAll_cons _).mp hx
        rw [HoldsPacket, ← Option.some.inj (exec_vaultKeys h4), Table.get?_deleteWhere,
          (exec_frame h3).vaultKeys (by rintro ⟨⟩), hp2, Option.filter_some]
        simp [hne]
    obtain ⟨-, row', hrow', -⟩ := ha u d p hpa
    cases hdevices.symm.trans hrow'

end

/-! ## Whole runs -/

/-- The step commits such a transaction, or deletes a user whose packets are still there. -/
def StrandsPacket (e : WorkerStep) : Prop :=
  (∃ stmts, e.label = .account (.commit stmts) ∧ Strands e.before.db stmts) ∨
    ∃ u d p, e.label = .maintenance (.commit [.deleteUser u]) ∧ HoldsPacket u d p e.before.db

section
variable {F : Formats} {K : Crypto} {c : WorkerCall} {tr : WorkerTrace} {e : WorkerStep} {s₀ s : Worker}
  {h : WorkerHistory} {ps : WorkerProcs}

/-- Where the packets fit before a step, they fit after it exactly if it strands none. -/
theorem guar_packets (hg : c.guar K tr e) (hb : PacketsFit e.before.db) :
    PacketsFit e.after.db ↔ ¬ StrandsPacket e := by
  -- only a transaction of the account routes and a maintenance statement touch packets or devices
  cases guar_effect hg with
  | @account b db tr0 stmts _ hx hw =>
    have hstrands : StrandsPacket ⟨.account (.commit stmts), b, { b with db := db }⟩ ↔ Strands b.db stmts := by
      constructor
      · rintro (⟨stmts', hl, hs⟩ | ⟨u, d, p, hl, -⟩)
        · cases hl
          exact hs
        · cases hl
      · exact fun hs => .inl ⟨stmts, rfl, hs⟩
    rw [hstrands]
    refine ⟨fun ha hs => strands_misfits hs hx hb ha, fun hno u d => ?_⟩
    cases c with
    | account call => exact transacts_fits hw.1 hx (hb u d) hno
    | sync | cleanupExpiredSessions => exact hw.elim
    | createExport | deleteExport | deleteAccount =>
      obtain ⟨t, rfl⟩ := hw
      exact batch_fits hx (hb u d) fun q hq m hmis => by
        cases List.mem_singleton.mp hq
        exact hmis
  | sync _ hx _ =>
    have hframe := batch_syncFrame hx
    refine iff_of_true (fun u d => (hb u d).of_same ?_ ?_) ?_
    · exact congrArg (·.get? (u, d)) hframe.vaultKeys
    · exact congrArg (·.get? d) hframe.devices
    · rintro (⟨_, hl, -⟩ | ⟨_, _, _, hl, -⟩) <;> cases hl
  | @maintenance b db q hx _ =>
    cases q with
    | deleteExpired table now =>
      refine iff_of_true (fun u d => ?_) ?_
      · cases table <;> cases hx <;> exact (hb u d).of_same rfl rfl
      · rintro (⟨_, hl, -⟩ | ⟨_, _, _, hl, -⟩) <;> cases hl
    | deleteUser userId =>
      cases hx
      constructor
      · rintro ha (⟨_, hl, -⟩ | ⟨u, d, p, hl, hp⟩)
        · cases hl
        · cases hl
          obtain ⟨-, row, hrow, hu, -⟩ := ha userId d p hp
          simp [Db.deleteUser, hu] at hrow
      · intro hno u d p hp
        obtain ⟨hid, row, hrow, hu, hold⟩ := hb u d p hp
        have hother : row.userId ≠ userId := fun heq => hno (.inr ⟨userId, d, p, rfl, (hu.symm.trans heq) ▸ hp⟩)
        exact ⟨hid, row, by simp [Db.deleteUser, hrow, hother], hu, hold⟩
  | put | delete =>
    refine iff_of_true hb ?_
    rintro (⟨_, hl, -⟩ | ⟨_, _, _, hl, -⟩) <;> cases hl
  | idle hidle =>
    refine iff_of_true hb ?_
    rintro (⟨_, hl, -⟩ | ⟨_, _, _, hl, -⟩) <;> cases hl <;> cases hidle

/-- In a run that starts with packets that fit, they fit at every store exactly if no step strands one. -/
theorem packets_fit (hs₀ : PacketsFit s₀.db) (hr : Reach (WorkerCall.code F K) (fun _ => True) s₀ h s ps) :
    Throughout (fun w => PacketsFit w.db) h ↔ ∀ i c e, .step i c e ∈ h → ¬ StrandsPacket e := by
  constructor
  · intro hall i c e he
    obtain ⟨h₁, h₂, rfl⟩ := List.append_of_mem he
    obtain ⟨-, -, hg⟩ := reach_step (fun c _ => WorkerCall.sat F K c) hr
    exact (guar_packets hg (hall i c e he).1).mp (hall i c e he).2
  · intro hno i c e he
    obtain ⟨h₁, h₂, rfl⟩ := List.append_of_mem he
    obtain ⟨-, hbefore, hg⟩ := reach_step (fun c _ => WorkerCall.sat F K c) hr
    obtain ⟨ps₁, hr₁⟩ := reach_prefix hr
    rw [← hbefore] at hr₁
    have hb : PacketsFit e.before.db :=
      reach_invariant (fun c _ => WorkerCall.sat F K c) (I := fun w => PacketsFit w.db)
        (P := fun _ e => ¬ StrandsPacket e) hs₀ (fun _ _ _ _ hb hg hno => (guar_packets hg hb).mpr hno) hr₁
        fun a j c' e' b hh => hno j c' e' (by rw [hh]; simp)
    exact ⟨hb, (guar_packets hg hb).mpr (hno i c e he)⟩

end

/-! ## An approval alone -/

def mayStrand : Event WorkerCall Worker WorkerAccess → Bool
  | .step _ _ ⟨.account (.commit [.vaultKeys (.upsert ..)]), _, _⟩ => true
  | .step _ _ ⟨.account (.commit [.vaultKeys (.migrate ..)]), _, _⟩ => true
  | .step _ _ ⟨.account (.commit (_ :: .devices (.update ..) :: _)), _, _⟩ => true
  | .step _ _ ⟨.maintenance _, _, _⟩ => true
  | _ => false

theorem StrandsPacket.may {e : WorkerStep} (h : StrandsPacket e) (i : Nat) (c : WorkerCall) :
    mayStrand (.step i c e) = true := by
  obtain ⟨label, b, a⟩ := e
  rcases h with ⟨stmts, rfl, hs⟩ | ⟨u, d, p, rfl, -⟩
  · cases hs <;> rfl
  · rfl

def onceApproved : Play WorkerCall Worker WorkerAccess (Except WorkerError WorkerResult) :=
  play (WorkerCall.code plainFormats plainCrypto) pendingStore
    ([.issue (approveOld (plainText 43))] ++ List.replicate 5 (.step 0))

theorem onceApproved_reach : Reach (WorkerCall.code plainFormats plainCrypto) (fun _ => True) pendingStore
    onceApproved.1 onceApproved.2.1 onceApproved.2.2 := by
  unfold onceApproved
  exact play_reach fun _ _ => trivial

/-- `packets_fit` at that run, which stores a packet. -/
theorem packets_fit_onceApproved : Throughout (fun w => PacketsFit w.db) onceApproved.1 ∧
    HoldsPacket sampleOwner oldDeviceId (sampleVaultKeyPacket oldDeviceId (plainText 43)) onceApproved.2.1.db := by
  have hran : onceApproved.1.any mayStrand = false ∧
      onceApproved.2.1.db.deviceVaultKeys.get? (sampleOwner, oldDeviceId) =
        some (.packet (sampleVaultKeyPacket oldDeviceId (plainText 43))) := by
    decide +kernel
  have hempty : PacketsFit pendingStore.db := fun u d => .of_none fun p hp => by
    simp [HoldsPacket, pendingStore, settledStore] at hp
  refine ⟨(packets_fit hempty onceApproved_reach).mpr fun i c e he hstrands => ?_, hran.2⟩
  exact List.any_eq_false.mp hran.1 _ he (hstrands.may i c)

end ZeroVault

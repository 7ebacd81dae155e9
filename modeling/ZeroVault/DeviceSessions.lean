import ZeroVault.AuthEpochFencing
import ZeroVault.WorkerSound

/-!
# Sessions of devices

A device has one session at most, its session is of the device's own user, and a
rotation that is not let in changes nothing. The device is also pending or
approved, unless a registration writes back the status of a device that has
changed since the registration read it.
-/

namespace ZeroVault

open Lib

/-- Sessions are of their device's user, whose status `p` allows, and a device
has one session at most. -/
structure LiveSessions (p : DeviceStatus → Prop) (s : Db) : Prop where
  live : ∀ id row d, s.sessions.get? id = some row → row.deviceId = some d →
    ∃ dev, s.trustedDevices.get? d = some dev ∧ dev.userId = row.userId ∧ p dev.status
  once : ∀ id id' row row' d, s.sessions.get? id = some row → s.sessions.get? id' = some row' →
    row.deviceId = some d → row'.deviceId = some d → id = id'

section
variable {p : DeviceStatus → Prop} {s s' : Db}

/-- Whatever makes no session for a device, and leaves the devices of the
sessions that stay, keeps the sessions live. -/
theorem live_step (hs : LiveSessions p s) (h : ∀ id row d, s'.sessions.get? id = some row → row.deviceId = some d →
    s.sessions.get? id = some row ∧ ∀ dev, s.trustedDevices.get? d = some dev → dev.userId = row.userId →
      p dev.status → ∃ dev', s'.trustedDevices.get? d = some dev' ∧ dev'.userId = row.userId ∧ p dev'.status) :
    LiveSessions p s' where
  live := by
    intro id row d hr hd
    obtain ⟨hr, hdev⟩ := h id row d hr hd
    obtain ⟨dev, hget, hu, hp⟩ := hs.live id row d hr hd
    exact hdev dev hget hu hp
  once := fun id id' row row' d hr hr' hd hd' =>
    hs.once id id' row row' d (h id row d hr hd).1 (h id' row' d hr' hd').1 hd hd'

theorem live_fewer (hs : LiveSessions p s) (hdev : s'.trustedDevices = s.trustedDevices)
    (h : ∀ id row, s'.sessions.get? id = some row → row.deviceId.isSome → s.sessions.get? id = some row) :
    LiveSessions p s' := by
  refine live_step hs fun id row d hr hd => ⟨h id row hr (by rw [hd]; rfl), fun dev hget hu hp => ?_⟩
  exact ⟨dev, by rw [hdev]; exact hget, hu, hp⟩

theorem live_devices {t : Table DeviceId TrustedDeviceRow} (hs : LiveSessions p s)
    (h : ∀ d dev dev', s.trustedDevices.get? d = some dev → t.get? d = some dev' →
      dev'.userId = dev.userId ∧ (p dev.status → p dev'.status)) : LiveSessions p (setDevices s t) := by
  refine live_step hs fun id row d hr hd => ?_
  rw [setDevices, Table.get?_deleteWhere, Option.filter_eq_some_iff] at hr
  refine ⟨hr.1, fun dev hget hu hp => ?_⟩
  have hkept : t.contains d = true := by
    have hcon : s.trustedDevices.contains d = true := Table.contains_eq_true.mpr ⟨dev, hget⟩
    simpa [hd, hcon] using hr.2
  obtain ⟨dev', hget'⟩ := Table.contains_eq_true.mp hkept
  obtain ⟨hu', hp'⟩ := h d dev dev' hget hget'
  exact ⟨dev', hget', hu'.trans hu, hp' hp⟩

end

/-! ## One statement -/

def AccountStmt.KeepsLive (p : DeviceStatus → Prop) (s : Db) : AccountStmt → Prop
  | sessions (.insert ..) | sessions (.insertForDevice ..) => False
  | sessions (.insertAtEpoch _ row) => row.deviceId = none
  | devices (.revokeAll ..) | devices (.install ..) | devices (.setStatus ..) => False
  | devices (.update userId existingId _ nextStatus _ epoch _) =>
    ∀ row, deviceOf userId existingId s = some row → epochHolds s userId epoch = true → p row.status → p nextStatus
  | _ => True

section
variable {p : DeviceStatus → Prop} (hp : ∀ status, status.active = true → p status)
variable {q : AccountStmt} {stmts : List AccountStmt} {s s' b a : Db}

theorem insertSession_get? {id : String} {row : SessionRow} {t : Table String SessionRow}
    (h : insertSession s id row = some t) : s.sessions.get? id = none ∧
      ∀ k, t.get? k = if k = id then some row else s.sessions.get? k := by
  unfold insertSession at h
  split at h
  · cases h
  split at h
  · exact ⟨Table.get?_of_insert h, Table.get?_insert h⟩
  · cases h

theorem insertDevice_get? {id d : DeviceId} {row dev dev' : TrustedDeviceRow} {t : Table DeviceId TrustedDeviceRow}
    (h : insertDevice s id row = some t) (hd : s.trustedDevices.get? d = some dev) (hd' : t.get? d = some dev') :
    dev' = dev := by
  unfold insertDevice putDevice at h
  split at h
  · rename_i hc
    split at h
    · cases h
    cases h
    have hne : d ≠ id := by
      rintro rfl
      simp only [Bool.and_eq_true, Bool.not_eq_true', Table.contains_eq_false] at hc
      rw [hc.2] at hd; cases hd
    rw [Table.get?_set, if_neg hne, hd] at hd'
    exact (Option.some.inj hd').symm
  · cases h

theorem sessions_live {q : SessionStmt} {t : Table String SessionRow} (hs : LiveSessions p s)
    (hk : AccountStmt.KeepsLive p s (.sessions q)) (h : q.exec s = some t) :
    LiveSessions p { s with sessions := t } := by
  refine live_fewer hs rfl fun id row hr hdev => ?_
  cases q with
  | insert => exact hk.elim
  | insertForDevice => exact hk.elim
  | insertAtEpoch id' row' =>
    simp only [SessionStmt.exec] at h
    split at h
    · obtain ⟨-, hget⟩ := insertSession_get? h
      rw [hget] at hr
      split at hr
      · cases hr
        rw [show row.deviceId = none from hk] at hdev; cases hdev
      · exact hr
    · cases h; exact hr
  | deleteReplaced =>
    simp only [SessionStmt.exec] at h
    split at h
    · cases h
      rw [Table.get?_deleteWhere] at hr
      exact (Option.filter_eq_some_iff.mp hr).1
    · cases h; exact hr
  | deleteByToken | deleteOf | deleteOfDevice =>
    cases h
    rw [Table.get?_deleteWhere] at hr
    exact (Option.filter_eq_some_iff.mp hr).1

include hp in
theorem devices_live {q : DeviceStmt} {t : Table DeviceId TrustedDeviceRow} (hs : LiveSessions p s)
    (hk : AccountStmt.KeepsLive p s (.devices q)) (h : q.exec s = some t) : LiveSessions p (setDevices s t) := by
  refine live_devices hs fun d dev dev' hd hd' => ?_
  -- a row that was there keeps its user, and a status that its sessions may have
  cases q with
  | revokeAll => exact hk.elim
  | install => exact hk.elim
  | setStatus => exact hk.elim
  | insert id row =>
    rw [insertDevice_get? h hd hd']
    exact ⟨rfl, fun hst => hst⟩
  | insertAtEpoch id row epoch =>
    simp only [DeviceStmt.exec] at h
    split at h
    · rw [insertDevice_get? h hd hd']
      exact ⟨rfl, fun hst => hst⟩
    · cases h
      cases hd.symm.trans hd'
      exact ⟨rfl, fun hst => hst⟩
  | approvePending userId id packet now =>
    cases h
    rw [Table.get?_updateWhere, hd, Option.map_some] at hd'
    cases hd'
    split
    · exact ⟨rfl, fun _ => hp _ rfl⟩
    · exact ⟨rfl, fun hst => hst⟩
  | delete | deleteDuplicates =>
    cases h
    rw [Table.get?_deleteWhere, hd, Option.filter_eq_some_iff] at hd'
    cases hd'.1
    exact ⟨rfl, fun hst => hst⟩
  | update userId existingId device nextStatus hash epoch now =>
    simp only [DeviceStmt.exec] at h
    split at h
    · cases h
      cases hd.symm.trans hd'
      exact ⟨rfl, fun hst => hst⟩
    rename_i row hrow
    split at h
    · rename_i hc
      unfold putDevice at h
      split at h
      · cases h
      cases h
      rw [Table.get?_set] at hd'
      split at hd'
      · rename_i he
        subst he
        cases hd'
        cases hd.symm.trans hrow
        refine ⟨rfl, fun hst => hk dev ?_ hc.2 hst⟩
        rw [deviceOf, hd]
        simp [hc.1]
      · cases hd.symm.trans hd'
        exact ⟨rfl, fun hst => hst⟩
    · cases h
      cases hd.symm.trans hd'
      exact ⟨rfl, fun hst => hst⟩

include hp in
theorem exec_live (h : q.exec s = some s') (hk : q.KeepsLive p s) (hs : LiveSessions p s) : LiveSessions p s' := by
  cases account_effect h with
  | sessions ht => exact sessions_live hs hk ht
  | devices ht => exact devices_live hp hs hk ht
  | _ => exact live_fewer hs rfl fun _ _ hr _ => hr

include hp in
theorem batch_live (hk : ∀ q ∈ stmts, ∀ m, q.KeepsLive p m) (h : execAll AccountStmt.exec stmts b = some a)
    (hs : LiveSessions p b) : LiveSessions p a :=
  execAll_keeps _ (fun q hq m _ hx hm => exec_live hp hx (hk q hq m) hm) h hs

/-! ## The batches that make or end sessions -/

def RotationAllowed (deviceId : DeviceId) (row : SessionRow) (s : Db) : Prop :=
  epochHolds s row.userId (some row.authEpoch) = true ∧
    ∃ dev, deviceOf row.userId deviceId s = some dev ∧ dev.status.active = true

theorem deviceOf_eq {userId : UserId} {d : DeviceId} {dev : TrustedDeviceRow} :
    deviceOf userId d s = some dev ↔ s.trustedDevices.get? d = some dev ∧ dev.userId = userId := by
  rw [deviceOf, Option.filter_eq_some_iff, decide_eq_true_eq]

theorem rotationAllowed_iff {d : DeviceId} {row : SessionRow} : RotationAllowed d row s ↔
    (epochHolds s row.userId (some row.authEpoch) &&
      (s.trustedDevices.get? d).any fun dev => dev.userId = row.userId && dev.status.active) = true := by
  simp only [RotationAllowed, deviceOf_eq, Bool.and_eq_true, Option.any_eq_true, decide_eq_true_eq, and_assoc]

theorem live_insert (id : String) (row : SessionRow) {d : DeviceId} {dev : TrustedDeviceRow} (hs : LiveSessions p s)
    (hdev : s'.trustedDevices = s.trustedDevices) (hd : deviceOf row.userId d s = some dev) (hst : p dev.status)
    (hrow : row.deviceId = some d) (h : ∀ k r, s'.sessions.get? k = some r →
      k = id ∧ r = row ∨ s.sessions.get? k = some r ∧ r.deviceId ≠ some d) : LiveSessions p s' where
  live := by
    intro k r d' hr hd'
    rcases h k r hr with ⟨-, rfl⟩ | ⟨hr, -⟩
    · cases hrow.symm.trans hd'
      obtain ⟨hget, hu⟩ := deviceOf_eq.mp hd
      exact ⟨dev, by rw [hdev]; exact hget, hu, hst⟩
    · obtain ⟨dev', hget, hu, hp⟩ := hs.live k r d' hr hd'
      exact ⟨dev', by rw [hdev]; exact hget, hu, hp⟩
  once := by
    intro k k' r r' d' hr hr' hd' hd''
    rcases h k r hr with ⟨rfl, rfl⟩ | ⟨hr, hne⟩
    · rcases h k' r' hr' with ⟨rfl, -⟩ | ⟨-, hne'⟩
      · rfl
      · cases hrow.symm.trans hd'
        exact absurd hd'' hne'
    · rcases h k' r' hr' with ⟨-, rfl⟩ | ⟨hr', -⟩
      · cases hrow.symm.trans hd''
        exact absurd hd' hne
      · exact hs.once k k' r r' d' hr hr' hd' hd''

include hp in
theorem rotate_live {id : String} {d : DeviceId} {row : SessionRow} (hs : LiveSessions p b)
    (hrow : row.deviceId = some d) (hallow : RotationAllowed d row b)
    (hx : execAll AccountStmt.exec (rotateStmts id d row) b = some a) : LiveSessions p a := by
  obtain ⟨m, h1, hrest⟩ := (execAll_cons _).mp hx
  obtain ⟨a', h2, ⟨⟩⟩ := (execAll_cons _).mp hrest
  have hdev : a.trustedDevices = b.trustedDevices :=
    ((exec_frame h2).devices nofun).trans ((exec_frame h1).devices nofun)
  have hins := exec_sessions h1
  rw [SessionStmt.exec, if_pos (rotationAllowed_iff.mp hallow)] at hins
  obtain ⟨-, hget⟩ := insertSession_get? hins
  have hdel := exec_sessions h2
  rw [SessionStmt.exec, hget, if_pos rfl, Option.any_some, if_pos (by simp [hrow])] at hdel
  obtain ⟨dev, hd, hact⟩ := hallow.2
  refine live_insert id row hs hdev hd (hp _ hact) hrow fun k r hr => ?_
  rw [← Option.some.inj hdel, Table.get?_deleteWhere, Option.filter_eq_some_iff, hget] at hr
  by_cases hk : k = id
  · subst hk
    rw [if_pos rfl] at hr
    exact .inl ⟨rfl, (Option.some.inj hr.1).symm⟩
  rw [if_neg hk] at hr
  refine .inr ⟨hr.1, fun hbound => ?_⟩
  -- The other session of the device is of the same user, so it was deleted.
  obtain ⟨dev', hget', hu', -⟩ := hs.live k r d hr.1 hbound
  obtain ⟨hget'', hu⟩ := deviceOf_eq.mp hd
  cases hget'.symm.trans hget''
  simp [hk, hbound, ← hu', hu] at hr

theorem rotate_refused {id : String} {d : DeviceId} {row : SessionRow} (hs : LiveSessions p b)
    (hallow : ¬ RotationAllowed d row b) (hx : execAll AccountStmt.exec (rotateStmts id d row) b = some a) :
    a.sessions = b.sessions ∧ a.trustedDevices = b.trustedDevices := by
  obtain ⟨m, h1, hrest⟩ := (execAll_cons _).mp hx
  obtain ⟨a', h2, ⟨⟩⟩ := (execAll_cons _).mp hrest
  refine ⟨?_, ((exec_frame h2).devices nofun).trans ((exec_frame h1).devices nofun)⟩
  have hins := exec_sessions h1
  rw [SessionStmt.exec, if_neg fun h => hallow (rotationAllowed_iff.mpr h)] at hins
  have hdel := exec_sessions h2
  rw [SessionStmt.exec, ← Option.some.inj hins] at hdel
  split at hdel
  · rename_i hmine
    rw [← Option.some.inj hdel]
    rw [Option.any_eq_true] at hmine
    obtain ⟨r, hr, hmatch⟩ := hmine
    simp only [Bool.and_eq_true, decide_eq_true_eq] at hmatch
    refine Table.deleteWhere_eq_self fun k r' hr' => ?_
    rw [← Bool.not_eq_true]
    intro hother
    simp only [Bool.and_eq_true, decide_eq_true_eq] at hother
    exact hother.2 (hs.once k id r' r d hr' hr hother.1.2 hmatch.1.2)
  · exact (Option.some.inj hdel).symm

include hp in
theorem createAccount_live {A : Ambient} {request : MobileRegisterFinishRequest} {device : TrustedDevice}
    {hash tokenHash csrf : String} {expiresAt : Instant} (hs : LiveSessions p b)
    (hx : execAll AccountStmt.exec (mobileAccountStmts A request device hash tokenHash csrf expiresAt) b = some a) :
    LiveSessions p a := by
  obtain ⟨m1, h1, hx⟩ := (execAll_cons _).mp hx
  obtain ⟨m2, h2, hx⟩ := (execAll_cons _).mp hx
  obtain ⟨m3, h3, hx⟩ := (execAll_cons _).mp hx
  obtain ⟨m4, h4, hx⟩ := (execAll_cons _).mp hx
  obtain ⟨m5, h5, ⟨⟩⟩ := (execAll_cons _).mp hx
  have hs2 := exec_live hp h2 trivial (exec_live hp h1 trivial hs)
  have hs4 := exec_live hp h4 trivial (exec_live hp h3 trivial hs2)
  have hdev := exec_devices h3
  simp only [DeviceStmt.exec, insertDevice, putDevice] at hdev
  split at hdev
  · rename_i hc
    split at hdev
    · cases hdev
    simp only [Bool.and_eq_true, Bool.not_eq_true', Table.contains_eq_false] at hc
    have hget4 : m4.trustedDevices.get? device.id = some ⟨A.random "userId", device.name, device.fingerprint,
        device.publicKey, .approved, some hash, device.createdAt, device.updatedAt, device.lastSeenIp,
        device.lastSeenLocation⟩ := by
      rw [(exec_frame h4).devices (by rintro ⟨⟩), ← Option.some.inj hdev, Table.get?_set, if_pos rfl]
    obtain ⟨-, hget⟩ := insertSession_get? (exec_sessions h5)
    refine live_insert (A.random "sessionId")
      ⟨A.random "userId", tokenHash, csrf, some device.id, 0, expiresAt, A.now "ts"⟩ hs4
      ((exec_frame h5).devices (by rintro ⟨⟩)) (deviceOf_eq.mpr ⟨hget4, rfl⟩) (hp _ rfl) rfl fun k r hr => ?_
    rw [hget] at hr
    split at hr
    · rename_i hk
      exact .inl ⟨hk, (Option.some.inj hr).symm⟩
    refine .inr ⟨hr, fun hbound => ?_⟩
    have hr2 := (exec_frame h3).noNewSession (by rintro ⟨⟩) k r ((exec_frame h4).noNewSession (by rintro ⟨⟩) k r hr)
    obtain ⟨dev, hget, -⟩ := hs2.live k r device.id hr2 hbound
    rw [hc.2] at hget; cases hget
  · cases hdev

theorem withdraw_live {A : Ambient} {userId : UserId} {d : DeviceId} {status : DeviceStatus} (hs : LiveSessions p b)
    (hx : execAll AccountStmt.exec (withdrawStmts A userId d status) b = some a) : LiveSessions p a := by
  obtain ⟨m1, h1, hx⟩ := (execAll_cons _).mp hx
  obtain ⟨m2, h2, hx⟩ := (execAll_cons _).mp hx
  obtain ⟨m3, h3, ⟨⟩⟩ := (execAll_cons _).mp hx
  refine live_step hs fun k r d' hr hbound => ?_
  rw [(exec_frame h3).sessions (by rintro ⟨⟩) (by rintro ⟨⟩), ← Option.some.inj (exec_sessions h2), Table.get?_deleteWhere,
    Option.filter_eq_some_iff] at hr
  refine ⟨(exec_frame h1).noNewSession (by rintro ⟨⟩) k r hr.1, fun dev hget hu hst => ?_⟩
  have hsame : ¬ (d' = d ∧ dev.userId = userId) := by
    rintro ⟨rfl, rfl⟩
    simp [hu, hbound, Guard.holds] at hr
  refine ⟨dev, ?_, hu, hst⟩
  rw [(exec_frame h3).devices (by rintro ⟨⟩), (exec_frame h2).devices (by rintro ⟨⟩), ← Option.some.inj (exec_devices h1),
    Table.get?_updateWhere, hget, Option.map_some, if_neg (by simpa using hsame)]

theorem finish_live {A : Ambient} {user : StoredUser} {challengeId : String} {challenge : RecoveryChallengeRow}
    {request : RecoveryFinishUnsignedRequest} {hash : String} (hs : LiveSessions p b)
    (hx : execAll AccountStmt.exec (finishRecoveryStmts A user challengeId challenge request hash) b = some a) :
    LiveSessions p a := by
  have hrec := finish_recovered hx
  obtain ⟨row, u, packet, hc⟩ := finish_claimed hx
  refine live_step hs fun k r d hr hbound => ?_
  obtain ⟨hr, hne⟩ := hrec.sessions k r hr
  refine ⟨hr, fun dev hget hu hst => ⟨dev, ?_, hu, hst⟩⟩
  have hother : d ≠ request.device.id := by
    rintro rfl
    exact hne (hu.symm.trans (hc.device dev hget))
  rw [hrec.revoked d hother, hget, Option.map_some, if_neg (by rw [hu]; exact hne)]

include hp in
theorem update_live {A : Ambient} {userId : UserId} {existingId : DeviceId} {device : TrustedDevice}
    {nextStatus : DeviceStatus} {hash : Option String} {epoch : Option Nat} {reset : Bool} (hs : LiveSessions p b)
    (hst : ∀ row, deviceOf userId existingId b = some row → epochHolds b userId epoch = true → p row.status →
      p nextStatus)
    (hx : execAll AccountStmt.exec (updateDeviceStmts A userId existingId device nextStatus hash epoch reset) b =
      some a) : LiveSessions p a := by
  obtain ⟨m1, h1, hx⟩ := (execAll_cons _).mp hx
  obtain ⟨m2, h2, hx⟩ := (execAll_cons _).mp hx
  have hs1 := exec_live hp h1 trivial hs
  have hs2 : LiveSessions p m2 := by
    refine exec_live hp h2 (fun row hrow hepoch => hst row ?_ ?_) hs1
    · obtain ⟨hget, hu⟩ := deviceOf_eq.mp hrow
      rw [← Option.some.inj (exec_devices h1), Table.get?_deleteWhere, Option.filter_eq_some_iff] at hget
      exact deviceOf_eq.mpr ⟨hget.1, hu⟩
    · rw [epochHolds, (exec_frame h1).users nofun] at hepoch
      exact hepoch
  refine batch_live hp (fun q hq m => ?_) hx hs2
  cases reset with
  | true => rcases hq with _ | ⟨_, _ | ⟨_, ⟨⟩⟩⟩ <;> exact trivial
  | false => cases hq

/-! ## Transactions and steps -/

include hp in
theorem registers_live {A : Ambient} {userId : UserId} {device : TrustedDevice} {hash : Option String}
    {epoch : Option Nat} (hs : LiveSessions p b) (hreg : Registers A userId device hash epoch stmts)
    (hst : ∀ existingId status, stmts = updateDeviceStmts A userId existingId device status hash epoch false →
      ∀ row, deviceOf userId existingId b = some row → epochHolds b userId epoch = true → p row.status → p status)
    (hx : execAll AccountStmt.exec stmts b = some a) : LiveSessions p a := by
  cases hreg with
  | insert => exact batch_live hp (by simp [insertDeviceStmt, AccountStmt.KeepsLive]) hx hs
  | replace existingId => exact batch_live hp (by simp [replaceDeviceStmts, AccountStmt.KeepsLive]) hx hs
  | update existingId status reset hreset =>
    refine update_live hp hs (fun row hrow hepoch hold => ?_) hx
    cases reset with
    | true =>
      rw [hreset rfl]
      exact hp _ rfl
    | false => exact hst existingId status rfl row hrow hepoch hold

variable {K : Crypto} {c : AccountCall} {tr : AccountTrace}

include hp in
theorem transacts_live (ht : Transacts K c tr stmts) (hc : BoundSessions stmts) (hs : LiveSessions p b)
    (hst : ∀ A userId existingId device status hash epoch,
      stmts = updateDeviceStmts A userId existingId device status hash epoch false →
      ∀ row, deviceOf userId existingId b = some row → epochHolds b userId epoch = true → p row.status → p status)
    (hx : execAll AccountStmt.exec stmts b = some a) : LiveSessions p a := by
  cases ht with
  | registerLogin userId device hash epoch _ _ _ hreg => exact registers_live hp hs hreg (fun _ _ => hst _ _ _ _ _ _ _) hx
  | registerPost userId device _ _ hreg => exact registers_live hp hs hreg (fun _ _ => hst _ _ _ _ _ _ _) hx
  | createAccount => exact createAccount_live hp hs hx
  | withdraw => exact withdraw_live hs hx
  | finishRecovery => exact finish_live hs hx
  | rotateSession id d row =>
    have hrow : row.deviceId = some d := hc.device id d row (by simp [rotateStmts])
    by_cases hallow : RotationAllowed d row b
    · exact rotate_live hp hs hrow hallow hx
    · obtain ⟨hsess, hdev⟩ := rotate_refused hs hallow hx
      exact live_fewer hs hdev fun k r hr _ => by rw [← hsess]; exact hr
  | createSession id row =>
    have hrow : row.deviceId = none := hc.plain id row (by simp)
    exact batch_live hp (by simp [AccountStmt.KeepsLive, hrow]) hx hs
  | approve => exact batch_live hp (by simp [approveStmts, AccountStmt.KeepsLive]) hx hs
  | migrateRecovery => exact batch_live hp (by simp [migrateStmts, AccountStmt.KeepsLive]) hx hs
  | rotateRecovery => exact batch_live hp (by simp [rotateRecoveryStmts, AccountStmt.KeepsLive]) hx hs
  | _ => exact batch_live hp (by simp [AccountStmt.KeepsLive]) hx hs

theorem maintenance_live {q : MaintenanceStmt} (hs : LiveSessions p b) (hx : q.exec b = some a) : LiveSessions p a := by
  cases q with
  | deleteExpired table now =>
    cases table with
    | sessions =>
      cases hx
      refine live_fewer hs rfl fun k r hr _ => ?_
      rw [Table.get?_deleteWhere] at hr
      exact (Option.filter_eq_some_iff.mp hr).1
    | loginSessions | fakeLoginSessions | registrationSessions | recoveryChallenges =>
      cases hx
      exact live_fewer hs rfl fun _ _ hr _ => hr
  | deleteUser u =>
    cases hx
    refine live_step hs fun k r d hr hbound => ?_
    simp only [Db.deleteUser, Table.get?_deleteWhere, Option.filter_eq_some_iff] at hr
    refine ⟨hr.1, fun dev hget hu hst => ⟨dev, ?_, hu, hst⟩⟩
    have hne : dev.userId ≠ u := by
      rintro rfl
      simp [hu] at hr
    simp [Db.deleteUser, hget, hne]

end

/-- A registration writes back the status of a device that was rejected or
revoked when the registration read it and is in use again. -/
def WritesBack (tr : WorkerTrace) (e : WorkerStep) : Prop :=
  ∃ A userId existingId device old hash epoch row,
    e.label = .account (.commit (updateDeviceStmts A userId existingId device old.status hash epoch false)) ∧
    (∃ x ∈ tr, existingDevice userId device x.before.db = some (existingId, old)) ∧ old.status.active = false ∧
    deviceOf userId existingId e.before.db = some row ∧ row.status.active = true ∧
    epochHolds e.before.db userId epoch = true

section
variable {p : DeviceStatus → Prop} (hp : ∀ status, status.active = true → p status)
variable {K : Crypto} {c : WorkerCall} {tr : WorkerTrace} {e : WorkerStep}

include hp in
theorem guar_live (hg : c.guar K tr e) (hs : LiveSessions p e.before.db)
    (hst : (∀ status, p status) ∨ (∀ status, p status → status.active = true) ∧ ¬ WritesBack tr e) :
    LiveSessions p e.after.db := by
  cases guar_effect hg with
  | account htr hx hw =>
    cases c with
    | account d =>
      refine transacts_live hp hw.1 hw.2.bound hs
        (fun A u id device status hash epoch hstmts row hrow hepoch hrst => ?_) hx
      subst hstmts
      rcases hst with hall | ⟨hact, hno⟩
      · exact hall status
      obtain ⟨old, rfl, -, hsaw⟩ := hw.2.read A u id device status hash epoch rfl
      by_contra hdead
      refine hno ⟨A, u, id, device, old, hash, epoch, row, rfl, embedded_saw htr hsaw, ?_, hrow, hact _ hrst, hepoch⟩
      exact Bool.eq_false_iff.mpr fun h => hdead (hp _ h)
    | sync | cleanupExpiredSessions => exact hw.elim
    | createExport | deleteExport | deleteAccount =>
      obtain ⟨t, rfl⟩ := hw
      exact batch_live hp (by simp [AccountStmt.KeepsLive]) hx hs
  | sync _ hx _ =>
    have hframe := batch_syncFrame hx
    exact live_fewer hs hframe.devices fun k r hr _ => by rw [← hframe.sessions]; exact hr
  | maintenance hx _ => exact maintenance_live hs hx
  | put | delete | idle => exact hs

end

/-! ## Whole runs -/

abbrev WorkerHistory := History WorkerCall Worker WorkerAccess
abbrev WorkerProcs := List (Proc WorkerCall Worker WorkerAccess (Except WorkerError WorkerResult))

/-- Before sessions were bound to devices there were none of devices. -/
def NoDeviceSessions (s : Db) : Prop := ∀ id row, s.sessions.get? id = some row → row.deviceId = none

theorem NoDeviceSessions.live {p : DeviceStatus → Prop} {s : Db} (h : NoDeviceSessions s) : LiveSessions p s where
  live id row d hr hd := by rw [h id row hr] at hd; cases hd
  once id _ row _ d hr _ hd _ := by rw [h id row hr] at hd; cases hd

section
variable {F : Formats} {K : Crypto} {s₀ s : Worker} {h : WorkerHistory} {ps : WorkerProcs}

theorem reach_live {p : DeviceStatus → Prop} (hp : ∀ status, status.active = true → p status)
    (hs : NoDeviceSessions s₀.db) (hr : Reach (WorkerCall.code F K) (fun _ => True) s₀ h s ps)
    (hst : ∀ h₁ i c e h₂, h = h₁ ++ .step i c e :: h₂ →
      (∀ status, p status) ∨ (∀ status, p status → status.active = true) ∧ ¬ WritesBack (own i h₁) e) :
    LiveSessions p s.db :=
  reach_invariant (fun c _ => WorkerCall.sat F K c) (I := fun w => LiveSessions p w.db) hs.live
    (fun _ _ _ _ hlive hg hst => guar_live hp hg hlive hst) hr hst

/-- A device has one session at most, a refused rotation leaves all sessions,
and unless a stale status is written back, the device of a session is in use. -/
theorem one_session_per_device (hs : NoDeviceSessions s₀.db)
    (hr : Reach (WorkerCall.code F K) (fun _ => True) s₀ h s ps) :
    LiveSessions (fun _ => True) s.db ∧
    (∀ i c e id d row, .step i c e ∈ h → e.label = .account (.commit (rotateStmts id d row)) →
      ¬ RotationAllowed d row e.before.db → e.after.db.sessions = e.before.db.sessions) ∧
    ((∀ h₁ i c e h₂, h = h₁ ++ .step i c e :: h₂ → ¬ WritesBack (own i h₁) e) →
      LiveSessions (fun status => status.active = true) s.db) := by
  refine ⟨reach_live (fun _ _ => trivial) hs hr fun _ _ _ _ _ _ => .inl fun _ => trivial, ?_, fun hfresh =>
    reach_live (fun _ hact => hact) hs hr fun h₁ i c e h₂ hh => .inr ⟨fun _ hact => hact, hfresh h₁ i c e h₂ hh⟩⟩
  intro i c e id d row he hl hrefused
  obtain ⟨h₁, h₂, rfl⟩ := List.append_of_mem he
  obtain ⟨-, hb, hg⟩ := reach_step (fun c _ => WorkerCall.sat F K c) hr
  obtain ⟨ps₁, hr₁⟩ := reach_prefix hr
  rw [← hb] at hr₁
  have hlive : LiveSessions (fun _ => True) e.before.db :=
    reach_live (fun _ _ => trivial) hs hr₁ fun _ _ _ _ _ _ => .inl fun _ => trivial
  cases guar_effect hg with
  | account _ hx _ =>
    cases hl
    exact (rotate_refused hlive hrefused hx).1
  | sync | maintenance | put | delete => cases hl
  | idle => rfl

end

/-! ## A rejected device that signs in -/

def rejectedStore : Worker where
  db := { settledStore with
    trustedDevices := (∅ : Table DeviceId TrustedDeviceRow).set oldDeviceId
      { oldDevice .rejected with credentialHash := some (plainText 43) }
    sessions := (∅ : Table String SessionRow).set "session" ⟨sampleOwner, "token", "csrf", none, 4, 5000, 0⟩
    loginSessions := (∅ : Table String LoginSessionRow).set (sampleLoginAmbient.random "id")
      ⟨sampleOwner, "record", 4, 5000⟩ }

def registerOld (publicKey : String) : WorkerCall :=
  .account (.postDevices plainAmbient ⟨"token", .cookie⟩ ⟨none, none⟩ ⟨"old phone", some "fingerprint-old", publicKey⟩)

def loginOld : WorkerCall :=
  .account (.loginFinish sampleLoginAmbient ⟨none, none⟩ .mobile (sampleLoginAmbient.random "id") "record"
    { sampleRecovery.device.toMobileDeviceLogin with id := oldDeviceId, fingerprint := "fingerprint-old" })

def newKeyLogin : Play WorkerCall Worker WorkerAccess (Except WorkerError WorkerResult) :=
  play (WorkerCall.code plainFormats plainCrypto) rejectedStore
    ([.issue (registerOld (plainText 43)), .issue loginOld] ++ List.replicate 5 (.step 0) ++ List.replicate 7 (.step 1))

theorem newKeyLogin_reach : Reach (WorkerCall.code plainFormats plainCrypto) (fun _ => True) rejectedStore
    newKeyLogin.1 newKeyLogin.2.1 newKeyLogin.2.2 := by
  unfold newKeyLogin
  exact play_reach fun _ _ => trivial

theorem rejectedStore_sessions : NoDeviceSessions rejectedStore.db := by
  intro id row h
  simp only [rejectedStore, Table.get?_set, Table.get?_empty] at h
  split at h
  · cases h; rfl
  · cases h

/-- Two statements, of which the second one updates a device. -/
def updatesAlone : Event WorkerCall Worker WorkerAccess → Bool
  | .step _ _ ⟨.account (.commit [_, .devices (.update ..)]), _, _⟩ => true
  | _ => false

theorem WritesBack.alone {tr : WorkerTrace} {e : WorkerStep} (h : WritesBack tr e) (i : Nat) (c : WorkerCall) :
    updatesAlone (.step i c e) = true := by
  obtain ⟨A, u, id, device, old, hash, epoch, row, hl, -⟩ := h
  obtain ⟨label, b, a⟩ := e
  cases hl
  rfl

/-- `one_session_per_device` at that login. -/
theorem one_session_per_device_newKeyLogin :
    LiveSessions (fun status => status.active = true) newKeyLogin.2.1.db ∧
      (newKeyLogin.2.1.db.sessions.get? (sampleLoginAmbient.random "id")).bind (·.deviceId) = some oldDeviceId := by
  refine ⟨(one_session_per_device rejectedStore_sessions newKeyLogin_reach).2.2 ?_, by decide +kernel⟩
  intro h₁ i c e h₂ hh hback
  have hnone : newKeyLogin.1.any updatesAlone = false := by decide +kernel
  rw [hh, List.any_append, List.any_cons, hback.alone, Bool.true_or, Bool.or_true] at hnone
  cases hnone

/-- A registration reads the rejected device; another one gives the device a new
key, the device signs in, and the first one commits. -/
def staleRegistration : Play WorkerCall Worker WorkerAccess (Except WorkerError WorkerResult) :=
  play (WorkerCall.code plainFormats plainCrypto) rejectedStore
    ([.issue (registerOld (plainText 42 ++ "E")), .issue (registerOld (plainText 43)), .issue loginOld] ++
      List.replicate 3 (.step 0) ++ List.replicate 5 (.step 1) ++ List.replicate 7 (.step 2) ++ [.step 0])

theorem staleRegistration_reach : Reach (WorkerCall.code plainFormats plainCrypto) (fun _ => True) rejectedStore
    staleRegistration.1 staleRegistration.2.1 staleRegistration.2.2 := by
  unfold staleRegistration
  exact play_reach fun _ _ => trivial

/-- The login of the device that ends up rejected has left its session. -/
theorem session_of_rejected_device : NoDeviceSessions rejectedStore.db ∧
    Reach (WorkerCall.code plainFormats plainCrypto) (fun _ => True) rejectedStore
      staleRegistration.1 staleRegistration.2.1 staleRegistration.2.2 ∧
    ¬ LiveSessions (fun status => status.active = true) staleRegistration.2.1.db := by
  refine ⟨rejectedStore_sessions, staleRegistration_reach, fun hlive => ?_⟩
  have hsession : (staleRegistration.2.1.db.sessions.get? (sampleLoginAmbient.random "id")).bind (·.deviceId) =
      some oldDeviceId := by decide +kernel
  have hdevice : (staleRegistration.2.1.db.trustedDevices.get? oldDeviceId).map (·.status) = some .rejected := by
    decide +kernel
  obtain ⟨row, hrow, hd⟩ := Option.bind_eq_some_iff.mp hsession
  obtain ⟨dev, hdev, hst⟩ := Option.map_eq_some_iff.mp hdevice
  obtain ⟨dev', hdev', -, hact⟩ := hlive.live _ row oldDeviceId hrow hd
  cases hdev.symm.trans hdev'
  rw [hst] at hact
  cases hact

end ZeroVault

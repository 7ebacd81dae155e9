import ZeroVault.DeviceSessions

/-!
# The devices of an account

In every store that the Worker reaches a device belongs to a user of its, and no
two pending or approved devices of a user share a public key or a fingerprint.
Every write goes through the partial unique indexes or leaves the keys of the
active rows as they are (`device_effect`).
-/

namespace ZeroVault

open Lib

/-- Two rows that the unique indexes keep apart while both are active. -/
def TrustedDeviceRow.clashes (r row : TrustedDeviceRow) : Bool :=
  r.userId = row.userId && sameDevice row.publicKey row.fingerprint r

structure DeviceRegistry (db : Db) : Prop where
  owner : ∀ id row, db.trustedDevices.get? id = some row → db.users.contains row.userId = true
  unique : ∀ i j r s, db.trustedDevices.get? i = some r → db.trustedDevices.get? j = some s → r.clashes s = true →
    r.status.active = true → s.status.active = true → i = j

section
variable {r s row row' : TrustedDeviceRow} {t t' : Table DeviceId TrustedDeviceRow} {id : DeviceId}

theorem clashes_iff : r.clashes s = true ↔
    r.userId = s.userId ∧ (r.publicKey = s.publicKey ∨ r.fingerprint.isSome = true ∧ r.fingerprint = s.fingerprint) := by
  unfold TrustedDeviceRow.clashes sameDevice
  simp

theorem clashes_symm (h : r.clashes s = true) : s.clashes r = true := by
  obtain ⟨hu, hkey | ⟨hsome, hfp⟩⟩ := clashes_iff.mp h
  · exact clashes_iff.mpr ⟨hu.symm, .inl hkey.symm⟩
  · exact clashes_iff.mpr ⟨hu.symm, .inr ⟨hfp ▸ hsome, hfp.symm⟩⟩

/-- The indexes let a row in when no other active row of its user clashes with it. -/
theorem activeConflict_false : activeConflict t id row = false ↔
    (row.status.active = true → ∀ k r, t.get? k = some r → r.status.active = true → r.clashes row = true → k = id) := by
  unfold activeConflict
  rw [Bool.and_eq_false_iff, Table.any_eq_false]
  constructor
  · rintro (h | h) hact k r hget hr hclash
    · rw [hact] at h
      exact nomatch h
    · by_contra hne
      have hk := h k r hget
      rw [clashes_iff] at hclash
      simp [hne, hclash.1, hr] at hk
      rcases hclash.2 with hkey | ⟨hsome, hfp⟩
      · exact hk.1 hkey
      · exact absurd hfp (hk.2 hsome)
  · intro h
    cases hact : row.status.active with
    | false => exact .inl rfl
    | true =>
      refine .inr fun k r hget => ?_
      rw [Bool.eq_false_iff]
      intro hk
      simp only [Bool.and_eq_true, decide_eq_true_eq, Bool.or_eq_true] at hk
      obtain ⟨⟨⟨hne, hu⟩, hr⟩, hsame⟩ := hk
      exact hne (h hact k r hget hr (clashes_iff.mpr ⟨hu, hsame⟩))

theorem putDevice_eq_some : putDevice t id row = some t' ↔ activeConflict t id row = false ∧ t.set id row = t' := by
  unfold putDevice
  cases activeConflict t id row <;> simp

end

/-! ## One statement -/

/-- Every row was there, with its user; one that is active was active under the same key and fingerprint. -/
def Weaker (t t' : Table DeviceId TrustedDeviceRow) : Prop :=
  ∀ id row', t'.get? id = some row' → ∃ row, t.get? id = some row ∧ row'.userId = row.userId ∧
    (row'.status.active = true → row.status.active = true ∧ row'.publicKey = row.publicKey ∧
      row'.fingerprint = row.fingerprint)

/-- No status in use is written past the indexes. -/
def DeviceStmt.Checked : DeviceStmt → Prop
  | setStatus _ _ status _ => status.active = false
  | _ => True

section
variable {db : Db} {q : DeviceStmt} {t : Table DeviceId TrustedDeviceRow}

theorem Weaker.refl : Weaker t t := fun _ row h => ⟨row, h, rfl, fun hact => ⟨hact, rfl, rfl⟩⟩

theorem weaker_deleteWhere {p : DeviceId → TrustedDeviceRow → Bool} : Weaker t (t.deleteWhere p) := by
  intro id row h
  rw [Table.get?_deleteWhere] at h
  exact ⟨row, (Option.filter_eq_some_iff.mp h).1, rfl, fun hact => ⟨hact, rfl, rfl⟩⟩

theorem weaker_updateWhere {p : DeviceId → TrustedDeviceRow → Bool} {f : TrustedDeviceRow → TrustedDeviceRow}
    (hf : ∀ id row, p id row = true → (f row).userId = row.userId ∧ ((f row).status.active = true →
      row.status.active = true ∧ (f row).publicKey = row.publicKey ∧ (f row).fingerprint = row.fingerprint)) :
    Weaker t (t.updateWhere p f) := by
  intro id row' h
  rw [Table.get?_updateWhere] at h
  obtain ⟨row, hrow, rfl⟩ := Option.map_eq_some_iff.mp h
  refine ⟨row, hrow, ?_⟩
  split
  · exact hf id row ‹_›
  · exact ⟨rfl, fun hact => ⟨hact, rfl, rfl⟩⟩

theorem insertDevice_eq_some {id : DeviceId} {row : TrustedDeviceRow} : insertDevice db id row = some t ↔
    db.users.contains row.userId = true ∧ db.trustedDevices.contains id = false ∧
      putDevice db.trustedDevices id row = some t := by
  unfold insertDevice
  cases db.users.contains row.userId <;> cases db.trustedDevices.contains id <;> simp

/-- A statement puts one row of a known user through the indexes, or leaves the active rows as they are. -/
theorem device_effect (h : q.exec db = some t) (hq : q.Checked) :
    Weaker db.trustedDevices t ∨ ∃ id row, putDevice db.trustedDevices id row = some t ∧
      (db.users.contains row.userId = true ∨ ∃ old, db.trustedDevices.get? id = some old ∧ old.userId = row.userId) := by
  -- a row passes the unique indexes, or no device becomes active
  cases q with
  | insert id row =>
    obtain ⟨hu, -, hput⟩ := insertDevice_eq_some.mp h
    exact .inr ⟨id, row, hput, .inl hu⟩
  | insertAtEpoch id row epoch =>
    simp only [DeviceStmt.exec] at h
    split at h
    · obtain ⟨hu, -, hput⟩ := insertDevice_eq_some.mp h
      exact .inr ⟨id, row, hput, .inl hu⟩
    · cases h
      exact .inl .refl
  | revokeAll u now =>
    cases h
    exact .inl (weaker_updateWhere fun _ _ _ => ⟨rfl, fun hact => by cases hact⟩)
  | install id row =>
    simp only [DeviceStmt.exec] at h
    split at h
    · obtain ⟨hu, -, hput⟩ := insertDevice_eq_some.mp h
      exact .inr ⟨id, row, hput, .inl hu⟩
    · rename_i old hold
      split at h
      · exact .inr ⟨id, _, h, .inr ⟨old, hold, rfl⟩⟩
      · cases h
        exact .inl .refl
  | setStatus u id status now =>
    cases h
    refine .inl (weaker_updateWhere fun _ _ _ => ⟨rfl, fun hact => ?_⟩)
    exact absurd (hq.symm.trans hact) Bool.false_ne_true
  | approvePending u id packet now =>
    cases h
    refine .inl (weaker_updateWhere fun _ row hp => ⟨rfl, fun _ => ⟨?_, rfl, rfl⟩⟩)
    simp only [Bool.and_eq_true, decide_eq_true_eq] at hp
    rw [hp.1.2]
    rfl
  | delete u id epoch =>
    cases h
    exact .inl weaker_deleteWhere
  | deleteDuplicates u id key fp epoch =>
    cases h
    exact .inl weaker_deleteWhere
  | update u id device status hash epoch now =>
    simp only [DeviceStmt.exec] at h
    split at h
    · cases h
      exact .inl .refl
    · rename_i row hrow
      split at h
      · exact .inr ⟨id, _, h, .inr ⟨row, hrow, rfl⟩⟩
      · cases h
        exact .inl .refl

end

section
variable {s s' : Db} {t : Table DeviceId TrustedDeviceRow}

theorem DeviceRegistry.weaken (hs : DeviceRegistry s) (hw : Weaker s.trustedDevices s'.trustedDevices)
    (hu : ∀ u, s.users.contains u = true → s'.users.contains u = true) : DeviceRegistry s' where
  owner id row h := by
    obtain ⟨old, hold, huser, -⟩ := hw id row h
    rw [huser]
    exact hu _ (hs.owner id old hold)
  unique i j r q hr hq hclash hract hqact := by
    obtain ⟨r', hr', hru, hr⟩ := hw i r hr
    obtain ⟨q', hq', hqu, hq⟩ := hw j q hq
    obtain ⟨hract', hrkey, hrfp⟩ := hr hract
    obtain ⟨hqact', hqkey, hqfp⟩ := hq hqact
    refine hs.unique i j r' q' hr' hq' ?_ hract' hqact'
    rw [clashes_iff] at hclash ⊢
    rwa [← hru, ← hqu, ← hrkey, ← hqkey, ← hrfp, ← hqfp]

theorem DeviceRegistry.put (hs : DeviceRegistry s) {id : DeviceId} {row : TrustedDeviceRow}
    (hput : putDevice s.trustedDevices id row = some t) (hu : s.users.contains row.userId = true) :
    DeviceRegistry (setDevices s t) := by
  obtain ⟨hfree, rfl⟩ := putDevice_eq_some.mp hput
  rw [activeConflict_false] at hfree
  constructor
  · intro k r h
    simp only [setDevices, Table.get?_set] at h ⊢
    split at h
    · cases h
      exact hu
    · exact hs.owner k r h
  · intro i j r q hr hq hclash hract hqact
    simp only [setDevices, Table.get?_set] at hr hq
    split at hr
    · rename_i hi
      cases hr
      split at hq
      · rename_i hj
        exact hi.trans hj.symm
      · exact hi.trans (hfree hract j q hq hqact (clashes_symm hclash)).symm
    · split at hq
      · rename_i hj
        cases hq
        exact (hfree hqact i r hr hract hclash).trans hj.symm
      · exact hs.unique i j r q hr hq hclash hract hqact

end

def AccountStmt.Checked : AccountStmt → Prop
  | devices q => q.Checked
  | _ => True

section
variable {q : AccountStmt} {stmts : List AccountStmt} {s s' : Db}

theorem exec_registry (h : q.exec s = some s') (hq : q.Checked) (hs : DeviceRegistry s) : DeviceRegistry s' := by
  have hkeep : ∀ u, s.users.contains u = true → s'.users.contains u = true := by
    intro u hu
    obtain ⟨row, hrow⟩ := Table.contains_eq_true.mp hu
    obtain ⟨row', hrow', -⟩ := (exec_advances h).users u row hrow
    exact Table.contains_eq_true.mpr ⟨row', hrow'⟩
  cases account_effect h with
  | devices ht =>
    rcases device_effect ht hq with hw | ⟨id, row, hput, hu⟩
    · exact hs.weaken hw fun _ hu => hu
    · refine hs.put hput ?_
      rcases hu with hu | ⟨old, hold, hu⟩
      · exact hu
      · rw [← hu]
        exact hs.owner id old hold
  | _ => exact hs.weaken .refl hkeep

theorem batch_registry (h : execAll AccountStmt.exec stmts s = some s') (hq : ∀ q ∈ stmts, q.Checked)
    (hs : DeviceRegistry s) : DeviceRegistry s' :=
  execAll_keeps AccountStmt.exec (fun q hm _ _ hx hs => exec_registry hx (hq q hm) hs) h hs

end

/-! ## Whole runs -/

theorem registers_checked {A : Ambient} {u : UserId} {device : TrustedDevice} {hash : Option String} {epoch : Option Nat}
    {stmts : List AccountStmt} (h : Registers A u device hash epoch stmts) : ∀ q ∈ stmts, q.Checked := by
  cases h with
  | insert => simp [insertDeviceStmt, AccountStmt.Checked, DeviceStmt.Checked]
  | replace => simp [replaceDeviceStmts, AccountStmt.Checked, DeviceStmt.Checked]
  | update _ _ reset => cases reset <;> simp [updateDeviceStmts, AccountStmt.Checked, DeviceStmt.Checked]

theorem transacts_checked {K : Crypto} {c : AccountCall} {tr : AccountTrace} {stmts : List AccountStmt}
    (h : Transacts K c tr stmts) : ∀ q ∈ stmts, q.Checked := by
  cases h with
  | registerLogin _ _ _ _ _ _ _ hreg => exact registers_checked hreg
  | registerPost _ _ _ _ hreg => exact registers_checked hreg
  | createAccount => simp [mobileAccountStmts, AccountStmt.Checked, DeviceStmt.Checked]
  | withdraw _ _ _ _ _ hstatus => simp [withdrawStmts, AccountStmt.Checked, DeviceStmt.Checked, hstatus]
  | approve => simp [approveStmts, AccountStmt.Checked, DeviceStmt.Checked]
  | finishRecovery => simp [finishRecoveryStmts, AccountStmt.Checked, DeviceStmt.Checked]
  | rotateSession => simp [rotateStmts, AccountStmt.Checked]
  | migrateRecovery => simp [migrateStmts, AccountStmt.Checked]
  | rotateRecovery => simp [rotateRecoveryStmts, AccountStmt.Checked]
  | _ => simp [AccountStmt.Checked]

theorem maintenance_registry {q : MaintenanceStmt} {s s' : Db} (h : q.exec s = some s') (hs : DeviceRegistry s) :
    DeviceRegistry s' := by
  cases q with
  | deleteExpired table now =>
    cases table <;> cases h <;> exact hs.weaken .refl fun _ hu => hu
  | deleteUser u =>
    cases h
    have hmem : ∀ id row, (s.deleteUser u).trustedDevices.get? id = some row →
        s.trustedDevices.get? id = some row ∧ row.userId ≠ u := by
      intro id row h
      simp only [Db.deleteUser, Table.get?_deleteWhere, Option.filter_eq_some_iff] at h
      simpa using h
    constructor
    · intro id row h
      obtain ⟨hold, hne⟩ := hmem id row h
      obtain ⟨user, huser⟩ := Table.contains_eq_true.mp (hs.owner id row hold)
      exact Table.contains_eq_true.mpr ⟨user, by simp [Db.deleteUser, hne, huser]⟩
    · exact fun i j r q hr hq => hs.unique i j r q (hmem i r hr).1 (hmem j q hq).1

section
variable {F : Formats} {K : Crypto} {s : Worker} {h : WorkerHistory} {ps : WorkerProcs}

theorem guar_registry {c : WorkerCall} {tr : WorkerTrace} {e : WorkerStep} (hg : c.guar K tr e)
    (hs : DeviceRegistry e.before.db) : DeviceRegistry e.after.db := by
  cases guar_effect hg with
  | account _ hx hw =>
    refine batch_registry hx ?_ hs
    cases c with
    | account d => exact transacts_checked hw.1
    | sync | cleanupExpiredSessions => exact hw.elim
    | createExport | deleteExport | deleteAccount =>
      obtain ⟨t, rfl⟩ := hw
      simp [AccountStmt.Checked]
  | sync _ hx _ =>
    refine hs.weaken ?_ fun u hu => ?_
    · rw [(batch_syncFrame hx).devices]
      exact .refl
    · rw [batch_users hx]
      exact hu
  | maintenance hx _ => exact maintenance_registry hx hs
  | put | delete | idle => exact hs

theorem empty_registry : DeviceRegistry ({} : Db) :=
  ⟨fun _ _ h => (nomatch h), fun _ _ _ _ h => (nomatch h)⟩

theorem reach_registry (hr : Reach (WorkerCall.code F K) (fun _ => True) {} h s ps) : DeviceRegistry s.db :=
  reach_invariant (fun c _ => WorkerCall.sat F K c) (I := fun w => DeviceRegistry w.db)
    (P := fun _ _ => True) empty_registry (fun _ _ _ _ hs hg _ => guar_registry hg hs) hr fun _ _ _ _ _ _ => trivial

end

end ZeroVault

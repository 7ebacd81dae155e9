import ZeroVault.ActiveDevices
import ZeroVault.OneAccountPerEmail

/-!
# A native device registers

A registration with a credential replaces one row of its user, the one that its
search prefers. `Registrable` is when no other row is in the way: the unique
indexes let the new row in, and it is then the only active one with its key and
fingerprint (`registerDevice_registers`).
-/

namespace ZeroVault

open Lib

/-! ## Running a registration -/

theorem accountBatch_run (stmts : List AccountStmt) (s : Db) : (accountBatch stmts).run s =
    match execAll AccountStmt.exec stmts s with
    | some s' => (s', .ok (counts AccountStmt.exec AccountStmt.changes stmts s))
    | none => (s, .error .databaseError) := by
  unfold accountBatch tryBatch
  rw [TryProg.run_bind]
  simp only [TryProg.transact, TryProg.run, Prog.access, Prog.run_act, Prog.run_ret]
  cases execAll AccountStmt.exec stmts s <;> rfl

/-- The epoch that a registration expects, if it expects one. -/
def currentEpoch (db : Db) (u : UserId) (epoch : Option Nat) : Bool :=
  epoch.all fun e => (db.users.get? u).any (·.authEpoch = e)

section
variable {db db' : Db} {u : UserId} {epoch : Option Nat} {id : DeviceId} {row : TrustedDeviceRow} {device : TrustedDevice}
  {best : Option (DeviceId × TrustedDeviceRow)}

theorem assertExpectedEpoch_run : (assertExpectedEpoch u epoch).run db =
    (db, if currentEpoch db u epoch then .ok () else .error .authEpochChanged) := by
  unfold assertExpectedEpoch currentEpoch
  cases epoch with
  | none => rfl
  | some e =>
    unfold getUser read
    dsimp only
    rw [TryProg.run_read_bind]
    cases db.users.get? u with
    | none => rfl
    | some user =>
      rw [Option.all_some, Option.all_some, Option.any_some]
      by_cases he : user.authEpoch = e <;> simp [he] <;> rfl

theorem currentEpoch_of_user (hu : db.users.contains u = true) : currentEpoch db u epoch = epochHolds db u epoch := by
  obtain ⟨user, huser⟩ := Table.contains_eq_true.mp hu
  unfold currentEpoch epochHolds
  rw [huser]
  cases epoch with
  | none => rfl
  | some e => simp [eq_comm]

theorem registeredDevice_run (hcurrent : currentEpoch db u epoch = true) (hget : deviceOf u id db = some row) :
    (registeredDevice u id epoch).run db = (db, .ok (rowToDevice id row)) := by
  unfold registeredDevice getDevice read
  rw [TryProg.run_bind, assertExpectedEpoch_run, if_pos hcurrent]
  dsimp only
  rw [TryProg.run_read_bind, hget]
  rfl

theorem foldl_existing {fp : Option String} : ∀ {l : List (DeviceId × TrustedDeviceRow)} {best r},
    l.foldl (fun best r => if best.all (existingBefore fp r) then some r else best) best = r →
      (r = none → best = none ∧ l = []) ∧ (∀ x, r = some x → best = some x ∨ x ∈ l)
  | [], best, r, h => ⟨fun hr => ⟨h.trans hr, rfl⟩, fun x hx => .inl (h.trans hx)⟩
  | y :: l, best, r, h => by
    rw [List.foldl_cons] at h
    obtain ⟨hnone, hsome⟩ := foldl_existing h
    constructor
    · intro hr
      have hbest := (hnone hr).1
      split at hbest
      · exact nomatch hbest
      · rename_i hall
        rw [hbest] at hall
        exact absurd rfl hall
    · intro x hx
      rcases hsome x hx with hbest | hmem
      · split at hbest
        · exact .inr (Option.some.inj hbest ▸ List.mem_cons_self)
        · exact .inl hbest
      · exact .inr (List.mem_cons_of_mem _ hmem)

/-- A row of the user that the search for an existing registration finds. -/
def Found (db : Db) (u : UserId) (device : TrustedDevice) (id : DeviceId) (row : TrustedDeviceRow) : Prop :=
  db.trustedDevices.get? id = some row ∧ row.userId = u ∧ sameDevice device.publicKey device.fingerprint row = true

theorem existing_found (h : existingDevice u device db = some (id, row)) : Found db u device id row := by
  rcases (foldl_existing h).2 _ rfl with hnone | hmem
  · exact nomatch hnone
  · obtain ⟨hget, hmatch⟩ := Table.mem_select.mp hmem
    rw [Bool.and_eq_true, decide_eq_true_eq] at hmatch
    exact ⟨hget, hmatch⟩

theorem none_found (h : existingDevice u device db = none) : ¬ Found db u device id row := by
  rintro ⟨hget, hu, hsame⟩
  have hempty := ((foldl_existing h).1 rfl).2
  have hmem : (id, row) ∈ db.trustedDevices.select fun _ d =>
      d.userId = u && sameDevice device.publicKey device.fingerprint d :=
    Table.mem_select.mpr ⟨hget, by simp [hu, hsame]⟩
  rw [hempty] at hmem
  exact absurd hmem List.not_mem_nil

end

/-! ## What a registration is for -/

/-- The device is stored and returned, pending under the caller's id and key and the fingerprint that the caller gave,
and no other active row has its key or fingerprint; or its account has moved on. -/
inductive RegistersDevice (u : UserId) (device : TrustedDevice) : Db × Except AccountError TrustedDevice → Prop
  | registered {db : Db} {registered : TrustedDevice} : registered.id = device.id →
      registered.publicKey = device.publicKey →
      (device.fingerprint.isSome = true → registered.fingerprint = device.fingerprint) →
      registered.status = .pending → (deviceOf u device.id db).map (rowToDevice device.id) = some registered →
      (∀ id row, Found db u device id row → row.status.active = true → id = device.id) →
      RegistersDevice u device (db, .ok registered)
  | epochChanged {db : Db} : RegistersDevice u device (db, .error .authEpochChanged)

/-- No row but the one that the registration replaces is in its way. -/
structure Registrable (u : UserId) (device : TrustedDevice) (epoch : Option Nat) (db : Db) : Prop where
  free : epochHolds db u epoch = true →
    match existingDevice u device db with
    | none => db.trustedDevices.contains device.id = false ∧ device.status = .pending
    | some (existingId, existing) =>
      if existingId = device.id then
        device.fingerprint = none → ∀ id row, db.trustedDevices.get? id = some row → row.userId = u →
          row.status.active = true → row.publicKey ≠ device.publicKey → row.fingerprint.isSome = true →
          row.fingerprint = existing.fingerprint → id = device.id
      else
        db.trustedDevices.contains device.id = false ∧
          ∀ id row, Found db u device id row → row.status.active = true → id = existingId

section
variable {db db' : Db} {u : UserId} {epoch : Option Nat} {device : TrustedDevice} {A : Ambient} {hash : String}
  {existingId id : DeviceId} {existing row r : TrustedDeviceRow} {stmts : List AccountStmt}

theorem not_registers {s : Db} : ¬ RegistersDevice u device (s, .error .databaseError) := fun h => nomatch h

theorem batch_registered : (accountBatch stmts >>= fun _ => registeredDevice u id epoch).run db =
    match execAll AccountStmt.exec stmts db with
    | some db' => (registeredDevice u id epoch).run db'
    | none => (db, .error .databaseError) := by
  rw [TryProg.run_bind, accountBatch_run]
  cases execAll AccountStmt.exec stmts db <;> rfl

theorem clashes_of_same (hu : r.userId = row.userId) (hkey : row.publicKey = device.publicKey)
    (hfp : device.fingerprint.isSome = true → row.fingerprint = device.fingerprint)
    (hsame : sameDevice device.publicKey device.fingerprint r = true) : r.clashes row = true := by
  unfold sameDevice at hsame
  simp only [Bool.or_eq_true, Bool.and_eq_true, decide_eq_true_eq] at hsame
  rcases hsame with hk | ⟨hsome, hf⟩
  · exact clashes_iff.mpr ⟨hu, .inl (hk.trans hkey.symm)⟩
  · exact clashes_iff.mpr ⟨hu, .inr ⟨hsome, hf.trans (hfp (hf ▸ hsome)).symm⟩⟩

/-- A transaction that puts the caller's row registers the device when the indexes let the row in. -/
theorem put_registers {cleared : Table DeviceId TrustedDeviceRow}
    (hrefused : putDevice cleared device.id row = none → execAll AccountStmt.exec stmts db = none)
    (hstored : ∀ t, putDevice cleared device.id row = some t → ∃ db', execAll AccountStmt.exec stmts db = some db' ∧
      db'.trustedDevices = t ∧ db'.users = db.users)
    (hcurrent : currentEpoch db u epoch = true) (hu : row.userId = u) (hkey : row.publicKey = device.publicKey)
    (hfp : device.fingerprint.isSome = true → row.fingerprint = device.fingerprint) (hst : row.status = .pending) :
    RegistersDevice u device ((accountBatch stmts >>= fun _ => registeredDevice u device.id epoch).run db) ↔
      ∀ k r, cleared.get? k = some r → r.status.active = true → r.clashes row = true → k = device.id := by
  have hact : row.status.active = true := by
    rw [hst]
    rfl
  have hfree := @activeConflict_false row cleared device.id
  rw [batch_registered]
  cases hput : putDevice cleared device.id row with
  | none =>
    rw [hrefused hput]
    refine iff_of_false not_registers fun hall => ?_
    unfold putDevice at hput
    rw [hfree.mpr fun _ => hall] at hput
    exact nomatch hput
  | some t =>
    obtain ⟨db', hx, hdevices, husers⟩ := hstored t hput
    obtain ⟨hno, rfl⟩ := putDevice_eq_some.mp hput
    refine iff_of_true ?_ (hfree.mp hno hact)
    have hget : deviceOf u device.id db' = some row := by
      unfold deviceOf
      rw [hdevices, Table.get?_set, if_pos rfl]
      simp [hu]
    have hcurrent' : currentEpoch db' u epoch = true := by
      unfold currentEpoch at hcurrent ⊢
      rwa [husers]
    rw [hx]
    dsimp only
    rw [registeredDevice_run hcurrent' hget]
    refine .registered rfl hkey hfp hst (congrArg (Option.map _) hget) ?_
    rintro k r ⟨hr, hru, hsame⟩ hract
    rw [hdevices, Table.get?_set] at hr
    by_contra hne
    rw [if_neg hne] at hr
    exact hne (hfree.mp hno hact k r hr hract (clashes_of_same (hru.trans hu.symm) hkey hfp hsame))

theorem execAll_append_eq {qs rs : List AccountStmt} {s : Db} : execAll AccountStmt.exec (qs ++ rs) s =
    (execAll AccountStmt.exec qs s).bind (execAll AccountStmt.exec rs) := by
  induction qs generalizing s with
  | nil => rfl
  | cons q qs ih =>
    rw [List.cons_append, execAll, execAll]
    cases q.exec s with
    | none => rfl
    | some t => exact ih

theorem user_of_epoch (h : epochHolds db u epoch = true) : db.users.contains u = true := by
  cases huser : db.users.get? u with
  | none =>
    unfold epochHolds at h
    rw [huser] at h
    exact nomatch h
  | some user => exact Table.contains_eq_true.mpr ⟨user, huser⟩

/-! ## The three transactions -/

theorem replace_registers (hne : existingId ≠ device.id) (hepoch : epochHolds db u epoch = true) :
    RegistersDevice u device ((accountBatch (replaceDeviceStmts A u existingId device hash epoch) >>= fun _ =>
        registeredDevice u device.id epoch).run db) ↔
      db.trustedDevices.contains device.id = false ∧
        ∀ id row, Found db u device id row → row.status.active = true → id = existingId := by
  have huser := user_of_epoch hepoch
  have hcurrent : currentEpoch db u epoch = true := (currentEpoch_of_user huser).trans hepoch
  let new : TrustedDeviceRow := ⟨u, device.name, device.fingerprint, device.publicKey, .pending, some hash,
    device.createdAt, A.now "ts", device.lastSeenIp, device.lastSeenLocation⟩
  -- The three deletions cannot fail; the insertion decides.
  obtain ⟨m, hm, hmu, hmd⟩ : ∃ m, execAll AccountStmt.exec ((replaceDeviceStmts A u existingId device hash epoch).take 3)
      db = some m ∧ m.users = db.users ∧ m.trustedDevices =
        db.trustedDevices.deleteWhere fun k r => k = existingId && r.userId = u && epochHolds db u epoch :=
    ⟨_, rfl, rfl, rfl⟩
  have hx : execAll AccountStmt.exec (replaceDeviceStmts A u existingId device hash epoch) db =
      (insertDevice m device.id new).map (setDevices m) := by
    refine Eq.trans (@execAll_append_eq ((replaceDeviceStmts A u existingId device hash epoch).take 3)
      [.devices (.insertAtEpoch device.id new epoch)] db) ?_
    rw [hm]
    have hepoch' : epochHolds m u epoch = true := by
      unfold epochHolds at hepoch ⊢
      rwa [hmu]
    change ((AccountStmt.devices (.insertAtEpoch device.id new epoch)).exec m).bind some = _
    rw [Option.bind_fun_some]
    unfold AccountStmt.exec DeviceStmt.exec
    dsimp only
    rw [if_pos hepoch']
  have hget : ∀ k r, m.trustedDevices.get? k = some r ↔ db.trustedDevices.get? k = some r ∧
      ¬ (k = existingId ∧ r.userId = u) := by
    intro k r
    rw [hmd, Table.get?_deleteWhere, Option.filter_eq_some_iff]
    simp [hepoch, imp_iff_not_or]
  cases hid : db.trustedDevices.contains device.id with
  | true =>
    obtain ⟨r, hr⟩ := Table.contains_eq_true.mp hid
    have htaken : m.trustedDevices.contains device.id = true :=
      Table.contains_eq_true.mpr ⟨r, (hget _ _).mpr ⟨hr, fun h => hne h.1.symm⟩⟩
    have hnone : insertDevice m device.id new = none := by
      unfold insertDevice
      rw [htaken, Bool.not_true, Bool.and_false]
      rfl
    rw [batch_registered, hx, hnone]
    exact iff_of_false not_registers fun h => by cases h.1
  | false =>
    have hfree : m.trustedDevices.contains device.id = false := by
      rw [Table.contains_eq_false] at hid ⊢
      exact Option.eq_none_iff_forall_ne_some.mpr fun r hr =>
        absurd ((hget _ _).mp hr).1 (by rw [hid]; exact fun h => by cases h)
    have hinsert : insertDevice m device.id new = putDevice m.trustedDevices device.id new := by
      unfold insertDevice
      rw [hmu, hfree]
      change (if db.users.contains u && !false then _ else _) = _
      rw [huser]
      rfl
    rw [hinsert] at hx
    have hrefused : putDevice m.trustedDevices device.id new = none →
        execAll AccountStmt.exec (replaceDeviceStmts A u existingId device hash epoch) db = none := by
      intro hnone
      rw [hx, hnone]
      rfl
    refine (put_registers hrefused (fun t ht => ?_) hcurrent rfl rfl (fun _ => rfl) rfl).trans ?_
    · rw [hx, ht]
      exact ⟨_, rfl, rfl, hmu⟩
    constructor
    · rintro hall
      refine ⟨rfl, fun k r hr hact => ?_⟩
      by_contra hk
      have hstays : m.trustedDevices.get? k = some r := (hget k r).mpr ⟨hr.1, fun h => hk h.1⟩
      have hkid := hall k r hstays hact (clashes_of_same hr.2.1 rfl (fun _ => rfl) hr.2.2)
      have hgone := hr.1
      rw [hkid, Table.contains_eq_false.mp hid] at hgone
      cases hgone
    · rintro ⟨-, hall⟩ k r hr hact hclash
      obtain ⟨hr, hother⟩ := (hget k r).mp hr
      obtain ⟨hru, hsame⟩ := Bool.and_eq_true_iff.mp hclash
      have hru : r.userId = u := of_decide_eq_true hru
      exact absurd ⟨hall k r ⟨hr, hru, hsame⟩ hact, hru⟩ hother

theorem update_registers (hfound : Found db u device device.id existing) (hepoch : epochHolds db u epoch = true) :
    RegistersDevice u device ((accountBatch (updateDeviceStmts A u device.id device .pending (some hash) epoch true) >>=
        fun _ => registeredDevice u device.id epoch).run db) ↔
      (device.fingerprint = none → ∀ id row, db.trustedDevices.get? id = some row → row.userId = u →
        row.status.active = true → row.publicKey ≠ device.publicKey → row.fingerprint.isSome = true →
        row.fingerprint = existing.fingerprint → id = device.id) := by
  obtain ⟨hexisting, hu, -⟩ := hfound
  have hcurrent : currentEpoch db u epoch = true := (currentEpoch_of_user (user_of_epoch hepoch)).trans hepoch
  let new := existing.register device .pending (some hash) (A.now "ts")
  let stmts := updateDeviceStmts A u device.id device .pending (some hash) epoch true
  -- the deletion of duplicates cannot fail; the unique indexes decide about the update
  obtain ⟨m, hm, hmu, hmd⟩ : ∃ m, execAll AccountStmt.exec (stmts.take 1) db = some m ∧ m.users = db.users ∧
      m.trustedDevices = db.trustedDevices.deleteWhere fun k r =>
        r.userId = u && k ≠ device.id && sameDevice device.publicKey device.fingerprint r && epochHolds db u epoch :=
    ⟨_, rfl, rfl, rfl⟩
  have hget : ∀ k r, m.trustedDevices.get? k = some r ↔ db.trustedDevices.get? k = some r ∧
      (r.userId = u → k ≠ device.id → sameDevice device.publicKey device.fingerprint r = false) := by
    intro k r
    rw [hmd, Table.get?_deleteWhere, Option.filter_eq_some_iff]
    simp [hepoch, imp_iff_not_or, or_assoc]
  have hrow : m.trustedDevices.get? device.id = some existing := (hget _ _).mpr ⟨hexisting, fun _ hne => absurd rfl hne⟩
  have hepoch' : epochHolds m u epoch = true := by
    unfold epochHolds at hepoch ⊢
    rwa [hmu]
  have hx : execAll AccountStmt.exec stmts db =
      ((putDevice m.trustedDevices device.id new).map (setDevices m)).bind (execAll AccountStmt.exec (stmts.drop 2)) := by
    refine Eq.trans (@execAll_append_eq (stmts.take 1) (stmts.drop 1) db) ?_
    have hupdate : DeviceStmt.exec m (.update u device.id device .pending (some hash) epoch (A.now "ts")) =
        putDevice m.trustedDevices device.id new := by
      unfold DeviceStmt.exec
      dsimp only
      rw [hrow]
      dsimp only
      rw [if_pos ⟨hu, hepoch'⟩]
    rw [hm, ← hupdate]
    rfl
  have hrefused : putDevice m.trustedDevices device.id new = none → execAll AccountStmt.exec stmts db = none := by
    intro hnone
    rw [hx, hnone]
    rfl
  refine (put_registers hrefused (fun t ht => ?_) hcurrent hu rfl (fun hsome => ?_) rfl).trans ?_
  · rw [hx, ht]
    exact ⟨_, rfl, rfl, hmu⟩
  · obtain ⟨fp, hfp⟩ := Option.isSome_iff_exists.mp hsome
    change (device.fingerprint <|> existing.fingerprint) = _
    rw [hfp]
    rfl
  constructor
  · intro hall hnofp k r hr hru hact hkey hsome hfp
    by_contra hne
    have hsame : sameDevice device.publicKey device.fingerprint r = false := by
      unfold sameDevice
      rw [hnofp]
      obtain ⟨fp, hrfp⟩ := Option.isSome_iff_exists.mp hsome
      simp [hkey, hrfp]
    refine hne (hall k r ((hget k r).mpr ⟨hr, fun _ _ => hsame⟩) hact (clashes_iff.mpr ⟨hru.trans hu.symm, .inr ⟨hsome, ?_⟩⟩))
    change _ = (device.fingerprint <|> existing.fingerprint)
    rw [hnofp, hfp]
    rfl
  · intro hfree k r hr hact hclash
    obtain ⟨hr, hdiff⟩ := (hget k r).mp hr
    obtain ⟨hru, hsame⟩ := clashes_iff.mp hclash
    have hru : r.userId = u := hru.trans hu
    by_contra hne
    have hother := hdiff hru hne
    unfold sameDevice at hother
    rw [Bool.or_eq_false_iff, decide_eq_false_iff_not] at hother
    rcases hsame with hkey | ⟨hsome, hfp⟩
    · exact hother.1 hkey
    · change _ = (device.fingerprint <|> existing.fingerprint) at hfp
      cases hgiven : device.fingerprint with
      | some fp =>
        rw [hgiven] at hfp hother
        have hrfp : r.fingerprint = some fp := hfp
        rw [hrfp] at hother
        simp at hother
      | none =>
        rw [hgiven] at hfp
        exact hne (hfree hgiven k r hr hru hact hother.1 hsome hfp)

theorem insert_registers (hnone : existingDevice u device db = none) (hepoch : epochHolds db u epoch = true) :
    RegistersDevice u device ((do
        let changes ← runStmt (insertDeviceStmt u device (some hash) epoch)
        if changes ≠ 1 then TryProg.throw .authEpochChanged
        else
          assertExpectedEpoch u epoch
          pure device : AccountProg TrustedDevice).run db) ↔
      db.trustedDevices.contains device.id = false ∧ device.status = .pending := by
  have huser := user_of_epoch hepoch
  have hcurrent : currentEpoch db u epoch = true := (currentEpoch_of_user huser).trans hepoch
  let new : TrustedDeviceRow := ⟨u, device.name, device.fingerprint, device.publicKey, device.status, some hash,
    device.createdAt, device.updatedAt, device.lastSeenIp, device.lastSeenLocation⟩
  have hfree : activeConflict db.trustedDevices device.id new = false := by
    refine activeConflict_false.mpr fun _ k r hr _ hclash => ?_
    obtain ⟨hru, hsame⟩ := Bool.and_eq_true_iff.mp hclash
    exact absurd ⟨hr, of_decide_eq_true hru, hsame⟩ (none_found hnone)
  have hexec : (insertDeviceStmt u device (some hash) epoch).exec db =
      if db.trustedDevices.contains device.id then none
      else some (setDevices db (db.trustedDevices.set device.id new)) := by
    change (DeviceStmt.exec db (.insertAtEpoch device.id new epoch)).map (setDevices db) = _
    unfold DeviceStmt.exec insertDevice putDevice
    dsimp only
    rw [if_pos hepoch, hfree, huser]
    cases db.trustedDevices.contains device.id <;> rfl
  have hchanges : (insertDeviceStmt u device (some hash) epoch).changes db = 1 := if_pos hepoch
  rw [TryProg.run_bind, runStmt_run, hexec, hchanges]
  cases hid : db.trustedDevices.contains device.id with
  | true => exact iff_of_false not_registers fun h => nomatch h.1
  | false =>
    have hcurrent' : currentEpoch (setDevices db (db.trustedDevices.set device.id new)) u epoch = true := hcurrent
    simp only [Bool.false_eq_true, if_false, ne_eq, not_true_eq_false]
    rw [TryProg.run_bind, assertExpectedEpoch_run, if_pos hcurrent']
    constructor
    · rintro (⟨-, -, -, hst, -, -⟩ | _)
      exact ⟨trivial, hst⟩
    · rintro ⟨-, hst⟩
      refine .registered rfl rfl (fun _ => rfl) hst ?_ ?_
      · change (((db.trustedDevices.set device.id new).get? device.id).filter _).map _ = _
        rw [Table.get?_set, if_pos rfl]
        simp [new, rowToDevice]
      · rintro k r ⟨hr, hfound⟩ -
        by_contra hne
        change (db.trustedDevices.set device.id new).get? k = some r at hr
        rw [Table.get?_set, if_neg hne] at hr
        exact none_found hnone ⟨hr, hfound⟩

end

section
variable {F : Formats} {K : Crypto} {w : Worker} {h : WorkerHistory} {ps : WorkerProcs} {A : Ambient} {db : Db}
  {u : UserId} {device : TrustedDevice} {hash : String} {epoch : Option Nat}

theorem registry_registers (hs : DeviceRegistry db) (hid : ∀ row, db.trustedDevices.get? device.id = some row → row.userId = u) :
    RegistersDevice u device ((registerDevice A u device (some hash) epoch).run db) ↔ Registrable u device epoch db := by
  unfold registerDevice getDeviceOwnerUserId read
  rw [TryProg.run_bind, assertExpectedEpoch_run]
  -- under a stale epoch the answer is that the epoch has changed
  cases hcurrent : currentEpoch db u epoch with
  | false =>
    refine iff_of_true .epochChanged ⟨fun hepoch => ?_⟩
    rw [currentEpoch_of_user (user_of_epoch hepoch), hepoch] at hcurrent
    cases hcurrent
  | true =>
    have howner : ((db.trustedDevices.get? device.id).map (·.userId)).any (· ≠ u) = false := by
      cases hrow : db.trustedDevices.get? device.id with
      | none => rfl
      | some row => simp [hid row hrow]
    rw [if_pos rfl]
    dsimp only
    rw [TryProg.run_read_bind, howner]
    simp only [Bool.false_eq_true, if_false]
    rw [TryProg.run_read_bind]
    refine Iff.trans ?_ (⟨.mk, fun hregistrable => hregistrable.free⟩ : _ ↔ Registrable u device epoch db)
    cases hepoch : epochHolds db u epoch with
    | true =>
      refine Iff.trans ?_ (forall_prop_of_true rfl).symm
      cases hexisting : existingDevice u device db with
      | none => exact insert_registers hexisting hepoch
      | some found =>
        obtain ⟨existingId, existing⟩ := found
        have hfound := existing_found hexisting
        simp only [Option.isSome_some, Bool.true_and, Bool.true_or, Option.getD_some, if_true, decide_eq_true_eq]
        by_cases hsame : existingId = device.id
        · subst hsame
          rw [if_neg (not_not.mpr rfl), if_pos rfl]
          exact update_registers hfound hepoch
        · rw [if_pos hsame, if_neg hsame]
          exact replace_registers hsame hepoch
    | false =>
      have huser : db.users.contains u = false := by
        rw [Bool.eq_false_iff]
        intro huser
        rw [currentEpoch_of_user huser, hepoch] at hcurrent
        cases hcurrent
      have hexisting : existingDevice u device db = none := by
        cases hexisting : existingDevice u device db with
        | none => rfl
        | some found =>
          obtain ⟨hget, hu, -⟩ := existing_found hexisting
          rw [← hu, hs.owner _ _ hget] at huser
          cases huser
      rw [hexisting]
      refine iff_of_true ?_ fun h => by cases h
      dsimp only
      have hexec : (insertDeviceStmt u device (some hash) epoch).exec db = some (setDevices db db.trustedDevices) := by
        change (DeviceStmt.exec db (.insertAtEpoch _ _ _)).map _ = _
        unfold DeviceStmt.exec
        dsimp only
        rw [if_neg (by rw [hepoch]; exact Bool.false_ne_true)]
        rfl
      have hchanges : (insertDeviceStmt u device (some hash) epoch).changes db = 0 :=
        if_neg (by rw [hepoch]; exact Bool.false_ne_true)
      rw [TryProg.run_bind, runStmt_run, hexec, hchanges]
      exact .epochChanged

/-- A native registration of a device that is new or the caller's own succeeds, alone, exactly when no row but the one
that it replaces is in its way. -/
theorem registerDevice_registers (hr : Reach (WorkerCall.code F K) (fun _ => True) {} h w ps)
    (hid : ∀ row, w.db.trustedDevices.get? device.id = some row → row.userId = u) :
    RegistersDevice u device ((registerDevice A u device (some hash) epoch).run w.db) ↔
      Registrable u device epoch w.db :=
  registry_registers (reach_registry hr) hid

end

/-! ## Two devices of one account -/

def twoDevices : Play WorkerCall Worker WorkerAccess (Except WorkerError WorkerResult) :=
  play (WorkerCall.code plainFormats plainCrypto) {}
    ([.issue (.account (.registerStart (registrantAmbient "1") "a@example.org" (plainText 16))), .step 0, .step 0,
      .issue (.account (.mobileRegisterFinish (registrantAmbient "1") ⟨none, none⟩
        (registrationOf "1" "a@example.org")))] ++ List.replicate 6 (.step 1) ++
      [.issue (.account (.postDevices (registrantAmbient "2") ⟨registrant "1", .bearer⟩ ⟨none, none⟩
        ⟨"tablet", some "fingerprint-2", plainText 42 ++ "E"⟩))] ++ List.replicate 6 (.step 2))

theorem twoDevices_reach : Reach (WorkerCall.code plainFormats plainCrypto) (fun _ => True) {} twoDevices.1
    twoDevices.2.1 twoDevices.2.2 := by
  unfold twoDevices
  exact play_reach fun _ _ => trivial

def newDevice (publicKey : String) : TrustedDevice :=
  ⟨registrant "3", "phone", some "fingerprint-2", publicKey, .pending, 1000, 1000, none, none⟩

theorem registrable_of_sole {db : Db} {u : UserId} {device : TrustedDevice} {epoch : Option Nat} {existingId : DeviceId}
    (hexisting : (existingDevice u device db).map (·.1) = some existingId) (hne : existingId ≠ device.id)
    (hfree : db.trustedDevices.contains device.id = false)
    (hsole : db.trustedDevices.rows.all (fun r =>
      !sameDevice device.publicKey device.fingerprint r.2 || r.1 = existingId) = true) :
    Registrable u device epoch db := by
  refine ⟨fun _ => ?_⟩
  obtain ⟨⟨id, existing⟩, hfound, rfl⟩ := Option.map_eq_some_iff.mp hexisting
  rw [hfound]
  dsimp only
  rw [if_neg hne]
  refine ⟨hfree, fun k row hrow _ => ?_⟩
  have hall := List.all_eq_true.mp hsole _ (Table.mem_rows.mpr hrow.1)
  dsimp only at hall
  rw [hrow.2.2] at hall
  exact of_decide_eq_true hall

def signIn (publicKey : String) : Db × Except AccountError TrustedDevice :=
  (registerDevice plainAmbient (registrant "1") (newDevice publicKey) (some "hash") (some 0)).run twoDevices.2.1.db

theorem twoDevices_ran : twoDevices.2.1.db.trustedDevices.get? (registrant "3") = none ∧
    (existingDevice (registrant "1") (newDevice (plainText 42 ++ "E")) twoDevices.2.1.db).map (·.1) =
      some (registrant "2") ∧
    twoDevices.2.1.db.trustedDevices.rows.all (fun r =>
      !sameDevice (plainText 42 ++ "E") (some "fingerprint-2") r.2 || r.1 = registrant "2") = true ∧
    (signIn (plainText 43)).2 = .error .databaseError := by
  decide +kernel

/-- The tablet signs in anew, under a new id. -/
theorem registerDevice_registers_reinstall :
    RegistersDevice (registrant "1") (newDevice (plainText 42 ++ "E")) (signIn (plainText 42 ++ "E")) := by
  obtain ⟨hunused, hexisting, hsole, -⟩ := twoDevices_ran
  have hid : ∀ row, twoDevices.2.1.db.trustedDevices.get? (newDevice (plainText 42 ++ "E")).id = some row →
      row.userId = registrant "1" := fun row h => nomatch hunused.symm.trans h
  have hregistrable : Registrable (registrant "1") (newDevice (plainText 42 ++ "E")) (some 0) twoDevices.2.1.db :=
    registrable_of_sole hexisting (by decide) (Table.contains_eq_false.mpr hunused) hsole
  have hiff := @registerDevice_registers plainFormats plainCrypto twoDevices.2.1 twoDevices.1 twoDevices.2.2 plainAmbient
    (registrant "1") (newDevice (plainText 42 ++ "E")) "hash" (some 0) twoDevices_reach hid
  exact hiff.mpr hregistrable

/-- The device signs in with the phone's key and the tablet's fingerprint: the tablet's row is deleted, the phone's is in
the way. -/
theorem registerDevice_aborts : Reach (WorkerCall.code plainFormats plainCrypto) (fun _ => True) {} twoDevices.1
      twoDevices.2.1 twoDevices.2.2 ∧ twoDevices.2.1.db.trustedDevices.get? (newDevice (plainText 43)).id = none ∧
    (signIn (plainText 43)).2 = .error .databaseError ∧
    ¬ RegistersDevice (registrant "1") (newDevice (plainText 43)) (signIn (plainText 43)) := by
  obtain ⟨hunused, -, -, herror⟩ := twoDevices_ran
  refine ⟨twoDevices_reach, hunused, herror, ?_⟩
  generalize signIn (plainText 43) = outcome at herror
  rintro (_ | _)
  · exact nomatch herror
  · exact nomatch herror

end ZeroVault

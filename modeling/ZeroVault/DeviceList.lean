import ZeroVault.ActiveDevices
import ZeroVault.OneAccountPerEmail
import ZeroVault.Representatives

/-!
# The device list

The list shows one device for each fingerprint, and one for each name and minute
of creation among the devices without a fingerprint. It shows every approved
device exactly when no two approved devices are taken for one of the latter
(`listDevices_shows`).
-/

namespace ZeroVault

open Lib

/-- An empty fingerprint is none. -/
def TrustedDevice.shownFingerprint (d : TrustedDevice) : Option String := d.fingerprint.filter (· ≠ "")

def devicesIn (u : UserId) (db : Db) : List TrustedDevice :=
  (db.trustedDevices.select fun _ d => d.userId = u).map fun r => rowToDevice r.1 r.2

section
variable {u : UserId} {db : Db} {d e : TrustedDevice} {id : DeviceId} {row : TrustedDeviceRow}

theorem deviceOf_iff : deviceOf u id db = some row ↔ db.trustedDevices.get? id = some row ∧ row.userId = u := by
  unfold deviceOf
  rw [Option.filter_eq_some_iff, decide_eq_true_eq]

theorem mem_devicesIn : d ∈ devicesIn u db ↔ ∃ id row, deviceOf u id db = some row ∧ d = rowToDevice id row := by
  unfold devicesIn
  rw [List.mem_map]
  constructor
  · rintro ⟨⟨id, row⟩, hmem, rfl⟩
    obtain ⟨hget, hu⟩ := Table.mem_select.mp hmem
    exact ⟨id, row, deviceOf_iff.mpr ⟨hget, of_decide_eq_true hu⟩, rfl⟩
  · rintro ⟨id, row, hrow, rfl⟩
    obtain ⟨hget, hu⟩ := deviceOf_iff.mp hrow
    exact ⟨(id, row), Table.mem_select.mpr ⟨hget, decide_eq_true hu⟩, rfl⟩

theorem eq_of_id (hd : d ∈ devicesIn u db) (he : e ∈ devicesIn u db) (h : d.id = e.id) : d = e := by
  obtain ⟨i, r, hr, rfl⟩ := mem_devicesIn.mp hd
  obtain ⟨j, s, hs, rfl⟩ := mem_devicesIn.mp he
  obtain rfl : i = j := h
  cases hr.symm.trans hs
  rfl

theorem dedupeKey_eq : d.dedupeKey = match d.shownFingerprint with
    | some f => .fp f
    | none => .legacy d.name (d.createdAt / 60000) := by
  unfold TrustedDevice.dedupeKey TrustedDevice.shownFingerprint
  cases d.fingerprint with
  | none => rfl
  | some f => by_cases hf : f = "" <;> simp [Option.filter, hf]

theorem shown_of_key (h : d.dedupeKey = e.dedupeKey) : d.shownFingerprint = e.shownFingerprint := by
  rw [dedupeKey_eq, dedupeKey_eq] at h
  cases hd : d.shownFingerprint with
  | none =>
    cases he : e.shownFingerprint with
    | none => rfl
    | some g =>
      rw [hd, he] at h
      exact nomatch h
  | some f =>
    cases he : e.shownFingerprint with
    | none =>
      rw [hd, he] at h
      exact nomatch h
    | some g =>
      rw [hd, he] at h
      rw [DedupeKey.fp.inj h]

theorem key_of_shown (h : d.shownFingerprint = e.shownFingerprint) (hsome : d.shownFingerprint.isSome = true) :
    d.dedupeKey = e.dedupeKey := by
  rw [dedupeKey_eq, dedupeKey_eq, ← h]
  obtain ⟨f, hf⟩ := Option.isSome_iff_exists.mp hsome
  rw [hf]

theorem key_of_legacy (hd : d.shownFingerprint = none) (he : e.shownFingerprint = none) :
    d.dedupeKey = e.dedupeKey ↔ d.name = e.name ∧ d.createdAt / 60000 = e.createdAt / 60000 := by
  rw [dedupeKey_eq, dedupeKey_eq, hd, he]
  exact ⟨fun h => DedupeKey.legacy.inj h, fun h => by rw [h.1, h.2]⟩

/-! ## What the list shows -/

def shownDevices (u : UserId) (db : Db) : Table DedupeKey TrustedDevice := (devicesIn u db).foldl dedupe ∅

theorem dedupe_eq : dedupe = represent TrustedDevice.dedupeKey TrustedDevice.supersedes := by
  funext t d
  unfold dedupe represent
  cases t.get? d.dedupeKey <;> rfl

theorem supersedes_rank (d e : TrustedDevice) :
    (d.supersedes e = true → d.status.rank ≤ e.status.rank) ∧ (d.supersedes e = false → e.status.rank ≤ d.status.rank) := by
  unfold TrustedDevice.supersedes
  simp only [Bool.or_eq_true, Bool.and_eq_true, decide_eq_true_eq, Bool.or_eq_false_iff, decide_eq_false_iff_not]
  omega

theorem shown_represented : Represented TrustedDevice.dedupeKey (·.status.rank) (· ∈ devicesIn u db) (shownDevices u db) := by
  unfold shownDevices
  rw [dedupe_eq]
  exact represented_list (fun d e => (supersedes_rank d e).1) (fun d e => (supersedes_rank d e).2) _

theorem mem_devicesOf : d ∈ devicesOf u db ↔ (shownDevices u db).get? d.dedupeKey = some d := by
  change d ∈ ((shownDevices u db).rows).map Prod.snd ↔ _
  rw [List.mem_map]
  constructor
  · rintro ⟨⟨k, d⟩, hmem, rfl⟩
    have hget := Table.mem_rows.mp hmem
    rwa [(shown_represented.mem k d hget).2]
  · exact fun hget => ⟨_, Table.mem_rows.mpr hget, rfl⟩

theorem listed_mem (h : d ∈ devicesOf u db) : d ∈ devicesIn u db := (shown_represented.mem _ _ (mem_devicesOf.mp h)).1

theorem listed_unique (hd : d ∈ devicesOf u db) (he : e ∈ devicesOf u db) (h : d.dedupeKey = e.dedupeKey) : d = e := by
  rw [mem_devicesOf] at hd he
  rw [h] at hd
  exact Option.some.inj (hd.symm.trans he)

theorem represented_by (hd : d ∈ devicesIn u db) :
    ∃ e ∈ devicesOf u db, e.dedupeKey = d.dedupeKey ∧ e.status.rank ≤ d.status.rank := by
  obtain ⟨e, he, hrank⟩ := shown_represented.best d hd
  have hkey := (shown_represented.mem _ _ he).2
  exact ⟨e, mem_devicesOf.mpr (hkey.symm ▸ he), hkey, hrank⟩

theorem find_listed (hd : d ∈ devicesOf u db) (hid : d.id = id) : (devicesOf u db).find? (·.id = id) = some d := by
  cases hfind : (devicesOf u db).find? (·.id = id) with
  | none => exact absurd hid (of_decide_eq_false (by simpa using List.find?_eq_none.mp hfind d hd))
  | some e =>
    have heid := List.find?_some hfind
    have hmem := List.mem_of_find?_eq_some hfind
    rw [eq_of_id (listed_mem hmem) (listed_mem hd) ((of_decide_eq_true heid).trans hid.symm)]

end

/-! ## Every approved device -/

/-- The lookup of the key routes finds every approved device, no fingerprint is listed twice, and a device is listed or
represented by one of its fingerprint and at least its rank. -/
structure ShowsDevices (u : UserId) (db : Db) : Prop where
  approved : ∀ id row, deviceOf u id db = some row → row.status = .approved →
    (devicesOf u db).find? (·.id = id) = some (rowToDevice id row)
  distinct : (devicesOf u db).Pairwise fun d e => d.shownFingerprint.isSome = true → d.shownFingerprint ≠ e.shownFingerprint
  represented : ∀ id row, deviceOf u id db = some row → ∃ d ∈ devicesOf u db,
    d.shownFingerprint = (rowToDevice id row).shownFingerprint ∧ d.status.rank ≤ row.status.rank

/-- No two approved devices without a fingerprint have one name and one minute of creation. -/
def ToldApart (u : UserId) (db : Db) : Prop :=
  ∀ i j r s, deviceOf u i db = some r → deviceOf u j db = some s → r.status = .approved → s.status = .approved →
    (rowToDevice i r).shownFingerprint = none → (rowToDevice j s).shownFingerprint = none → r.name = s.name →
    r.createdAt / 60000 = s.createdAt / 60000 → i = j

section
variable {u : UserId} {db : Db}

theorem distinct_listed :
    (devicesOf u db).Pairwise fun d e => d.shownFingerprint.isSome = true → d.shownFingerprint ≠ e.shownFingerprint := by
  have hkeys := List.pairwise_map.mp (shownDevices u db).nodup
  refine List.pairwise_map.mpr (List.Pairwise.imp_of_mem ?_ hkeys)
  rintro ⟨k, d⟩ ⟨k', e⟩ hd he hne hsome hsame
  refine hne ?_
  change k = k'
  rw [← (shown_represented.mem k d (Table.mem_rows.mp hd)).2, ← (shown_represented.mem k' e (Table.mem_rows.mp he)).2]
  exact key_of_shown hsame hsome

theorem approved_of_rank {status : DeviceStatus} (h : status.rank ≤ DeviceStatus.rank .approved) : status = .approved := by
  cases status <;> first | rfl | exact absurd h (by decide)

theorem approved_listed (hs : DeviceRegistry db) (hapart : ToldApart u db) {id : DeviceId} {row : TrustedDeviceRow}
    (hrow : deviceOf u id db = some row) (happroved : row.status = .approved) : rowToDevice id row ∈ devicesOf u db := by
  obtain ⟨e, he, hkey, hrank⟩ := represented_by (mem_devicesIn.mpr ⟨id, row, hrow, rfl⟩)
  obtain ⟨j, s, hs', rfl⟩ := mem_devicesIn.mp (listed_mem he)
  have hsapproved : s.status = .approved := approved_of_rank (happroved ▸ hrank)
  suffices hj : j = id by
    subst hj
    cases hrow.symm.trans hs'
    exact he
  have hshown := shown_of_key hkey
  cases hfp : (rowToDevice id row).shownFingerprint with
  | none =>
    rw [hfp] at hshown
    obtain ⟨hname, hminute⟩ := (key_of_legacy hshown hfp).mp hkey
    exact hapart j id s row hs' hrow hsapproved happroved hshown hfp hname hminute
  | some f =>
    rw [hfp] at hshown
    obtain ⟨hsget, hsu⟩ := deviceOf_iff.mp hs'
    obtain ⟨hrget, hru⟩ := deviceOf_iff.mp hrow
    have hsf : s.fingerprint = some f := (Option.filter_eq_some_iff.mp hshown).1
    have hrf : row.fingerprint = some f := (Option.filter_eq_some_iff.mp hfp).1
    refine hs.unique j id s row hsget hrget (clashes_iff.mpr ⟨hsu.trans hru.symm, .inr ⟨?_, hsf.trans hrf.symm⟩⟩) ?_ ?_
    · rw [hsf]
      rfl
    · rw [hsapproved]
      rfl
    · rw [happroved]
      rfl

theorem registry_shows (hs : DeviceRegistry db) : ShowsDevices u db ↔ ToldApart u db := by
  constructor
  · intro hshows i j r s hr hs' hra hsa hrf hsf hname hminute
    have hi := List.mem_of_find?_eq_some (hshows.approved i r hr hra)
    have hj := List.mem_of_find?_eq_some (hshows.approved j s hs' hsa)
    exact congrArg TrustedDevice.id (listed_unique hi hj ((key_of_legacy hrf hsf).mpr ⟨hname, hminute⟩))
  · intro hapart
    refine ⟨fun id row hrow happroved => find_listed (approved_listed hs hapart hrow happroved) rfl, distinct_listed,
      fun id row hrow => ?_⟩
    obtain ⟨e, he, hkey, hrank⟩ := represented_by (mem_devicesIn.mpr ⟨id, row, hrow, rfl⟩)
    exact ⟨e, he, shown_of_key hkey, hrank⟩

variable {F : Formats} {K : Crypto} {w : Worker} {h : WorkerHistory} {ps : WorkerProcs}

/-- In a store that the Worker reaches, the list of a user shows every approved device exactly when no two of them are
taken for one. -/
theorem listDevices_shows (hr : Reach (WorkerCall.code F K) (fun _ => True) {} h w ps) :
    ShowsDevices u w.db ↔ ToldApart u w.db :=
  registry_shows (reach_registry hr)

end

/-! ## Two browsers of one minute -/

def browserKey (last : String) : String := plainText 42 ++ last

/-- The calls `p` and `p + 1` register a browser from the phone's session and approve it. -/
def browser (p : Nat) (digit last name : String) : List (Move WorkerCall) :=
  [.issue (.account (.postDevices (registrantAmbient digit) ⟨registrant "1", .bearer⟩ ⟨none, none⟩
      ⟨name, none, browserKey last⟩)),
    .issue (.account (.approve (registrantAmbient digit) ⟨registrant "1", .bearer⟩ (registrant digit)
      (.packet (sampleVaultKeyPacket (registrant digit) (browserKey last)))))] ++
    List.replicate 6 (.step p) ++ List.replicate 7 (.step (p + 1))

/-- A phone's account with two browsers; the last call shares the key with the second one again. -/
def twoBrowsers (second : String) : Play WorkerCall Worker WorkerAccess (Except WorkerError WorkerResult) :=
  play (WorkerCall.code plainFormats plainCrypto) {}
    ([.issue (.account (.registerStart (registrantAmbient "1") "a@example.org" (plainText 16))), .step 0, .step 0,
      .issue (.account (.mobileRegisterFinish (registrantAmbient "1") ⟨none, none⟩
        (registrationOf "1" "a@example.org")))] ++ List.replicate 6 (.step 1) ++ browser 2 "2" "E" "browser" ++
      browser 4 "3" "I" second ++
      [.issue (.account (.shareKey (registrantAmbient "1") ⟨registrant "1", .bearer⟩ (registrant "3")
        (.packet (sampleVaultKeyPacket (registrant "3") (browserKey "I")))))] ++ List.replicate 5 (.step 6))

theorem twoBrowsers_reach (second : String) : Reach (WorkerCall.code plainFormats plainCrypto) (fun _ => True) {}
    (twoBrowsers second).1 (twoBrowsers second).2.1 (twoBrowsers second).2.2 := by
  unfold twoBrowsers
  exact play_reach fun _ _ => trivial

/-- No two rows have one name and one minute of creation. -/
theorem toldApart_of_rows {u : UserId} {db : Db}
    (h : db.trustedDevices.rows.all (fun r => db.trustedDevices.rows.all fun s =>
      r.1 = s.1 || r.2.name ≠ s.2.name || r.2.createdAt / 60000 ≠ s.2.createdAt / 60000) = true) : ToldApart u db := by
  intro i j r s hr hs _ _ _ _ hname hminute
  have hrow := List.all_eq_true.mp h _ (Table.mem_rows.mpr (deviceOf_iff.mp hr).1)
  have hpair := List.all_eq_true.mp hrow _ (Table.mem_rows.mpr (deviceOf_iff.mp hs).1)
  simpa [hname, hminute] using hpair

/-- Has the call answered `device_not_found`? -/
def notFound (p : Proc WorkerCall Worker WorkerAccess (Except WorkerError WorkerResult)) : Bool :=
  match p.prog with
  | .ret (.error (.account .deviceNotFound)) => true
  | _ => false

theorem listDevices_shows_laptop : ShowsDevices (registrant "1") (twoBrowsers "laptop").2.1.db := by
  have hrows : (twoBrowsers "laptop").2.1.db.trustedDevices.rows.all (fun r =>
      (twoBrowsers "laptop").2.1.db.trustedDevices.rows.all fun s =>
        r.1 = s.1 || r.2.name ≠ s.2.name || r.2.createdAt / 60000 ≠ s.2.createdAt / 60000) = true := by decide +kernel
  exact (listDevices_shows (twoBrowsers_reach "laptop")).mpr (toldApart_of_rows hrows)

/-- Both browsers are approved; the list hides the second one, and the sharing of its key ends in `device_not_found`. -/
theorem approved_hidden : Reach (WorkerCall.code plainFormats plainCrypto) (fun _ => True) {} (twoBrowsers "browser").1
      (twoBrowsers "browser").2.1 (twoBrowsers "browser").2.2 ∧
    (deviceOf (registrant "1") (registrant "3") (twoBrowsers "browser").2.1.db).map (·.status) = some .approved ∧
    (twoBrowsers "browser").2.2.getLast?.map notFound = some true ∧
    ¬ ShowsDevices (registrant "1") (twoBrowsers "browser").2.1.db := by
  have hran : (deviceOf (registrant "1") (registrant "3") (twoBrowsers "browser").2.1.db).map (·.status) =
      some .approved ∧ (twoBrowsers "browser").2.2.getLast?.map notFound = some true ∧
      (devicesOf (registrant "1") (twoBrowsers "browser").2.1.db).find? (·.id = registrant "3") = none := by
    decide +kernel
  refine ⟨twoBrowsers_reach _, hran.1, hran.2.1, fun hshows => ?_⟩
  obtain ⟨row, hrow, happroved⟩ := Option.map_eq_some_iff.mp hran.1
  have hlisted := hshows.approved _ row hrow happroved
  rw [hran.2.2] at hlisted
  exact nomatch hlisted

end ZeroVault

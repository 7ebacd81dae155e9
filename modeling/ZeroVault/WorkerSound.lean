import ZeroVault.AccountStoreSound
import ZeroVault.SyncStoreSound
import ZeroVault.Worker

/-!
# What the Worker's calls do

`WorkerCall.sat`: every access of a call is one that its code may make, and a
deletion that answers has listed, deleted and dropped what its account had.
-/

namespace ZeroVault

open Lib

abbrev WorkerStep := Step Worker WorkerAccess
abbrev WorkerTrace := List WorkerStep

/-- Sessions are bound to the device they are made for, or to none. -/
structure BoundSessions (stmts : List AccountStmt) : Prop where
  plain : ∀ id row, .sessions (.insertAtEpoch id row) ∈ stmts → row.deviceId = none
  device : ∀ id d row, .sessions (.insertForDevice id d row) ∈ stmts → row.deviceId = some d

structure Careful (tr : AccountTrace) (stmts : List AccountStmt) : Prop where
  bound : BoundSessions stmts
  read : WritesRead tr stmts

def WorkerCall.Writes (K : Crypto) (c : WorkerCall) (tr : AccountTrace) (stmts : List AccountStmt) : Prop :=
  match c with
  | account d => Transacts K d tr stmts ∧ Careful tr stmts
  | createExport .. | deleteExport .. | deleteAccount .. => ∃ t, stmts = [.sessions (.deleteByToken t)]
  | sync _ | cleanupExpiredSessions _ => False

def WorkerCall.Maintains (c : WorkerCall) (stmts : List MaintenanceStmt) : Prop :=
  match c with
  | deleteAccount .. => ∃ u, stmts = [.deleteUser u]
  | cleanupExpiredSessions now => ∃ table, stmts = [.deleteExpired table now]
  | _ => False

/-- What an access of a call may do, by its label. -/
def WorkerCall.guar (K : Crypto) (c : WorkerCall) (tr' : WorkerTrace) (e : WorkerStep) : Prop :=
  match e.label with
  | .account l =>
    (∃ tr, List.Forall₂ (Embeds (dbPart .account)) tr tr' ∧
      Guar AccountStmt.exec (c.Writes K) tr ⟨l, e.before.db, e.after.db⟩) ∧ e.after.bucket = e.before.bucket
  | .sync l => (∃ d tr, c = .sync d ∧ d.guar tr ⟨l, e.before.db, e.after.db⟩) ∧ e.after.bucket = e.before.bucket
  | .maintenance l =>
    (∃ tr, Guar MaintenanceStmt.exec (fun _ stmts => c.Maintains stmts) tr ⟨l, e.before.db, e.after.db⟩) ∧
      e.after.bucket = e.before.bucket
  | .list .. | .get _ => e.after = e.before
  | .put key => e.after.db = e.before.db ∧ (e.after.bucket = e.before.bucket ∨
      e.before.bucket.get? key = none ∧ ∃ object, e.after.bucket = e.before.bucket.set key object)
  | .delete key => e.after.db = e.before.db ∧ e.after.bucket = e.before.bucket.erase key

/-- The accesses that may leave everything as it was. -/
def WorkerAccess.idle : WorkerAccess → Bool
  | account (.commit _) | sync (.commit _) | maintenance (.commit _) | delete _ => false
  | _ => true

inductive WorkerEffect (K : Crypto) (c : WorkerCall) (tr : WorkerTrace) : WorkerStep → Prop
  | account {b : Worker} {db : Db} {tr0 : AccountTrace} {stmts : List AccountStmt} :
      List.Forall₂ (Embeds (dbPart .account)) tr0 tr → execAll AccountStmt.exec stmts b.db = some db →
      c.Writes K tr0 stmts → WorkerEffect K c tr ⟨.account (.commit stmts), b, { b with db := db }⟩
  | sync {b : Worker} {db : Db} {d : SyncCall} {tr0 : List SyncStep} {stmts : List SyncStmt} : c = .sync d →
      execBatch stmts b.db = some db → d.guar tr0 ⟨.commit stmts, b.db, db⟩ →
      WorkerEffect K c tr ⟨.sync (.commit stmts), b, { b with db := db }⟩
  | maintenance {b : Worker} {db : Db} {q : MaintenanceStmt} : q.exec b.db = some db → c.Maintains [q] →
      WorkerEffect K c tr ⟨.maintenance (.commit [q]), b, { b with db := db }⟩
  | put {b : Worker} {key : String} {object : R2Object} : b.bucket.get? key = none →
      WorkerEffect K c tr ⟨.put key, b, { b with bucket := b.bucket.set key object }⟩
  | delete {b : Worker} {key : String} :
      WorkerEffect K c tr ⟨.delete key, b, { b with bucket := b.bucket.erase key }⟩
  | idle {b : Worker} {l : WorkerAccess} : l.idle = true → WorkerEffect K c tr ⟨l, b, b⟩

theorem maintains_single {c : WorkerCall} {stmts : List MaintenanceStmt} (h : c.Maintains stmts) : ∃ q, stmts = [q] := by
  cases c with
  | deleteAccount => obtain ⟨u, rfl⟩ := h; exact ⟨_, rfl⟩
  | cleanupExpiredSessions => obtain ⟨t, rfl⟩ := h; exact ⟨_, rfl⟩
  | account | sync | createExport | deleteExport => exact h.elim

theorem guar_effect {K : Crypto} {c : WorkerCall} {tr : WorkerTrace} {e : WorkerStep} (hg : c.guar K tr e) :
    WorkerEffect K c tr e := by
  obtain ⟨label, ⟨db, bucket⟩, ⟨db', bucket'⟩⟩ := e
  -- an account or sync access touches the database only, a put or a delete the bucket only
  cases label with
  | account l =>
    obtain ⟨⟨tr0, htr, hg⟩, rfl : bucket' = bucket⟩ := hg
    cases l with
    | commit stmts => exact .account htr hg.1 hg.2
    | abort stmts =>
      obtain rfl : db' = db := hg.1
      exact .idle rfl
    | query =>
      obtain rfl : db' = db := hg
      exact .idle rfl
  | sync l =>
    obtain ⟨⟨d, tr0, hc, hg⟩, rfl : bucket' = bucket⟩ := hg
    rcases guar_step hg with ⟨stmts, rfl, hx⟩ | ⟨hl, rfl : db' = db⟩
    · exact .sync hc hx hg
    · cases l with
      | commit stmts => exact absurd rfl (hl stmts)
      | abort | query => exact .idle rfl
  | maintenance l =>
    obtain ⟨⟨tr0, hg⟩, rfl : bucket' = bucket⟩ := hg
    cases l with
    | commit stmts =>
      obtain ⟨q, rfl⟩ := maintains_single hg.2
      obtain ⟨m, hx, ⟨⟩⟩ := (execAll_cons _).mp hg.1
      exact .maintenance hx hg.2
    | abort stmts =>
      obtain rfl : db' = db := hg.1
      exact .idle rfl
    | query =>
      obtain rfl : db' = db := hg
      exact .idle rfl
  | list | get =>
    cases (show (⟨db', bucket'⟩ : Worker) = ⟨db, bucket⟩ from hg)
    exact .idle rfl
  | put key =>
    obtain ⟨rfl : db' = db, hb⟩ := hg
    rcases hb with hb | ⟨hnew, object, hb⟩
    · obtain rfl : bucket' = bucket := hb
      exact .idle rfl
    · obtain rfl : bucket' = bucket.set key object := hb
      exact .put hnew
  | delete key =>
    obtain ⟨rfl : db' = db, rfl : bucket' = bucket.erase key⟩ := hg
    exact .delete

/-! ## Sessions made by logins -/

section
variable {F : Formats} {K : Crypto} {A : Ambient} {tr : AccountTrace}

theorem registers_bound {userId : UserId} {device : TrustedDevice} {hash : Option String} {epoch : Option Nat}
    {stmts : List AccountStmt} (h : Registers A userId device hash epoch stmts) : BoundSessions stmts := by
  cases h with
  | insert => constructor <;> simp [insertDeviceStmt]
  | replace => constructor <;> simp [replaceDeviceStmts]
  | update _ _ reset => cases reset <;> constructor <;> simp [updateDeviceStmts]

theorem careful_single {q : AccountStmt} (h : BoundSessions [q]) : Careful tr [q] :=
  ⟨h, writesRead_of fun _ _ _ _ _ _ _ => by simp [updateDeviceStmts]⟩

theorem loginFinish_careful {client : ClientInfo} {path : LoginPath} {loginId request : String}
    {device : MobileDeviceLogin} : AccountSat Careful (fun _ _ => True)
      (loginFinish F K A client path loginId request device) tr := by
  unfold loginFinish
  dsimp only
  split
  · exact TrySat.throw
  refine (loginUser_sat (fun _ => careful_single ?_) fun _ => careful_single ?_).bind fun tr1 user _ hl => ?_
  · constructor <;> simp
  · constructor <;> simp
  split
  · refine (loginDevice_sat fun tr2 stmts h2 hreg hread => ⟨registers_bound hreg, hread⟩).bind fun tr2 bound h2 _ => ?_
    refine TrySat.bind (R := fun _ _ => True) (TrySat.mapError ?_) fun _ _ _ _ => TrySat.pure trivial
    refine rotateDeviceSession_sat ⟨⟨by simp [rotateStmts], fun id d row h => ?_⟩, writesRead_of ?_⟩
    · simp only [rotateStmts, List.mem_cons, AccountStmt.sessions.injEq, SessionStmt.insertForDevice.injEq,
        reduceCtorEq, List.not_mem_nil, or_false] at h
      rw [h.2.2, h.2.1]
    · simp [rotateStmts, updateDeviceStmts]
  · refine TrySat.bind (R := fun _ _ => True) (TrySat.mapError ?_) fun _ _ _ _ => TrySat.pure trivial
    refine createSession_sat (careful_single ⟨fun id row h => ?_, by simp⟩)
    simp only [List.mem_singleton, AccountStmt.sessions.injEq, SessionStmt.insertAtEpoch.injEq] at h
    rw [h.2]

theorem postDevices_careful {c : Credentials} {client : ClientInfo} {request : RegisterDeviceRequest} :
    AccountSat Careful (fun _ _ => True) (postDevices K A c client request) tr := by
  refine (authenticated_sat fun _ t => careful_single ?_).bind fun tr1 session _ _ => ?_
  · constructor <;> simp
  split
  · exact TrySat.throw
  · exact (registerDevice_sat fun tr' stmts _ hreg hread => ⟨registers_bound hreg, hread⟩).bind
      fun _ _ _ _ => TrySat.pure trivial

def AccountCall.registers : AccountCall → Bool
  | loginFinish .. | postDevices .. => true
  | _ => false

theorem transacts_careful {c : AccountCall} {stmts : List AccountStmt} (h : Transacts K c tr stmts)
    (hc : c.registers = false) : Careful tr stmts := by
  refine ⟨?_, writesRead_of ?_⟩
  · cases h with
    | createAccount => constructor <;> simp [mobileAccountStmts]
    | withdraw => constructor <;> simp [withdrawStmts]
    | approve => constructor <;> simp [approveStmts]
    | migrateRecovery => constructor <;> simp [migrateStmts]
    | rotateRecovery => constructor <;> simp [rotateRecoveryStmts]
    | finishRecovery => constructor <;> simp [finishRecoveryStmts]
    | consumeLogin | consumeFakeLogin | createSession | rotateSession | registerLogin | registerPost => cases hc
    | _ => constructor <;> simp
  · cases h with
    | consumeLogin | consumeFakeLogin | createSession | rotateSession | registerLogin | registerPost => cases hc
    | createAccount => simp [mobileAccountStmts, updateDeviceStmts]
    | withdraw => simp [withdrawStmts, updateDeviceStmts]
    | approve => simp [approveStmts, updateDeviceStmts]
    | migrateRecovery => simp [migrateStmts, updateDeviceStmts]
    | rotateRecovery => simp [rotateRecoveryStmts, updateDeviceStmts]
    | finishRecovery => simp [finishRecoveryStmts, updateDeviceStmts]
    | _ => simp [updateDeviceStmts]

theorem AccountCall.sat_careful (c : AccountCall) :
    AccountSat (fun tr stmts => Transacts K c tr stmts ∧ Careful tr stmts) (fun _ _ => True) (c.code F K) [] := by
  have hsat : AccountSat (Transacts K c) (fun _ _ => True) (c.code F K) [] := c.sat F K
  have hcareful : AccountSat Careful (fun _ _ => True) (c.code F K) [] := by
    by_cases hc : c.registers = true
    · cases c with
      | loginFinish => exact loginFinish_careful
      | postDevices => exact postDevices_careful
      | _ => cases hc
    · exact hsat.weaken fun _ _ h => transacts_careful h (by simpa using hc)
  exact TrySat.both hsat hcareful

end

/-! ## Parts of a call -/

abbrev WorkerSat {α : Type} (G : WorkerTrace → WorkerStep → Prop) (Q : WorkerTrace → α → Prop) (p : WorkerProg α)
    (tr : WorkerTrace) : Prop :=
  Sat G (Ends Q) p tr

section
variable {F : Formats} {K : Crypto} {A : Ambient} {c : WorkerCall} {tr : WorkerTrace} {α : Type}

/-- An account program at the Worker's store; its accesses are the first ones. -/
theorem worker_account {P : AccountTrace → List AccountStmt → Prop} {Q : AccountTrace → α → Prop} {p : AccountProg α}
    (hp : AccountSat P Q p []) (hP : ∀ tr stmts, P tr stmts → c.Writes K tr stmts) :
    WorkerSat (c.guar K) (fun tr a => EmbeddedPost (dbPart .account) Q tr a) (Worker.account p) [] := by
  have hG := Sat.embed (v := dbPart .account) (hp.weaken hP) .nil
  refine Sat.bind (hG.imp fun tr e he => ?_) fun tr' r _ hr => ?_
  · obtain ⟨tr0, e0, ht, ⟨hl, hb, ha⟩, hg⟩ := he
    unfold WorkerCall.guar
    rw [hl]
    refine ⟨⟨tr0, ht, ?_⟩, by rw [ha]; rfl⟩
    rw [show e.before.db = e0.before from hb, show e.after.db = e0.after by rw [ha]; rfl]
    exact hg
  · cases r with
    | error e => exact trivial
    | ok a =>
      obtain ⟨tr0, ht, hq⟩ := hr
      exact ⟨tr0, ht, hq⟩

theorem worker_sync {d : SyncCall} : Sat (WorkerCall.guar K (.sync d)) (fun _ _ => True)
    (Prog.embed (dbPart .sync) d.code) [] := by
  refine Sat.mono ((Sat.embed (v := dbPart .sync) d.sat .nil).imp fun tr e he => ?_) fun _ _ _ => trivial
  obtain ⟨tr0, e0, -, ⟨hl, hb, ha⟩, hg⟩ := he
  unfold WorkerCall.guar
  rw [hl]
  refine ⟨⟨d, tr0, rfl, ?_⟩, by rw [ha]; rfl⟩
  rw [show e.before.db = e0.before from hb, show e.after.db = e0.after by rw [ha]; rfl]
  exact hg

def RunsStmt (q : MaintenanceStmt) (e : WorkerStep) : Prop := e.label = .maintenance (.commit [q])

theorem worker_run {q : MaintenanceStmt} (hq : c.Maintains [q]) :
    WorkerSat (c.guar K) (fun tr' _ => ∃ e, tr' = tr ++ [e] ∧ RunsStmt q e) (Worker.run q) tr := by
  intro w
  obtain ⟨db, hdb⟩ : ∃ db, q.exec w.db = some db := by
    cases q with
    | deleteUser u => exact ⟨_, rfl⟩
    | deleteExpired table now => cases table <;> exact ⟨_, rfl⟩
  have hx : execAll MaintenanceStmt.exec [q] w.db = some db :=
    (execAll_cons _).mpr ⟨db, hdb, rfl⟩
  simp only [dbPart, hx]
  refine ⟨?_, _, rfl, rfl⟩
  exact ⟨⟨[], hx, hq⟩, rfl⟩

theorem bucketAccess_sat {l : WorkerAccess} {g : Table String R2Object → Table String R2Object × α}
    {Q : WorkerTrace → α → Prop}
    (hg : ∀ w : Worker, c.guar K tr ⟨l, w, { w with bucket := (g w.bucket).1 }⟩)
    (hQ : ∀ w : Worker, Q (tr ++ [⟨l, w, { w with bucket := (g w.bucket).1 }⟩]) (g w.bucket).2) :
    WorkerSat (c.guar K) Q (bucketAccess l g) tr :=
  fun w => ⟨hg w, hQ w⟩

theorem deleteKey_sat {key : String} :
    WorkerSat (c.guar K) (fun tr' _ => ∃ e, tr' = tr ++ [e] ∧ e.label = .delete key)
      (bucketAccess (.delete key) fun b => (b.erase key, ())) tr :=
  bucketAccess_sat (fun _ => ⟨rfl, rfl⟩) fun _ => ⟨_, rfl, rfl⟩

theorem uploadExport_sat {userId : UserId} {exportId : String} {object : R2Object} :
    WorkerSat (c.guar K) (fun _ _ => True) (uploadExport userId exportId object) tr := by
  refine bucketAccess_sat (fun w => ⟨rfl, ?_⟩) fun _ => trivial
  split
  · exact .inl rfl
  · rename_i h
    refine .inr ⟨?_, object, rfl⟩
    rw [Bool.not_eq_true] at h
    exact Table.contains_eq_false.mp h

end

/-! ## Listings -/

/-- The access lists the part of the prefix that `key` belongs to, or passes it. -/
def Covers (e : WorkerStep) (pre key : String) : Prop :=
  ∃ cursor size, e.label = .list pre cursor size ∧
    ((R2Page.of e.before.bucket pre cursor size).truncated = false ∨
      ∃ last, (R2Page.of e.before.bucket pre cursor size).cursor = some last ∧ key ≤ last)

section
variable {bucket : Table String R2Object} {pre key : String} {cursor : Option String} {size : Nat}

def listedRows (bucket : Table String R2Object) (pre : String) (cursor : Option String) : List (String × R2Object) :=
  (bucket.select fun k _ => under pre k && cursor.all (· < k)).mergeSort fun a b => a.1 ≤ b.1

theorem mem_listedRows {object : R2Object} : (key, object) ∈ listedRows bucket pre cursor ↔
    bucket.get? key = some object ∧ under pre key = true ∧ cursor.all (· < key) = true := by
  unfold listedRows
  rw [List.mem_mergeSort, Table.mem_select, Bool.and_eq_true]

variable (bucket pre cursor) in
theorem listedRows_sorted : (listedRows bucket pre cursor).Pairwise fun a b => a.1 ≤ b.1 := by
  have h := @List.pairwise_mergeSort _ (fun a b : String × R2Object => decide (a.1 ≤ b.1))
    (fun a b c hab hbc => by simp only [decide_eq_true_eq] at *; exact le_trans hab hbc)
    (fun a b => by simp only [Bool.or_eq_true, decide_eq_true_eq]; exact le_total a.1 b.1)
    (bucket.select fun k _ => under pre k && cursor.all (· < k))
  exact h.imp fun hab => by simpa using hab

theorem page_covers {object : R2Object} (hk : bucket.get? key = some object) (hu : under pre key = true)
    (hc : cursor.all (· < key) = true)
    (hcov : (R2Page.of bucket pre cursor size).truncated = false ∨
      ∃ last, (R2Page.of bucket pre cursor size).cursor = some last ∧ key ≤ last) :
    key ∈ (R2Page.of bucket pre cursor size).objects.map Prod.fst := by
  have hmem : (key, object) ∈ listedRows bucket pre cursor := mem_listedRows.mpr ⟨hk, hu, hc⟩
  rcases hcov with ht | ⟨last, hlast, hle⟩
  · have hlen : (listedRows bucket pre cursor).length ≤ size := by
      simpa [R2Page.of, listedRows] using ht
    have hall : (R2Page.of bucket pre cursor size).objects = listedRows bucket pre cursor :=
      List.take_of_length_le hlen
    rw [hall]
    exact List.mem_map.mpr ⟨_, hmem, rfl⟩
  · have hlast' : ((listedRows bucket pre cursor).take size).getLast?.map (·.1) = some last := hlast
    obtain ⟨row, hrow, rfl⟩ := Option.map_eq_some_iff.mp hlast'
    have hrowmem := List.mem_of_getLast? hrow
    by_cases hin : (key, object) ∈ (listedRows bucket pre cursor).take size
    · exact List.mem_map.mpr ⟨_, hin, rfl⟩
    · have hdrop : (key, object) ∈ (listedRows bucket pre cursor).drop size := by
        rw [← List.take_append_drop size (listedRows bucket pre cursor)] at hmem
        exact (List.mem_append.mp hmem).resolve_left hin
      have hsorted := listedRows_sorted bucket pre cursor
      rw [← List.take_append_drop size (listedRows bucket pre cursor), List.pairwise_append] at hsorted
      have hge : row.1 ≤ key := hsorted.2.2 row hrowmem (key, object) hdrop
      have heq : row.1 = key := le_antisymm hge hle
      exact List.mem_map.mpr ⟨row, hrowmem, heq⟩

end

/-- The key was listed if it was there when its part of the prefix was. -/
def Listed (pre key : String) (found : List String) (tr : WorkerTrace) : Prop :=
  ∃ t₁ e t₂, tr = t₁ ++ e :: t₂ ∧ Covers e pre key ∧ ((e.before.bucket.get? key).isSome → key ∈ found)

theorem Listed.later {pre key : String} {found found' : List String} {tr tr' : WorkerTrace}
    (h : Listed pre key found tr) (hpre : tr <+: tr') (hf : ∀ k ∈ found, k ∈ found') : Listed pre key found' tr' := by
  obtain ⟨t₁, e, t₂, rfl, hc, hin⟩ := h
  obtain ⟨t₃, rfl⟩ := hpre
  exact ⟨t₁, e, t₂ ++ t₃, by simp, hc, fun hk => hf key (hin hk)⟩

section
variable {F : Formats} {K : Crypto} {A : Ambient} {c : WorkerCall} {tr : WorkerTrace}

theorem listPrefix_sat {pre : String} {pages : List (Option Nat)} {cursor : Option String} :
    WorkerSat (c.guar K)
      (fun tr' found => ∀ key, under pre key = true → cursor.all (· < key) = true → Listed pre key found tr')
      (listPrefix pre pages cursor) tr := by
  -- what the listing has passed lies before the cursor
  induction pages generalizing cursor tr with
  | nil => exact Sat.tryThrow
  | cons page pages ih =>
    cases page with
    | none => exact Sat.tryThrow
    | some size =>
      refine Sat.tryBind (bucketAccess_sat (Q := fun tr' listed => ∃ w : Worker,
        tr' = tr ++ [⟨.list pre cursor size, w, w⟩] ∧ listed = R2Page.of w.bucket pre cursor size)
        (fun w => rfl) fun w => ⟨w, rfl, rfl⟩) ?_
      rintro tr1 listed - ⟨w, rfl, rfl⟩
      have hlisted : ∀ key, under pre key = true → cursor.all (· < key) = true →
          Covers ⟨.list pre cursor size, w, w⟩ pre key →
          Listed pre key ((R2Page.of w.bucket pre cursor size).objects.map Prod.fst)
            (tr ++ [⟨.list pre cursor size, w, w⟩]) := by
        intro key hu hc hcov
        refine ⟨tr, _, [], rfl, hcov, fun hk => ?_⟩
        obtain ⟨object, hk⟩ := Option.isSome_iff_exists.mp hk
        obtain ⟨cursor', size', hl, hcov⟩ := hcov
        cases hl
        exact page_covers hk hu hc hcov
      split
      · rename_i ht
        refine Sat.tryPure fun key hu hc => hlisted key hu hc ⟨cursor, size, rfl, .inl ?_⟩
        simpa using ht
      split
      · exact Sat.tryThrow
      · rename_i hcur
        refine Sat.tryBind ih fun tr2 rest hpre hrest => Sat.tryPure fun key hu hc => ?_
        obtain ⟨last, hlast⟩ : ∃ last, (R2Page.of w.bucket pre cursor size).cursor = some last := by
          simp only [Bool.or_eq_true, not_or, Option.isNone_iff_eq_none] at hcur
          exact Option.ne_none_iff_exists'.mp hcur.1
        by_cases hle : key ≤ last
        · exact (hlisted key hu hc ⟨cursor, size, rfl, .inr ⟨last, hlast, hle⟩⟩).later hpre
            fun k hk => List.mem_append_left _ hk
        · refine (hrest key hu ?_).later List.prefix_rfl fun k hk => List.mem_append_right _ hk
          rw [hlast]
          simpa using hle

theorem deleteObjects_sat {R : R2Env} {keys : List String} :
    WorkerSat (c.guar K) (fun tr' _ => ∃ t, tr' = tr ++ t ∧ ∀ key ∈ keys, ∃ e ∈ t, e.label = .delete key)
      (deleteObjects R keys) tr := by
  induction keys generalizing tr with
  | nil => exact Sat.tryPure ⟨[], by simp, nofun⟩
  | cons key keys ih =>
    unfold deleteObjects
    split
    · exact Sat.tryThrow
    refine Sat.tryBind deleteKey_sat ?_
    rintro _ _ - ⟨e, rfl, he⟩
    refine Sat.mono ih fun tr' r hr => ?_
    cases r with
    | error e => exact trivial
    | ok a =>
      obtain ⟨t, rfl, ht⟩ := hr
      refine ⟨e :: t, by simp, fun k hk => ?_⟩
      rcases List.mem_cons.mp hk with rfl | hk
      · exact ⟨e, List.mem_cons_self, he⟩
      · obtain ⟨d, hd, hl⟩ := ht k hk
        exact ⟨d, List.mem_cons_of_mem _ hd, hl⟩

/-- The key was deleted if it was there when its part of the prefix was listed. -/
def Dropped (pre key : String) (tr : WorkerTrace) : Prop :=
  ∃ t₁ e t₂, tr = t₁ ++ e :: t₂ ∧ Covers e pre key ∧
    ((e.before.bucket.get? key).isSome → ∃ d ∈ t₂, d.label = .delete key)

theorem Dropped.later {pre key : String} {tr tr' : WorkerTrace} (h : Dropped pre key tr) (hpre : tr <+: tr') :
    Dropped pre key tr' := by
  obtain ⟨t₁, e, t₂, rfl, hc, hd⟩ := h
  obtain ⟨t₃, rfl⟩ := hpre
  refine ⟨t₁, e, t₂ ++ t₃, by simp, hc, fun hk => ?_⟩
  obtain ⟨d, hd, hl⟩ := hd hk
  exact ⟨d, List.mem_append_left _ hd, hl⟩

theorem Listed.dropped {pre key : String} {found : List String} {tr t : WorkerTrace} (h : Listed pre key found tr)
    (hd : ∀ k ∈ found, ∃ e ∈ t, e.label = .delete k) : Dropped pre key (tr ++ t) := by
  obtain ⟨t₁, e, t₂, rfl, hc, hin⟩ := h
  refine ⟨t₁, e, t₂ ++ t, by simp, hc, fun hk => ?_⟩
  obtain ⟨d, hdt, hl⟩ := hd key (hin hk)
  exact ⟨d, List.mem_append_right _ hdt, hl⟩

def objectPrefixes (u : UserId) : List String := [exportPrefix u, backupPrefix u]

theorem deleteAccountObjects_sat {R : R2Env} {u : UserId} :
    WorkerSat (c.guar K) (fun tr' _ => ∀ pre ∈ objectPrefixes u, ∀ key, under pre key = true → Dropped pre key tr')
      (deleteAccountObjects R u) tr := by
  refine Sat.tryBind listPrefix_sat fun tr1 exports _ hexports => ?_
  refine Sat.tryBind listPrefix_sat fun tr2 backups h2 hbackups => ?_
  refine Sat.tryBind deleteObjects_sat ?_
  rintro _ _ - ⟨t, rfl, hdel⟩
  refine Sat.tryPure fun pre hpre key hu => ?_
  simp only [objectPrefixes, List.mem_cons, List.not_mem_nil, or_false] at hpre
  rcases hpre with rfl | rfl
  · refine Listed.dropped ((hexports key hu rfl).later h2 fun k hk => hk) fun k hk => ?_
    exact hdel k (List.mem_append_left _ hk)
  · refine Listed.dropped (hbackups key hu rfl) fun k hk => ?_
    exact hdel k (List.mem_append_right _ hk)

end

/-! ## Whole calls -/

def FindsSession (K : Crypto) (cred : Credentials) (u : UserId) (db : Db) : Prop :=
  ∃ r status, sessionRow (K.hashToken cred.token) db = some (r, status) ∧ r.2.userId = u

structure Deleted (K : Crypto) (cred : Credentials) (u : UserId) (tr : WorkerTrace) : Prop where
  session : ∃ x ∈ tr, FindsSession K cred u x.before.db
  objects : ∀ pre ∈ objectPrefixes u, ∀ key, under pre key = true → Dropped pre key tr
  row : ∃ e ∈ tr, RunsStmt (.deleteUser u) e

def WorkerCall.Answers (K : Crypto) (c : WorkerCall) (tr : WorkerTrace) (_ : WorkerResult) : Prop :=
  match c with
  | deleteAccount _ cred _ _ => ∃ u, Deleted K cred u tr
  | _ => True

section
variable {F : Formats} {K : Crypto} {A : Ambient} {c : WorkerCall} {tr : WorkerTrace} {cred : Credentials}

theorem authenticated_session {P : AccountTrace → List AccountStmt → Prop} {tr : AccountTrace}
    (h : ∀ tr t, P tr [.sessions (.deleteByToken t)]) :
    AccountSat P (fun tr session => Saw (FindsSession K cred session.userId) tr) (authenticated K A cred) tr := by
  unfold authenticated sessionMiddleware
  refine TrySat.bind (R := fun tr session => ∀ d, session = some d → Saw (FindsSession K cred d.userId) tr) ?_
    fun tr1 session _ hs => ?_
  · refine read_sat.bind fun tr1 found _ hfound => ?_
    split
    · exact TrySat.pure nofun
    split
    · exact (runStmt_sat (h tr1 _)).bind fun _ _ _ _ => TrySat.pure nofun
    split
    · exact TrySat.pure nofun
    · refine TrySat.pure ?_
      rintro _ ⟨⟩
      obtain ⟨s, hs, hrow⟩ := hfound
      exact ⟨s, hs, _, _, hrow, rfl⟩
  · split
    · exact TrySat.throw
    split
    · exact TrySat.throw
    · exact TrySat.pure (hs _ rfl)

theorem embedded_saw {p : Db → Prop} {tr0 : AccountTrace} (ht : List.Forall₂ (Embeds (dbPart .account)) tr0 tr)
    (h : Saw p tr0) : ∃ x ∈ tr, p x.before.db := by
  obtain ⟨s, hs, hp⟩ := h
  induction ht with
  | nil => cases hs
  | @cons e e' _ _ he _ ih =>
    rcases List.mem_cons.mp hs with rfl | hs
    · exact ⟨e', List.mem_cons_self, (show e'.before.db = s from he.before) ▸ hp⟩
    · obtain ⟨x, hx, hp⟩ := ih hs
      exact ⟨x, List.mem_cons_of_mem _ hx, hp⟩

theorem worker_authenticated (hc : ∀ tr t, c.Writes K tr [.sessions (.deleteByToken t)]) :
    WorkerSat (c.guar K) (fun tr session => ∃ x ∈ tr, FindsSession K cred session.userId x.before.db)
      (Worker.account (authenticated K A cred)) [] := by
  refine Sat.mono (worker_account (authenticated_session (P := c.Writes K) hc) fun _ _ h => h) fun tr r hr => ?_
  cases r with
  | error e => exact trivial
  | ok session =>
    obtain ⟨tr0, ht, hsaw⟩ := hr
    exact embedded_saw ht hsaw

theorem createExport_sat {configured : Bool} {exportId algorithm body : String} :
    WorkerSat (WorkerCall.guar K (.createExport A cred configured exportId algorithm body)) (fun _ _ => True)
      (createExport K A cred configured exportId algorithm body) [] := by
  refine Sat.tryBind (worker_authenticated fun _ t => ⟨t, rfl⟩) fun tr1 session _ _ => ?_
  split
  · exact Sat.tryThrow
  split
  · exact Sat.tryThrow
  split
  · exact Sat.tryThrow
  split
  · exact Sat.tryThrow
  split
  · exact Sat.tryThrow
  refine Sat.tryBind uploadExport_sat fun tr2 stored _ _ => ?_
  split
  · exact Sat.tryThrow
  · exact Sat.tryPure trivial

theorem deleteExport_sat {configured : Bool} {exportId : String} :
    WorkerSat (WorkerCall.guar K (.deleteExport A cred configured exportId)) (fun _ _ => True)
      (deleteExport K A cred configured exportId) [] := by
  refine Sat.tryBind (worker_authenticated fun _ t => ⟨t, rfl⟩) fun tr1 session _ _ => ?_
  split
  · exact Sat.tryThrow
  split
  · exact Sat.tryThrow
  refine Sat.tryBind (R := fun _ _ => True) (bucketAccess_sat (fun _ => rfl) fun _ => trivial)
    fun tr2 existing _ _ => ?_
  split
  · exact Sat.tryThrow
  · exact Sat.tryBind deleteKey_sat fun _ _ _ _ => Sat.tryPure trivial

theorem deleteAccount_sat {R : R2Env} {csrfHeader : Option String} :
    WorkerSat (WorkerCall.guar K (.deleteAccount A cred R csrfHeader)) (fun tr' _ => ∃ u, Deleted K cred u tr')
      (deleteAccount K A cred R csrfHeader) [] := by
  refine Sat.tryBind (worker_authenticated fun _ t => ⟨t, rfl⟩) fun tr1 session _ hsession => ?_
  split
  · exact Sat.tryThrow
  split
  · exact Sat.tryThrow
  split
  · exact Sat.tryThrow
  refine Sat.tryBind (Sat.tryMapError deleteAccountObjects_sat) fun tr2 _ h2 hobjects => ?_
  refine Sat.tryBind (worker_run ⟨_, rfl⟩) ?_
  rintro _ _ - ⟨e, rfl, he⟩
  refine Sat.tryPure ⟨session.userId, ?_, ?_, ?_⟩
  · obtain ⟨x, hx, hf⟩ := hsession
    exact ⟨x, List.mem_append_left _ (h2.subset hx), hf⟩
  · exact fun pre hpre key hu => (hobjects pre hpre key hu).later (List.prefix_append _ _)
  · exact ⟨e, by simp, he⟩

theorem cleanupExpiredSessions_sat {now : Instant} :
    WorkerSat (WorkerCall.guar K (.cleanupExpiredSessions now)) (fun _ _ => True) (cleanupExpiredSessions now) tr := by
  refine Sat.tryBind (worker_run ⟨_, rfl⟩) fun _ _ _ _ => Sat.tryBind (worker_run ⟨_, rfl⟩) fun _ _ _ _ => ?_
  refine Sat.tryBind (worker_run ⟨_, rfl⟩) fun _ _ _ _ => Sat.tryBind (worker_run ⟨_, rfl⟩) fun _ _ _ _ => ?_
  exact Sat.tryBind (worker_run ⟨_, rfl⟩) fun _ _ _ _ => Sat.tryPure trivial

theorem WorkerCall.sat (F : Formats) (K : Crypto) (c : WorkerCall) :
    WorkerSat (c.guar K) (c.Answers K) (c.code F K) [] := by
  cases c with
  | account d =>
    exact Sat.tryBind (worker_account (AccountCall.sat_careful d) fun _ _ h => h) fun _ _ _ _ => Sat.tryPure trivial
  | sync d => exact Sat.bind worker_sync fun _ _ _ _ => trivial
  | createExport => exact createExport_sat
  | deleteExport => exact deleteExport_sat
  | deleteAccount => exact deleteAccount_sat
  | cleanupExpiredSessions => exact cleanupExpiredSessions_sat

end

end ZeroVault

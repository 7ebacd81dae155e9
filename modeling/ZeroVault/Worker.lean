import ZeroVault.AccountRoutes
import ZeroVault.Embed
import ZeroVault.SyncStore
import Mathlib.Data.String.Basic

/-!
# The Worker: database, bucket and all of its writers

The account and sync paths run side by side with exports, the deletion of an
account and the cleanup of expired rows. The bucket's listing is its documented
one: keys in lexicographic order, page by page, each page of its own size.
-/

namespace ZeroVault

open Lib

/-- An encrypted export or backup with its custom metadata. -/
structure R2Object where
  data : String
  alg : String
  ts : Instant
deriving DecidableEq, Repr

structure Worker where
  db : Db := {}
  bucket : Table String R2Object := ∅

/-! ## Maintenance statements -/

inductive ExpiringTable
  | sessions
  | loginSessions
  | fakeLoginSessions
  | registrationSessions
  | recoveryChallenges
deriving DecidableEq, Repr

/-- Each is one `run`. -/
inductive MaintenanceStmt
  | deleteExpired (table : ExpiringTable) (now : Instant)
  | deleteUser (userId : UserId)
deriving DecidableEq, Repr

/-- Deleted challenges take their claims with them. -/
def Db.deleteChallenges (db : Db) (p : RecoveryChallengeRow → Bool) : Db :=
  { db with
    recoveryChallenges := db.recoveryChallenges.deleteWhere fun _ r => p r
    recoveryClaims := db.recoveryClaims.deleteWhere fun id _ => (db.recoveryChallenges.get? id).any p }

/-- `DELETE FROM users` with what the foreign keys of the migrations take along.
`device_vault_keys` has none, and a history row hangs on its item alone. -/
def Db.deleteUser (db : Db) (u : UserId) : Db :=
  { db with
    users := db.users.erase u
    loginSessions := db.loginSessions.deleteWhere fun _ r => r.userId = u
    sessions := db.sessions.deleteWhere fun _ r =>
      r.userId = u || r.deviceId.any fun d => (db.trustedDevices.get? d).any (·.userId = u)
    vaultItems := db.vaultItems.deleteWhere fun _ r => r.userId = u
    vaultItemHistory := db.vaultItemHistory.deleteWhere fun _ r => (db.vaultItems.get? r.itemId).any (·.userId = u)
    recoveryPackets := db.recoveryPackets.erase u
    trustedDevices := db.trustedDevices.deleteWhere fun _ r => r.userId = u
    recoveryChallenges := db.recoveryChallenges.deleteWhere fun _ r => r.userId = some u
    recoveryClaims := db.recoveryClaims.deleteWhere fun id r =>
      r.userId = u || (db.recoveryChallenges.get? id).any (·.userId = some u)
    itemSyncChanges := { db.itemSyncChanges with rows := db.itemSyncChanges.rows.filter (·.userId ≠ u) }
    itemSyncMutations := db.itemSyncMutations.deleteWhere fun k _ => k.1 = u
    itemSyncRevisionClaims := db.itemSyncRevisionClaims.deleteWhere fun k _ => k.1 = u }

def MaintenanceStmt.exec : MaintenanceStmt → Db → Option Db
  | deleteExpired .sessions now, db => some { db with sessions := db.sessions.deleteWhere fun _ r => r.expiresAt ≤ now }
  | deleteExpired .loginSessions now, db =>
    some { db with loginSessions := db.loginSessions.deleteWhere fun _ r => r.expiresAt ≤ now }
  | deleteExpired .fakeLoginSessions now, db =>
    some { db with fakeLoginSessions := db.fakeLoginSessions.deleteWhere fun _ r => r.expiresAt ≤ now }
  | deleteExpired .registrationSessions now, db =>
    some { db with registrationSessions := db.registrationSessions.deleteWhere fun _ r => r.expiresAt ≤ now }
  | deleteExpired .recoveryChallenges now, db => some (db.deleteChallenges fun r => r.expiresAt ≤ now)
  | deleteUser userId, db => some (db.deleteUser userId)

/-- `meta.changes`, without the rows of a cascade. -/
def MaintenanceStmt.changes : MaintenanceStmt → Db → Nat
  | deleteExpired .sessions now, db => (db.sessions.select fun _ r => r.expiresAt ≤ now).length
  | deleteExpired .loginSessions now, db => (db.loginSessions.select fun _ r => r.expiresAt ≤ now).length
  | deleteExpired .fakeLoginSessions now, db => (db.fakeLoginSessions.select fun _ r => r.expiresAt ≤ now).length
  | deleteExpired .registrationSessions now, db =>
    (db.registrationSessions.select fun _ r => r.expiresAt ≤ now).length
  | deleteExpired .recoveryChallenges now, db => (db.recoveryChallenges.select fun _ r => r.expiresAt ≤ now).length
  | deleteUser userId, db => if db.users.contains userId then 1 else 0

/-! ## Programs of the Worker -/

inductive WorkerAccess
  | account (l : Access AccountStmt)
  | sync (l : Access SyncStmt)
  | maintenance (l : Access MaintenanceStmt)
  | list (pre : String) (cursor : Option String) (size : Nat)
  | get (key : String)
  | put (key : String)
  | delete (key : String)

inductive WorkerError
  | account (e : AccountError)
  | r2PaginationInvalid
  | r2Failed
  | exportExists
  | badRequest (error : String)
  /-- The request is still running when its run is looked at. -/
  | unfinished
deriving DecidableEq, Repr

abbrev WorkerProg := TryProg Worker WorkerAccess WorkerError

def dbPart {stmt : Type} (label : Access stmt → WorkerAccess) : Part Db Worker (Access stmt) WorkerAccess where
  get := Worker.db
  put w db := { w with db := db }
  label := label
  put_get _ := rfl
  get_put _ _ := rfl

def Worker.account {α : Type} (p : AccountProg α) : WorkerProg α :=
  Prog.bind (Prog.embed (dbPart .account) p) fun r => Prog.ret (r.mapError .account)

def Worker.run (q : MaintenanceStmt) : WorkerProg Nat :=
  let stmt : TryProg Db (Access MaintenanceStmt) WorkerError (Option (List Nat)) :=
    TryProg.transact MaintenanceStmt.exec MaintenanceStmt.changes [q]
  Prog.bind (Prog.embed (dbPart .maintenance) stmt) fun r =>
    Prog.ret (r.map fun changes => (changes.getD []).headD 0)

def bucketAccess {α : Type} (l : WorkerAccess) (g : Table String R2Object → Table String R2Object × α) : WorkerProg α :=
  Prog.access fun w => ((l, { w with bucket := (g w.bucket).1 }), .ok (g w.bucket).2)

/-! ## Exports -/

def exportPrefix (userId : UserId) : String := "exports/" ++ userId ++ "/"
def backupPrefix (userId : UserId) : String := "backups/" ++ userId ++ "/"
def exportKey (userId : UserId) (exportId : String) : String := exportPrefix userId ++ exportId

def under (pre key : String) : Bool := pre.toList.isPrefixOf key.toList

structure R2Page where
  objects : List (String × R2Object)
  truncated : Bool
  cursor : Option String

def R2Page.of (bucket : Table String R2Object) (pre : String) (cursor : Option String) (size : Nat) : R2Page :=
  let rows := (bucket.select fun k _ => under pre k && cursor.all (· < k)).mergeSort fun a b => a.1 ≤ b.1
  ⟨rows.take size, rows.length > size, (rows.take size).getLast?.map (·.1)⟩

/-- How the bucket's calls of a request turn out: the size of each page, `none`
where the call throws. -/
structure R2Env where
  configured : Bool
  exportPages : List (Option Nat)
  backupPages : List (Option Nat)
  deleteFails : String → Bool

/-- One listed page for each entry of `pages`. -/
def listPrefix (pre : String) : List (Option Nat) → Option String → WorkerProg (List String)
  | [], _ => TryProg.throw .unfinished
  | none :: _, _ => TryProg.throw .r2Failed
  | some size :: pages, cursor => do
    let listed ← bucketAccess (.list pre cursor size) fun b => (b, R2Page.of b pre cursor size)
    if !listed.truncated then pure (listed.objects.map (·.1))
    else if listed.cursor.isNone || listed.cursor = cursor then TryProg.throw .r2PaginationInvalid
    else
      let rest ← listPrefix pre pages listed.cursor
      pure (listed.objects.map (·.1) ++ rest)

def deleteObjects (R : R2Env) : List String → WorkerProg Unit
  | [] => pure ()
  | key :: keys => do
    if R.deleteFails key then TryProg.throw .r2Failed
    else
      bucketAccess (.delete key) fun b => (b.erase key, ())
      deleteObjects R keys

def deleteAccountObjects (R : R2Env) (userId : UserId) : WorkerProg Nat := do
  let exports ← listPrefix (exportPrefix userId) R.exportPages none
  let backups ← listPrefix (backupPrefix userId) R.backupPages none
  deleteObjects R (exports ++ backups)
  pure (exports ++ backups).length

/-- `onlyIf: { etagDoesNotMatch: "*" }` stores nothing over an object. -/
def uploadExport (userId : UserId) (exportId : String) (object : R2Object) : WorkerProg Bool :=
  bucketAccess (.put (exportKey userId exportId)) fun b =>
    if b.contains (exportKey userId exportId) then (b, false) else (b.set (exportKey userId exportId) object, true)

def isHexDigit (c : Char) : Bool := c.isDigit || ('a' ≤ c.toLower && c.toLower ≤ 'f')

/-- `/^[0-9a-f]{8}-[0-9a-f]{4}-[1-8][0-9a-f]{3}-[89ab][0-9a-f]{3}-[0-9a-f]{12}$/iu`. -/
def EXPORT_ID (id : String) : Bool :=
  id.length = 36 && id.toList.zipIdx.all fun p =>
    if p.2 ∈ [8, 13, 18, 23] then p.1 = '-'
    else if p.2 = 14 then '1' ≤ p.1 && p.1 ≤ '8'
    else if p.2 = 19 then "89abAB".toList.contains p.1
    else isHexDigit p.1

def cloudExportAlgorithmSchema (algorithm : String) : Bool :=
  ["XCHACHA20_POLY1305", "ZERO_VAULT_ITEM_ENVELOPES_V1", "ZERO_VAULT_MOBILE_BACKUP_V2"].contains algorithm

inductive WorkerResult
  | account (result : AccountResult)
  | sync (result : SyncResult)
  | ok
  | size (bytes : Nat)
  | cleaned (sessions loginSessions fakeLoginSessions registrationSessions recoveryChallenges : Nat)

section
variable (K : Crypto) (A : Ambient) (c : Credentials)

def createExport (configured : Bool) (exportId algorithm body : String) : WorkerProg WorkerResult := do
  let session ← Worker.account (authenticated K A c)
  if !configured then TryProg.throw (.badRequest "r2_not_configured")
  else if exportId = "" then TryProg.throw (.badRequest "export_id_required")
  else if !EXPORT_ID exportId then TryProg.throw (.badRequest "export_id_invalid")
  else if !cloudExportAlgorithmSchema algorithm then TryProg.throw (.badRequest "export_algorithm_unsupported")
  else if body = "" then TryProg.throw (.badRequest "empty_body")
  else
    let stored ← uploadExport session.userId exportId ⟨body, algorithm, A.now "createExport"⟩
    if !stored then TryProg.throw .exportExists else pure (.size body.utf8ByteSize)

def deleteExport (configured : Bool) (exportId : String) : WorkerProg WorkerResult := do
  let session ← Worker.account (authenticated K A c)
  if !configured then TryProg.throw (.badRequest "r2_not_configured")
  else if !EXPORT_ID exportId then TryProg.throw (.badRequest "export_id_invalid")
  else
    let existing ← bucketAccess (.get (exportKey session.userId exportId)) fun b =>
      (b, b.contains (exportKey session.userId exportId))
    if !existing then TryProg.throw (.badRequest "export_not_found")
    else
      bucketAccess (.delete (exportKey session.userId exportId)) fun b =>
        (b.erase (exportKey session.userId exportId), ())
      pure .ok

/-! ## The deletion of an account -/

def ACCOUNT_DELETE_AUTH_MAX_AGE_MS : Nat := 5 * 60 * 1000

def recentlyAuthenticated (session : SessionData) : Bool :=
  session.row.createdAt ≤ A.now "deleteAccount" &&
    A.now "deleteAccount" - session.row.createdAt ≤ ACCOUNT_DELETE_AUTH_MAX_AGE_MS &&
    (session.authTransport ≠ .bearer || session.deviceStatus = some .approved)

def deleteAccount (R : R2Env) (csrfHeader : Option String) : WorkerProg WorkerResult := do
  let session ← Worker.account (authenticated K A c)
  if csrfHeader.all (fun h => h = "" || h ≠ session.row.csrfToken) then
    TryProg.throw (.badRequest "csrf_token_required")
  else if !recentlyAuthenticated A session then TryProg.throw (.badRequest "recent_authentication_required")
  else if !R.configured then TryProg.throw (.badRequest "account_deletion_storage_unavailable")
  else
    -- the objects go first; the rows stay if one cannot be deleted
    let _ ← (deleteAccountObjects R session.userId).mapError fun e =>
      if e = .unfinished then e else .badRequest "account_deletion_incomplete"
    let _ ← Worker.run (.deleteUser session.userId)
    pure .ok

end

def cleanupExpiredSessions (now : Instant) : WorkerProg WorkerResult := do
  let sessions ← Worker.run (.deleteExpired .sessions now)
  let loginSessions ← Worker.run (.deleteExpired .loginSessions now)
  let fakeLoginSessions ← Worker.run (.deleteExpired .fakeLoginSessions now)
  let registrationSessions ← Worker.run (.deleteExpired .registrationSessions now)
  let recoveryChallenges ← Worker.run (.deleteExpired .recoveryChallenges now)
  pure (.cleaned sessions loginSessions fakeLoginSessions registrationSessions recoveryChallenges)

/-! ## Calls -/

/-- A sync call is one whose session was found already. -/
inductive WorkerCall
  | account (c : AccountCall)
  | sync (c : SyncCall)
  | createExport (A : Ambient) (c : Credentials) (configured : Bool) (exportId algorithm body : String)
  | deleteExport (A : Ambient) (c : Credentials) (configured : Bool) (exportId : String)
  | deleteAccount (A : Ambient) (c : Credentials) (R : R2Env) (csrfHeader : Option String)
  | cleanupExpiredSessions (now : Instant)

def WorkerCall.code (F : Formats) (K : Crypto) : WorkerCall → WorkerProg WorkerResult
  | account c => do
    let result ← Worker.account (c.code F K)
    pure (.account result)
  | sync c => Prog.bind (Prog.embed (dbPart .sync) c.code) fun r => Prog.ret (.ok (.sync r))
  | createExport A c configured exportId algorithm body =>
    ZeroVault.createExport K A c configured exportId algorithm body
  | deleteExport A c configured exportId => ZeroVault.deleteExport K A c configured exportId
  | deleteAccount A c R csrfHeader => ZeroVault.deleteAccount K A c R csrfHeader
  | cleanupExpiredSessions now => ZeroVault.cleanupExpiredSessions now

end ZeroVault

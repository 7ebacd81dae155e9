import ZeroVault.Interleave

/-!
# The extension's vault session

The operations of the extension's background script, one access to the session
storage at a time: between any two of them other operations run. Answers that
the session storage does not give are a parameter (`Outside`).
-/

namespace ZeroVault.Extension

open Lib

structure Identity where
  userId : String
  email : String
  deviceId : String
  publicKey : String
deriving DecidableEq, Repr

/-- `vaultAccess`. -/
structure Access where
  key : String
  identity : Identity
  expiresAt : Nat
deriving DecidableEq, Repr

inductive SetupStatus
  | pending
  | approved
deriving DecidableEq, Repr

/-- `deviceSetup`. -/
structure Setup where
  identity : Identity
  status : SetupStatus
deriving DecidableEq, Repr

structure PendingLogin where
  username : String
  password : String
  document : String
  id : String
  tabId : Nat
  origin : String
  capturedAt : Nat
  ready : Bool
deriving DecidableEq, Repr

structure Session where
  vaultAccess : Option Access
  deviceSetup : Option Setup
  pendingLogins : Option (List PendingLogin)
  now : Nat
deriving DecidableEq, Repr

inductive Use
  | clock
  | getAccess
  | setAccess
  | getSetup
  | setSetup
  | removeSetup
  | getPending
  | setPending
  /-- `remove([ACCESS, SETUP, 'pendingLogins'])` -/
  | removeAll
  /-- `setBadgeText`, of one tab or of all -/
  | badge (tabId : Option Nat)
deriving DecidableEq, Repr

abbrev ExtProg := TryProg Session Use String

def ask {α : Type} (l : Use) (g : Session → α) : ExtProg α := Prog.act (fun s => (l, s)) fun s => Prog.ret (.ok (g s))

def update (l : Use) (f : Session → Session) : ExtProg Unit :=
  Prog.act (fun s => (l, f s)) fun _ => Prog.ret (.ok ())

/-- `p.catch(() => a)`. -/
def orElse {α : Type} (p : ExtProg α) (a : α) : ExtProg α :=
  Prog.bind p fun
    | .ok b => Prog.ret (.ok b)
    | .error _ => Prog.ret (.ok a)

def dateNow : ExtProg Nat := ask .clock (·.now)
def getAccess : ExtProg (Option Access) := ask .getAccess (·.vaultAccess)
def setAccess (entry : Access) : ExtProg Unit := update .setAccess fun s => { s with vaultAccess := some entry }
def setSetup (setup : Setup) : ExtProg Unit := update .setSetup fun s => { s with deviceSetup := some setup }
def removeSetup : ExtProg Unit := update .removeSetup fun s => { s with deviceSetup := none }
def setPending (entries : List PendingLogin) : ExtProg Unit :=
  update .setPending fun s => { s with pendingLogins := some entries }
def removeAll : ExtProg Unit :=
  update .removeAll fun s => { s with vaultAccess := none, deviceSetup := none, pendingLogins := none }
def setBadge (tabId : Option Nat) : ExtProg Unit := update (.badge tabId) id

/-! ## What the session storage does not decide -/

inductive Reply
  | ok
  /-- 401 or 403 -/
  | denied
  | failed
deriving DecidableEq, Repr

/-- What a run of `syncVault` asks of its `SyncIO`, and where it throws. -/
inductive SyncStep
  | request (reply : Reply)
  | commit
  | throws
deriving DecidableEq, Repr

structure Outside where
  /-- `readDisk`: it throws, finds nothing, or finds the vault of an owner. -/
  disk : String → Option (Option String)
  /-- Checks of input and answers, and computations that may throw. -/
  passes : String → Bool
  reply : String → Reply
  text : String → String
  identity : Identity
  setupStatus : SetupStatus
  /-- The pages that a conflict's lookup pulls. -/
  pages : List Reply
  sync : List SyncStep

def check (W : Outside) (place : String) : ExtProg Unit := if W.passes place then pure () else TryProg.throw place

def readDisk (W : Outside) (place : String) : ExtProg (Option String) :=
  match W.disk place with
  | none => TryProg.throw "local_data_invalid"
  | some disk => pure disk

/-! ## Access -/

def TTL : Nat := 5 * 60000

def clearBadges : List Nat → ExtProg Unit
  | [] => setBadge none
  | tabId :: tabIds => do
    setBadge (some tabId)
    clearBadges tabIds

def lock : ExtProg Unit := do
  let pending ← ask .getPending (·.pendingLogins)
  removeAll
  clearBadges ((pending.getD []).map (·.tabId)).eraseDups

def access (touch : Bool) : ExtProg (Option Access) := do
  let entry ← getAccess
  match entry with
  | none => pure none
  | some entry =>
    let now ← dateNow
    if entry.expiresAt ≤ now then
      lock
      pure none
    -- writes back the entry that was read, whatever happened in between
    else if touch then
      let now ← dateNow
      let entry := { entry with expiresAt := now + TTL }
      setAccess entry
      pure (some entry)
    else pure (some entry)

/-- A request; with an identity, a denied one locks the vault. -/
def request (identity : Bool) (reply : Reply) : ExtProg Unit :=
  match reply with
  | .ok => pure ()
  | .denied => do
    if identity then lock
    TryProg.throw "request_denied"
  | .failed => TryProg.throw "request_failed"

def login (W : Outside) : ExtProg Setup := do
  request false (W.reply "loginStart")
  check W "invalid_credentials"
  request false (W.reply "loginFinish")
  check W "device_identity_mismatch"
  pure ⟨W.identity, W.setupStatus⟩

def unlocked (W : Outside) (touch : Bool) : ExtProg Access := do
  let session ← access touch
  let disk ← readDisk W "unlocked"
  match session with
  | none => TryProg.throw "vault_locked"
  | some session =>
    if disk ≠ some session.identity.userId then TryProg.throw "vault_locked"
    else
      check W "unlockLocalVaultWithRecoveredKey"
      pure session

def withVault {α : Type} (W : Outside) (fn : Access → ExtProg α) (touch : Bool) : ExtProg α := do
  let context ← unlocked W touch
  fn context

def syncVault : List SyncStep → ExtProg Unit
  | [] => pure ()
  | .request reply :: steps => do
    request true reply
    syncVault steps
  | .commit :: steps => do
    let session ← access false
    if session.isNone then TryProg.throw "vault_locked" else syncVault steps
  | .throws :: _ => TryProg.throw "sync_failed"

def synchronize (W : Outside) : ExtProg Unit := do
  let session ← access false
  if session.isNone then pure () else withVault W (fun _ => syncVault W.sync) false

/-! ## Connecting and unlocking -/

def beginConnect (W : Outside) : ExtProg Unit := do
  let disk ← readDisk W "beginConnect"
  if disk.isSome then TryProg.throw "already_connected"
  else
    let setup ← login W
    setSetup setup

def getSetup (W : Outside) : ExtProg Setup := do
  let setup ← ask .getSetup (·.deviceSetup)
  match setup with
  | none => TryProg.throw "setup_expired"
  | some setup =>
    request true (W.reply "self")
    check W "device_not_trusted"
    pure ⟨setup.identity, W.setupStatus⟩

def finishConnect (W : Outside) : ExtProg Unit := do
  check W "password_too_short"
  let disk ← readDisk W "finishConnect"
  if disk.isSome then TryProg.throw "already_connected"
  else
    let setup ← getSetup W
    if setup.status ≠ .approved then TryProg.throw "device_approval_required"
    else
      request true (W.reply "key")
      check W "device_packet"
      let now ← dateNow
      setAccess ⟨W.text "key", setup.identity, now + TTL⟩
      removeSetup
      orElse (synchronize W) ()

/-- With an account password the session of the device is renewed first. -/
def unlock (W : Outside) (accountPassword : Bool) : ExtProg Unit := do
  let disk ← readDisk W "unlock"
  if disk.isNone then TryProg.throw "not_connected"
  else
    check W "password"
    let identity ← if accountPassword then do
        let renewed ← login W
        if disk ≠ some renewed.identity.userId ∨ renewed.status ≠ .approved then TryProg.throw "device_not_trusted"
        else pure renewed.identity
      else pure W.identity
    let now ← dateNow
    setAccess ⟨W.text "key", identity, now + TTL⟩
    -- the vault is open even if this fails
    orElse (synchronize W) ()

/-! ## Login capture -/

def CANDIDATE_TTL : Nat := 5 * 60000

def clearDropped (valid : List PendingLogin) : List PendingLogin → ExtProg Unit
  | [] => pure ()
  | entry :: entries => do
    if !valid.any (·.tabId = entry.tabId) then setBadge (some entry.tabId)
    clearDropped valid entries

def pendingLogins : ExtProg (List PendingLogin) := do
  let entries ← ask .getPending (·.pendingLogins)
  let now ← dateNow
  let valid := (entries.getD []).filter fun entry => now < entry.capturedAt + CANDIDATE_TTL
  if entries.map (·.length) ≠ some valid.length then
    setPending valid
    clearDropped valid (entries.getD [])
    pure valid
  else pure valid

def discard (id : String) : ExtProg Unit := do
  let entries ← pendingLogins
  setPending (entries.filter (·.id ≠ id))
  match entries.find? (·.id = id) with
  | none => pure ()
  | some candidate => setBadge (some candidate.tabId)

structure Sender where
  tabId : Nat
  origin : String
deriving DecidableEq, Repr

def captureLogin (W : Outside) (sender : Sender) (username password document : String) : ExtProg Unit := do
  check W "candidate_mismatch"
  if W.passes "excluded" then pure ()
  else
    let entries ← pendingLogins
    let now ← dateNow
    setPending (entries.filter (·.tabId ≠ sender.tabId) ++
      [⟨username, password, document, W.text "id", sender.tabId, sender.origin, now, false⟩])

def markReady (W : Outside) (sender : Sender) (document : String) (id : Option String) : ExtProg Unit := do
  let entries ← pendingLogins
  let here (entry : PendingLogin) : Bool :=
    entry.tabId = sender.tabId && entry.origin = sender.origin &&
      id.elim (entry.document ≠ document) (entry.id = ·)
  match entries.find? here with
  | none =>
    -- the tab has left the page of the login
    match entries.find? fun entry =>
      entry.tabId = sender.tabId && entry.origin ≠ sender.origin && entry.document ≠ document with
    | none => pure ()
    | some redirected => setBadge (some redirected.tabId)
  | some candidate =>
    setPending (entries.modify (entries.findIdx here) fun entry => { entry with ready := true })
    let identical ← orElse (withVault W (fun _ => pure (W.passes "identical")) false) false
    if identical then discard candidate.id else setBadge (some candidate.tabId)

def forUI (W : Outside) (id : String) : ExtProg PendingLogin := do
  let entries ← pendingLogins
  match entries.find? (·.id = id) with
  | none => TryProg.throw "candidate_expired"
  | some candidate =>
    check W "candidate_mismatch"
    pure candidate

/-- Answers whether the candidate is saved already. -/
def candidateDisplay (W : Outside) (id : String) : ExtProg Bool := do
  let _ ← forUI W id
  orElse (withVault W (fun _ => pure (W.passes "identical")) false) false

def saveLogin (W : Outside) : ExtProg Unit := do
  withVault W (fun _ => check W "candidate_mismatch") true
  orElse (synchronize W) ()

def confirmCandidate (W : Outside) (id : String) : ExtProg Unit := do
  let _ ← forUI W id
  let identical ← candidateDisplay W id
  if identical then discard id
  else
    check W "candidate_mismatch"
    saveLogin W
    discard id

def excludeCandidate (W : Outside) (id : String) : ExtProg Unit := do
  let _ ← forUI W id
  discard id

/-! ## The background script -/

def pullPages : List Reply → ExtProg Unit
  | [] => pure ()
  | reply :: replies => do
    request true reply
    pullPages replies

def resolveConflict (W : Outside) : ExtProg Unit := do
  withVault W (fun _ => do
    check W "conflict_missing"
    pullPages W.pages
    check W "remote") true
  synchronize W

def popupState (W : Outside) : ExtProg Unit := do
  let _ ← readDisk W "popupState"
  let session ← access false
  let _ ← ask .getSetup (·.deviceSetup)
  let _ ← pendingLogins
  if session.isSome then withVault W (fun _ => pure ()) false else pure ()

def fill (W : Outside) : ExtProg Unit :=
  withVault W (fun _ => do
    check W "candidate_mismatch"
    let session ← access false
    if session.isNone then TryProg.throw "vault_locked" else check W "sendFill") true

inductive Op
  | lockVault
  | popupState
  | extensionStatus
  | connectAccount
  | finishConnect
  | unlockVault (accountPassword : Bool)
  | syncNow
  | resolveConflict
  | fillMatchedCredential
  | totpCode
  | captureLogin (sender : Sender) (username password document : String)
  | markReady (sender : Sender) (document : String) (id : Option String)
  | savePrompt (id : String)
  | confirmSave (id : String)
  | excludeSite (id : String)
  | dismissSave (id : String)
  | openUnlock (id : String)
  | alarm
  | tabRemoved (tabId : Nat)
  /-- time passes -/
  | tick (millis : Nat)
deriving DecidableEq, Repr

structure Call where
  op : Op
  outside : Outside

/-- The messages about a candidate are checked by `forUI` first. -/
def Call.code (c : Call) : ExtProg Unit :=
  let W := c.outside
  match c.op with
  | .lockVault => lock
  | .popupState => Extension.popupState W
  | .extensionStatus => do let _ ← access false
  | .connectAccount => beginConnect W
  | .finishConnect => Extension.finishConnect W
  | .unlockVault accountPassword => unlock W accountPassword
  | .syncNow => synchronize W
  | .resolveConflict => Extension.resolveConflict W
  | .fillMatchedCredential => fill W
  | .totpCode => withVault W (fun _ => check W "candidate_mismatch") true
  | .captureLogin sender username password document => Extension.captureLogin W sender username password document
  | .markReady sender document id => Extension.markReady W sender document id
  | .savePrompt id => do
    let _ ← forUI W id
    let _ ← candidateDisplay W id
  | .confirmSave id => do
    let _ ← forUI W id
    confirmCandidate W id
  | .excludeSite id => do
    let _ ← forUI W id
    excludeCandidate W id
  | .dismissSave id => do
    let _ ← forUI W id
    discard id
  | .openUnlock id => do let _ ← forUI W id
  | .alarm => do
    let _ ← pendingLogins
    let _ ← access false
    synchronize W
  | .tabRemoved tabId => do
    let entries ← pendingLogins
    setPending (entries.filter (·.tabId ≠ tabId))
  | .tick millis => update .clock fun s => { s with now := s.now + millis }

/-- The operations that put a fresh entry into the session storage. -/
def Op.opens : Op → Bool
  | .finishConnect | .unlockVault _ => true
  | _ => false

end ZeroVault.Extension

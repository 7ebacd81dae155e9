import ZeroVault.Table

/-!
# Handles of the native core

The maps of open vault sessions and of recovery proofs behind the `mobile_*`
calls. The primitives of the crypto crates are a parameter (`Core`); instants
are nanoseconds of the monotonic clock. A panic inside a session's operation
poisons the lock of the sessions; nothing that holds the lock of the proofs can
panic.
-/

namespace ZeroVault.Native

open Lib

abbrev Handle := String
abbrev Bytes := List UInt8
abbrev Instant := Nat

def fromSecs (n : Nat) : Nat := n * 1000000000

def SESSION_IDLE_TTL : Nat := fromSecs (60 * 60)
def RECOVERY_PROOF_TTL : Nat := fromSecs (10 * 60)
def MAX_RECOVERY_TRANSCRIPT_BYTES : Nat := 64 * 1024
def KEY_LEN : Nat := 32
def XCHACHA20_NONCE_LEN : Nat := 24
def RECOVERY_V2_SALT_LEN : Nat := 16
def RECOVERY_V2_PLAINTEXT_LEN : Nat := 1 + KEY_LEN + 32
def RECOVERY_V2_PACKET_LEN : Nat := RECOVERY_V2_SALT_LEN + XCHACHA20_NONCE_LEN + (RECOVERY_V2_PLAINTEXT_LEN + 16)
def RECOVERY_V2_VERSION : UInt8 := 2

def ascii (text : String) : Bytes := text.toList.map fun c => UInt8.ofNat c.toNat

def RECOVERY_V2_AAD : Bytes := ascii "zero-vault:recovery-packet:v2"
def RECOVERY_V2_FINISH_PREFIX : Bytes := ascii "zero-vault/recovery-finish/v2" ++ [0]

inductive MobileCryptoError
  | invalidKdfParams
  | invalidInput
  | invalidEnvelope
  | authenticationFailed
  | invalidSession
  | opaqueStateExpired
  | recoveryProofExpired
  | internal
deriving DecidableEq, Repr

structure SessionEntry where
  key : Bytes
  lastUsed : Instant
deriving DecidableEq, Repr

structure RecoveryProofEntry where
  signingSeed : Bytes
  sessionHandle : Handle
  createdAt : Instant
deriving DecidableEq, Repr

structure Registry where
  sessions : Table Handle SessionEntry
  recoveryProofs : Table Handle RecoveryProofEntry
  poisoned : Bool

def Registry.empty : Registry := ⟨∅, ∅, false⟩

structure Core where
  decodeRecoveryCode : String → Except MobileCryptoError Bytes
  deriveRecoveryKey : Bytes → Bytes → Except MobileCryptoError Bytes
  /-- Key, nonce, ciphertext and associated data. -/
  decryptXChaCha20 : Bytes → Bytes → Bytes → Bytes → Option Bytes
  deriveRecoverySigningSeed : Bytes → Bytes → Except MobileCryptoError Bytes
  verifyingKey : Bytes → Bytes
  sign : Bytes → Bytes → Bytes

/-! ## The maps -/

def removeExpiredSessions (now : Instant) (r : Registry) : Registry :=
  { r with sessions := r.sessions.deleteWhere fun _ session => !decide (now - session.lastUsed < SESSION_IDLE_TTL) }

def removeExpiredRecoveryProofs (now : Instant) (r : Registry) : Registry :=
  { r with
    recoveryProofs := r.recoveryProofs.deleteWhere fun _ proof => !decide (now - proof.createdAt < RECOVERY_PROOF_TTL) }

def removeRecoveryProofsForSession (sessionHandle : Handle) (r : Registry) : Registry :=
  { r with recoveryProofs := r.recoveryProofs.deleteWhere fun _ proof => proof.sessionHandle = sessionHandle }

/-- `handle` is the handle that `new_handle` comes up with. -/
def insertRecoveryProof (handle sessionHandle : Handle) (signingSeed : Bytes) (now : Instant) (r : Registry) : Registry :=
  let r := removeExpiredRecoveryProofs now r
  { r with recoveryProofs := r.recoveryProofs.set handle ⟨signingSeed, sessionHandle, now⟩ }

def takeRecoveryProof (handle : Handle) (now : Instant) (r : Registry) :
    Registry × Except MobileCryptoError RecoveryProofEntry :=
  let r := removeExpiredRecoveryProofs now r
  match r.recoveryProofs.get? handle with
  | none => (r, .error .recoveryProofExpired)
  -- taken out whatever comes of it
  | some proof => ({ r with recoveryProofs := r.recoveryProofs.erase handle }, .ok proof)

def insertSession (handle : Handle) (key : Bytes) (now : Instant) (r : Registry) :
    Registry × Except MobileCryptoError Handle :=
  if r.poisoned then (r, .error .internal)
  else
    let r := removeExpiredSessions now r
    ({ r with sessions := r.sessions.set handle ⟨key, now⟩ }, .ok handle)

/-- The operation answers `none` where it panics. -/
def withSession {α : Type} (sessionHandle : Handle) (operation : Bytes → Option (Except MobileCryptoError α))
    (now : Instant) (r : Registry) : Registry × Except MobileCryptoError α :=
  if r.poisoned then (r, .error .internal)
  else
    let r := removeExpiredSessions now r
    match r.sessions.get? sessionHandle with
    | none => (r, .error .invalidSession)
    | some session =>
      let r := { r with sessions := r.sessions.set sessionHandle { session with lastUsed := now } }
      match operation session.key with
      | none => ({ r with poisoned := true }, .error .internal)
      | some result => (r, result)

/-! ## Recovery -/

structure MobileRecoveryV2Open where
  sessionHandle : Handle
  recoveryProofHandle : Handle
  signingPublicKey : Bytes
deriving DecidableEq, Repr

def decryptRecoveryPacketV2 (C : Core) (recoveryKey packet : Bytes) : Except MobileCryptoError Bytes :=
  if packet.length ≠ RECOVERY_V2_PACKET_LEN then .error .invalidEnvelope
  else
    let nonce := (packet.drop RECOVERY_V2_SALT_LEN).take XCHACHA20_NONCE_LEN
    let ciphertext := packet.drop (RECOVERY_V2_SALT_LEN + XCHACHA20_NONCE_LEN)
    match C.decryptXChaCha20 recoveryKey nonce ciphertext RECOVERY_V2_AAD with
    | none => .error .authenticationFailed
    | some plaintext =>
      if plaintext.length ≠ RECOVERY_V2_PLAINTEXT_LEN ∨ plaintext.head? ≠ some RECOVERY_V2_VERSION then
        .error .authenticationFailed
      else .ok plaintext

def openRecoveryPacket (C : Core) (recoveryCode : String) (encryptedRecoveryPacket : Bytes) :
    Except MobileCryptoError (Bytes × Bytes) := do
  let recoveryCodeBytes ← C.decodeRecoveryCode recoveryCode
  if encryptedRecoveryPacket.length ≠ RECOVERY_V2_PACKET_LEN then throw .invalidEnvelope
  let recoveryKey ← C.deriveRecoveryKey recoveryCodeBytes (encryptedRecoveryPacket.take RECOVERY_V2_SALT_LEN)
  let plaintext ← decryptRecoveryPacketV2 C recoveryKey encryptedRecoveryPacket
  let vaultKey := (plaintext.drop 1).take KEY_LEN
  let authSalt := plaintext.drop (1 + KEY_LEN)
  let signingSeed ← C.deriveRecoverySigningSeed vaultKey authSalt
  pure (vaultKey, signingSeed)

/-- The session is opened at `now`, the proof at `later`. -/
def mobileOpenRecoveryV2 (C : Core) (recoveryCode : String) (encryptedRecoveryPacket : Bytes)
    (sessionHandle proofHandle : Handle) (now later : Instant) (r : Registry) :
    Registry × Except MobileCryptoError MobileRecoveryV2Open :=
  match openRecoveryPacket C recoveryCode encryptedRecoveryPacket with
  | .error e => (r, .error e)
  | .ok (vaultKey, signingSeed) =>
    match insertSession sessionHandle vaultKey now r with
    | (r, .error e) => (r, .error e)
    | (r, .ok sessionHandle) =>
      (insertRecoveryProof proofHandle sessionHandle signingSeed later r,
        .ok ⟨sessionHandle, proofHandle, C.verifyingKey signingSeed⟩)

/-- The proof is taken at `now`, the session checked at `later`. -/
def mobileSignRecoveryFinish (C : Core) (recoveryProofHandle : Handle) (transcript : Bytes) (now later : Instant)
    (r : Registry) : Registry × Except MobileCryptoError Bytes :=
  if recoveryProofHandle.isEmpty then (r, .error .invalidInput)
  else match takeRecoveryProof recoveryProofHandle now r with
    | (r, .error e) => (r, .error e)
    | (r, .ok proof) =>
      if MAX_RECOVERY_TRANSCRIPT_BYTES < transcript.length ∨ ¬ RECOVERY_V2_FINISH_PREFIX <+: transcript then
        (r, .error .invalidInput)
      else match withSession proof.sessionHandle (fun _ => some (.ok ())) later r with
        | (r, .error e) => (r, .error e)
        | (r, .ok ()) => (r, .ok (C.sign proof.signingSeed transcript))

def mobileRecoveryDiscardProof (recoveryProofHandle : Handle) (r : Registry) : Registry × Except MobileCryptoError Unit :=
  if recoveryProofHandle.isEmpty then (r, .error .invalidInput)
  else ({ r with recoveryProofs := r.recoveryProofs.erase recoveryProofHandle }, .ok ())

def mobileCancelRecovery (recoveryProofHandle sessionHandle : Handle) (r : Registry) :
    Registry × Except MobileCryptoError Unit :=
  if recoveryProofHandle.isEmpty ∨ sessionHandle.isEmpty then (r, .error .invalidInput)
  else
    let r := { r with recoveryProofs := r.recoveryProofs.erase recoveryProofHandle }
    let r := removeRecoveryProofsForSession sessionHandle r
    if r.poisoned then (r, .error .internal)
    else ({ r with sessions := r.sessions.erase sessionHandle }, .ok ())

/-! ## Sessions -/

def mobileSessionIsValid (sessionHandle : Handle) (now : Instant) (r : Registry) :
    Registry × Except MobileCryptoError Bool :=
  if sessionHandle.isEmpty then (r, .ok false)
  else if r.poisoned then (r, .error .internal)
  else
    let r := removeExpiredSessions now r
    (r, .ok (r.sessions.contains sessionHandle))

def mobileLockVault (sessionHandle : Handle) (r : Registry) : Registry × Except MobileCryptoError Unit :=
  if sessionHandle.isEmpty then (r, .error .invalidInput)
  else if r.poisoned then (r, .error .internal)
  else
    let removed := r.sessions.contains sessionHandle
    let r := { r with sessions := r.sessions.erase sessionHandle }
    let r := removeRecoveryProofsForSession sessionHandle r
    (r, if removed then .ok () else .error .invalidSession)

def mobileLockAllVaults (r : Registry) : Registry × Except MobileCryptoError Unit :=
  if r.poisoned then (r, .error .internal)
  else ({ r with sessions := ∅, recoveryProofs := ∅ }, .ok ())

/-! ## Operations -/

/-- A call that reaches the maps. `openSession` stands for the calls that end in
`insert_session`, `useSession` for those that end in `with_session`. -/
inductive Op
  | openRecovery (recoveryCode : String) (packet : Bytes) (sessionHandle proofHandle : Handle)
  | sign (proofHandle : Handle) (transcript : Bytes)
  | discard (proofHandle : Handle)
  | cancel (proofHandle sessionHandle : Handle)
  | lockVault (sessionHandle : Handle)
  | lockAll
  | isValid (sessionHandle : Handle)
  | openSession (sessionHandle : Handle) (key : Bytes)
  | useSession (sessionHandle : Handle) (operation : Bytes → Option (Except MobileCryptoError Bytes))

inductive Outcome
  | opened (result : MobileRecoveryV2Open)
  | signature (bytes : Bytes)
  | session (handle : Handle)
  | valid (answer : Bool)
  | bytes (answer : Bytes)
  | done
  | error (e : MobileCryptoError)
deriving DecidableEq, Repr

def outcome {α : Type} (f : α → Outcome) (p : Registry × Except MobileCryptoError α) : Registry × Outcome :=
  (p.1, match p.2 with
    | .ok a => f a
    | .error e => .error e)

def Op.run (C : Core) (now later : Instant) (r : Registry) : Op → Registry × Outcome
  | openRecovery code packet sessionHandle proofHandle =>
    outcome .opened (mobileOpenRecoveryV2 C code packet sessionHandle proofHandle now later r)
  | sign proofHandle transcript => outcome .signature (mobileSignRecoveryFinish C proofHandle transcript now later r)
  | discard proofHandle => outcome (fun _ => .done) (mobileRecoveryDiscardProof proofHandle r)
  | cancel proofHandle sessionHandle => outcome (fun _ => .done) (mobileCancelRecovery proofHandle sessionHandle r)
  | lockVault sessionHandle => outcome (fun _ => .done) (mobileLockVault sessionHandle r)
  | lockAll => outcome (fun _ => .done) (mobileLockAllVaults r)
  | isValid sessionHandle => outcome .valid (mobileSessionIsValid sessionHandle now r)
  | openSession sessionHandle key => outcome .session (insertSession sessionHandle key now r)
  | useSession sessionHandle operation => outcome .bytes (withSession sessionHandle operation now r)

/-- One call of a run: when it read the clock, and what it answered. -/
structure Event where
  op : Op
  now : Instant
  later : Instant
  answer : Outcome

inductive Runs (C : Core) : List Event → Registry → Prop
  | start : Runs C [] .empty
  | call {events : List Event} {r : Registry} (op : Op) (now later : Instant) (before : Runs C events r)
      (clock : now ≤ later) (since : ∀ e ∈ events, e.later ≤ now) :
      Runs C (events ++ [⟨op, now, later, (op.run C now later r).2⟩]) (op.run C now later r).1

def Op.sessionHandles : Op → List Handle
  | openRecovery _ _ sessionHandle _ => [sessionHandle]
  | openSession sessionHandle _ => [sessionHandle]
  | _ => []

def Op.proofHandles : Op → List Handle
  | openRecovery _ _ _ proofHandle => [proofHandle]
  | _ => []

def FreshHandles (events : List Event) : Prop :=
  (events.flatMap (·.op.sessionHandles)).Nodup ∧ (events.flatMap (·.op.proofHandles)).Nodup

end ZeroVault.Native

import ZeroVault.AccountStmt

/-!
# Requests of the account routes

The parsed bodies with the checks of their schemas, and the transcript that a
recovery signs.
-/

namespace ZeroVault

/-! ## Encodings -/

def base64UrlIndex (c : Char) : Nat := BASE64URL_ALPHABET.idxOf c

/-- Only alphabet characters, no padding, and no stray bits in the last one. -/
def isCanonicalUnpaddedBase64Url (value : String) : Bool :=
  let cs := value.toList
  let last := (cs.getLast?.map base64UrlIndex).getD 0
  !cs.isEmpty && cs.all (BASE64URL_ALPHABET.contains ·) &&
    match cs.length % 4 with
    | 1 => false
    | 2 => last % 16 = 0
    | 3 => last % 4 = 0
    | _ => true

def canonicalBase64UrlBytes (bytes : Nat) (value : String) : Bool :=
  value.length = (bytes * 8 + 5) / 6 && isCanonicalUnpaddedBase64Url value &&
    decodedBase64UrlLength value == some bytes

def canonicalOpaqueMessageSchema (value : String) : Bool :=
  value.length ≤ (16384 * 8 + 5) / 6 && isCanonicalUnpaddedBase64Url value &&
    (decodedBase64UrlLength value).all (· ≤ 16384)

/-- `/^[A-Za-z0-9_-]{43}$/u`. -/
def base64Url43 (value : String) : Bool :=
  value.length = 43 && value.toList.all (BASE64URL_ALPHABET.contains ·)

def x25519PublicKeySchema (value : String) : Bool := base64Url43 value
def deviceCredentialSchema (value : String) : Bool := base64Url43 value
def recoverySigningPublicKeySchema (value : String) : Bool := canonicalBase64UrlBytes 32 value
def recoveryChallengeSchema (value : String) : Bool := canonicalBase64UrlBytes 32 value
def recoveryFinishSignatureSchema (value : String) : Bool := canonicalBase64UrlBytes 64 value

/-- `.trim().toLowerCase()`. Outside ASCII only the Kelvin sign has a lower case that an email can have. -/
def normalizeEmail (email : String) : String :=
  String.ofList ((trimJs email.toList).map fun c => if c = '\u212A' then 'k' else c.toLower)

/-- The bytes of unpadded or padded base64url, `atob` after the alphabet swap. -/
def decodeBytes : List Char → List Nat
  | a :: b :: c :: d :: cs =>
    let n := ((base64UrlIndex a * 64 + base64UrlIndex b) * 64 + base64UrlIndex c) * 64 + base64UrlIndex d
    n / 65536 :: n / 256 % 256 :: n % 256 :: decodeBytes cs
  | [a, b, c] =>
    let n := (base64UrlIndex a * 64 + base64UrlIndex b) * 64 + base64UrlIndex c
    [n / 1024, n / 4 % 256]
  | [a, b] => [(base64UrlIndex a * 64 + base64UrlIndex b) / 16]
  | _ => []

def encodeBytes : List Nat → List Char
  | a :: b :: c :: bs =>
    let n := (a * 256 + b) * 256 + c
    [n / 262144, n / 4096 % 64, n / 64 % 64, n % 64].map (BASE64URL_ALPHABET.getD · 'A') ++ encodeBytes bs
  | [a, b] =>
    let n := (a * 256 + b) * 4
    [n / 4096, n / 64 % 64, n % 64].map (BASE64URL_ALPHABET.getD · 'A')
  | [a] => [a * 16 / 64, a * 16 % 64].map (BASE64URL_ALPHABET.getD · 'A')
  | [] => []

/-! ## Packets -/

/-- Fixed X25519 and XChaCha20-Poly1305: a 32-byte key with its tag. -/
def deviceVaultKeyEnvelopeSchema (e : CiphertextEnvelope) : Bool :=
  e.alg = .xchacha20Poly1305 && nonceSchema 24 e.nonce && base64UrlMax 64 e.ciphertext &&
    decodedBase64UrlLength e.ciphertext == some 48 && e.aad.isNone

def deviceVaultKeyPacketSchema (F : Formats) (p : DeviceVaultKeyPacket) : Bool :=
  p.version = 1 && F.uuid p.recipientDeviceId && x25519PublicKeySchema p.recipientPublicKey &&
    x25519PublicKeySchema p.ephemeralPublicKey && deviceVaultKeyEnvelopeSchema p.encryptedVaultKey

def recoveryPacketV2Schema (p : RecoveryPacketV2) : Bool :=
  p.version = 2 && p.alg = .xchacha20Poly1305 && p.kdf.alg = "ARGON2ID_V13" && canonicalBase64UrlBytes 16 p.kdf.salt &&
    p.kdf.memoryKib = 65536 && p.kdf.iterations = 3 && p.kdf.parallelism = 4 &&
    canonicalBase64UrlBytes 24 p.nonce && canonicalBase64UrlBytes 81 p.ciphertext

def LEGACY_DEVICE_PACKET_BASE64URL_CHARS : Nat := 139

/-- A raw vault-key value of older rows, as a packet for the device's key. -/
def convertLegacyDeviceVaultKeyPacket (F : Formats) (value : String) (device : TrustedDevice) :
    Option DeviceVaultKeyPacket :=
  if value.length ≠ LEGACY_DEVICE_PACKET_BASE64URL_CHARS ∨ !base64UrlSchema value then none
  else
    let bytes := decodeBytes (unpadded value.toList)
    if bytes.length ≠ 104 then none
    else
      let packet : DeviceVaultKeyPacket := {
        version := 1
        recipientDeviceId := device.id
        recipientPublicKey := device.publicKey
        ephemeralPublicKey := String.ofList (encodeBytes ((bytes.drop 24).take 32))
        encryptedVaultKey := {
          alg := .xchacha20Poly1305
          nonce := String.ofList (encodeBytes (bytes.take 24))
          ciphertext := String.ofList (encodeBytes (bytes.drop 56))
          aad := none } }
      if deviceVaultKeyPacketSchema F packet then some packet else none

/-! ## Requests -/

structure RegisterFinishRequest where
  registrationSessionId : String
  email : String
  registrationRecord : String
  publicKeyBundle : String
  encryptedRecoveryPacket : RecoveryPacketEnvelope
deriving DecidableEq, Repr

/-- A device that logs in or is bootstrapped with its credential. -/
structure MobileDeviceLogin where
  id : DeviceId
  name : String
  fingerprint : String
  publicKey : String
  credential : String
deriving DecidableEq, Repr

structure MobileDeviceKey extends MobileDeviceLogin where
  encryptedVaultKeyPacket : DeviceVaultKeyPacket
deriving DecidableEq, Repr

structure MobileRegisterFinishRequest where
  registrationSessionId : String
  email : String
  registrationRecord : String
  publicKeyBundle : String
  encryptedRecoveryPacket : RecoveryPacketV2
  recoverySigningPublicKey : String
  device : MobileDeviceKey
deriving DecidableEq, Repr

structure RegisterDeviceRequest where
  name : String
  fingerprint : Option String
  publicKey : String
deriving DecidableEq, Repr

/-- The body of approve and share-key: a packet, the raw value of older
clients, the strict empty object of the deprecated flow, or anything else. -/
inductive DeviceVaultKeyRequest
  | packet (p : DeviceVaultKeyPacket)
  | legacyRaw (value : String)
  | empty
  | invalid
deriving DecidableEq, Repr

structure RecoveryFinishUnsignedRequest where
  recoveryAttemptId : String
  email : String
  registrationSessionId : String
  registrationRecord : String
  newEncryptedRecoveryPacket : RecoveryPacketV2
  newRecoverySigningPublicKey : String
  device : MobileDeviceKey
deriving DecidableEq, Repr

section
variable (F : Formats)

def nameSchema (name : String) : Bool := 1 ≤ jsLength name && jsLength name ≤ 256
def fingerprintSchema (fingerprint : String) : Bool := 8 ≤ jsLength fingerprint && jsLength fingerprint ≤ 128

def registerFinishRequestSchema (r : RegisterFinishRequest) : Bool :=
  F.uuid r.registrationSessionId && F.email r.email && base64UrlSchema r.registrationRecord &&
    base64UrlSchema r.publicKeyBundle && aeadCiphertextEnvelopeSchema r.encryptedRecoveryPacket.envelope &&
    r.encryptedRecoveryPacket.kdfIterations.all fun n => 0 < n && n ≤ 10000000

def mobileDeviceLoginSchema (d : MobileDeviceLogin) : Bool :=
  F.uuid d.id && nameSchema d.name && fingerprintSchema d.fingerprint && x25519PublicKeySchema d.publicKey &&
    deviceCredentialSchema d.credential

def MobileDeviceKey.recipientMatches (d : MobileDeviceKey) : Bool :=
  d.encryptedVaultKeyPacket.recipientDeviceId = d.id && d.encryptedVaultKeyPacket.recipientPublicKey = d.publicKey

def mobileRegisterFinishRequestSchema (r : MobileRegisterFinishRequest) : Bool :=
  F.uuid r.registrationSessionId && F.email r.email && base64UrlSchema r.registrationRecord &&
    base64UrlSchema r.publicKeyBundle && recoveryPacketV2Schema r.encryptedRecoveryPacket &&
    recoverySigningPublicKeySchema r.recoverySigningPublicKey && mobileDeviceLoginSchema F r.device.toMobileDeviceLogin &&
    deviceVaultKeyPacketSchema F r.device.encryptedVaultKeyPacket && r.device.recipientMatches

def registerDeviceRequestSchema (r : RegisterDeviceRequest) : Bool :=
  nameSchema r.name && r.fingerprint.all fingerprintSchema && x25519PublicKeySchema r.publicKey

def recoveryFinishDeviceSchema (d : MobileDeviceKey) : Bool :=
  mobileDeviceLoginSchema F d.toMobileDeviceLogin && canonicalBase64UrlBytes 32 d.publicKey &&
    canonicalBase64UrlBytes 32 d.credential && deviceVaultKeyPacketSchema F d.encryptedVaultKeyPacket &&
    canonicalBase64UrlBytes 32 d.encryptedVaultKeyPacket.recipientPublicKey &&
    canonicalBase64UrlBytes 32 d.encryptedVaultKeyPacket.ephemeralPublicKey && d.recipientMatches

def recoveryFinishRequestSchema (r : RecoveryFinishUnsignedRequest) (signature : String) : Bool :=
  F.uuid r.recoveryAttemptId && F.email r.email && F.uuid r.registrationSessionId &&
    canonicalOpaqueMessageSchema r.registrationRecord && recoveryPacketV2Schema r.newEncryptedRecoveryPacket &&
    recoverySigningPublicKeySchema r.newRecoverySigningPublicKey && recoveryFinishDeviceSchema F r.device &&
    recoveryFinishSignatureSchema signature

end

/-! ## The recovery transcript -/

inductive TranscriptField
  | text (value : String)
  | base64 (value : String)
  | u8 (value : Nat)
  | u32 (value : Nat)
deriving DecidableEq, Repr

def TranscriptField.length : TranscriptField → Nat
  | text value => value.utf8ByteSize
  | base64 value => (decodedBase64UrlLength value).getD 0
  | u8 _ => 1
  | u32 _ => 4

def TranscriptField.canonical : TranscriptField → Bool
  | base64 value => isCanonicalUnpaddedBase64Url value
  | _ => true

abbrev Transcript := List TranscriptField

def RECOVERY_FINISH_TRANSCRIPT_PREFIX : String := "zero-vault/recovery-finish/v2\x00"
def MAX_RECOVERY_FINISH_TRANSCRIPT_BYTES : Nat := 65536

def EnvelopeAlg.text : EnvelopeAlg → String
  | xchacha20Poly1305 => "XCHACHA20_POLY1305"
  | aes256Gcm => "AES_256_GCM"
  | hmacSha256 => "HMAC_SHA256"

def transcriptFields (challenge : String) (r : RecoveryFinishUnsignedRequest) : Transcript :=
  let recovery := r.newEncryptedRecoveryPacket
  let packet := r.device.encryptedVaultKeyPacket
  [.text r.recoveryAttemptId, .base64 challenge, .text r.email, .text r.registrationSessionId,
    .base64 r.registrationRecord,
    .u8 recovery.version, .text recovery.alg.text, .text recovery.kdf.alg, .base64 recovery.kdf.salt,
    .u32 recovery.kdf.memoryKib, .u32 recovery.kdf.iterations, .u32 recovery.kdf.parallelism,
    .base64 recovery.nonce, .base64 recovery.ciphertext, .base64 r.newRecoverySigningPublicKey,
    .text r.device.id, .text r.device.name, .text r.device.fingerprint, .base64 r.device.publicKey,
    .base64 r.device.credential,
    .u8 packet.version, .text packet.recipientDeviceId, .base64 packet.recipientPublicKey,
    .base64 packet.ephemeralPublicKey, .text packet.encryptedVaultKey.alg.text, .base64 packet.encryptedVaultKey.nonce,
    .base64 packet.encryptedVaultKey.ciphertext]

/-- `none` where the source throws. -/
def buildRecoveryFinishTranscript (challenge : String) (r : RecoveryFinishUnsignedRequest) : Option Transcript :=
  let fields := transcriptFields challenge r
  let length := RECOVERY_FINISH_TRANSCRIPT_PREFIX.utf8ByteSize + (fields.map fun f => 4 + f.length).sum
  if recoveryChallengeSchema challenge && fields.all (·.canonical) && length ≤ MAX_RECOVERY_FINISH_TRANSCRIPT_BYTES then
    some fields
  else none

end ZeroVault

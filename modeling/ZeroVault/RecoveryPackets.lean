import ZeroVault.DevicePackets
import ZeroVault.NativeHandles

/-!
# Recovery packets across Rust and Kotlin

The native core seals the vault key under a recovery code, the Android app turns
the 121 bytes into the JSON of the wire and back. Salt, nonce and ciphertext are
cut at the same places on both sides (`decode_encode`), and the Kotlin decoder
reads what the schema accepts; what it reads beyond that are the numbers that
`getInt` brings to the required ones (`Coerced`).
-/

namespace ZeroVault.RecoveryPacket

open Lib Radix64 Mobile DevicePacket
open Browser (except_bind_ok)
open Native (MobileCryptoError Handle Registry Core MobileRecoveryV2Open KEY_LEN XCHACHA20_NONCE_LEN RECOVERY_V2_SALT_LEN
  RECOVERY_V2_PLAINTEXT_LEN RECOVERY_V2_PACKET_LEN RECOVERY_V2_VERSION RECOVERY_V2_AAD)

/-! ## The native core -/

def RECOVERY_V2_CODE_LEN : Nat := 32
def RECOVERY_V2_AUTH_SALT_LEN : Nat := 32
def POLY1305_TAG_LEN : Nat := 16
def RECOVERY_V2_CIPHERTEXT_LEN : Nat := RECOVERY_V2_PLAINTEXT_LEN + POLY1305_TAG_LEN
def RECOVERY_V2_SIGNING_INFO : Bytes := Native.ascii "zero-vault/recovery-signing/v2"

structure Crypto where
  /-- Recovery code and salt, with the fixed parameters of v2. -/
  argon2id : Bytes → Bytes → Bytes
  /-- Salt, key material and info. -/
  hkdfSha256 : Bytes → Bytes → Bytes → Bytes
  /-- Key, nonce, message and associated data. -/
  encrypt : Bytes → Bytes → Bytes → Bytes → Bytes
  decrypt : Bytes → Bytes → Bytes → Bytes → Option Bytes
  verifyingKey : Bytes → Bytes
  sign : Bytes → Bytes → Bytes

structure Crypto.Ideal (K : Crypto) : Prop where
  length_argon2id : ∀ code salt, (K.argon2id code salt).length = KEY_LEN
  length_encrypt : ∀ key nonce msg aad, key.length = KEY_LEN → nonce.length = XCHACHA20_NONCE_LEN →
    (K.encrypt key nonce msg aad).length = msg.length + POLY1305_TAG_LEN
  decrypt_encrypt : ∀ key nonce msg aad, key.length = KEY_LEN → nonce.length = XCHACHA20_NONCE_LEN →
    K.decrypt key nonce (K.encrypt key nonce msg aad) aad = some msg

def decodeRecoveryCodeV2 (value : String) : Except MobileCryptoError Bytes :=
  if value.utf8ByteSize ≠ 43 ∨ '=' ∈ value.toList then .error .invalidInput
  else match rustDecode value with
    | none => .error .invalidInput
    | some decoded =>
      if decoded.length ≠ RECOVERY_V2_CODE_LEN ∨ rustEncode decoded ≠ value then .error .invalidInput else .ok decoded

def Crypto.core (K : Crypto) : Core where
  decodeRecoveryCode := decodeRecoveryCodeV2
  deriveRecoveryKey code salt := .ok (K.argon2id code salt)
  decryptXChaCha20 := K.decrypt
  deriveRecoverySigningSeed vaultKey authSalt := .ok (K.hkdfSha256 authSalt vaultKey RECOVERY_V2_SIGNING_INFO)
  verifyingKey := K.verifyingKey
  sign := K.sign

def encryptRecoveryPacketV2 (K : Crypto) (recoveryKey salt nonce vaultKey authSalt : Bytes) :
    Except MobileCryptoError Bytes :=
  let plaintext := RECOVERY_V2_VERSION :: (vaultKey ++ authSalt)
  let ciphertext := K.encrypt recoveryKey nonce plaintext RECOVERY_V2_AAD
  if ciphertext.length ≠ RECOVERY_V2_CIPHERTEXT_LEN then .error .internal else .ok (salt ++ nonce ++ ciphertext)

/-- What `OsRng` fills the arrays with. -/
structure Drawn where
  recoveryCode : Bytes
  salt : Bytes
  nonce : Bytes
  authSalt : Bytes
  length_recoveryCode : recoveryCode.length = RECOVERY_V2_CODE_LEN
  length_salt : salt.length = RECOVERY_V2_SALT_LEN
  length_nonce : nonce.length = XCHACHA20_NONCE_LEN
  length_authSalt : authSalt.length = RECOVERY_V2_AUTH_SALT_LEN

structure MobileRecoveryV2Rotation where
  recoveryCode : String
  encryptedRecoveryPacket : Bytes
  signingPublicKey : Bytes
deriving DecidableEq, Repr

/-- The closure of `mobile_prepare_recovery_rotation`. -/
def prepareRecovery (K : Crypto) (drawn : Drawn) (vaultKey : Bytes) :
    Except MobileCryptoError MobileRecoveryV2Rotation := do
  let recoveryKey ← K.core.deriveRecoveryKey drawn.recoveryCode drawn.salt
  let encryptedRecoveryPacket ←
    encryptRecoveryPacketV2 K recoveryKey drawn.salt drawn.nonce vaultKey drawn.authSalt
  let signingSeed ← K.core.deriveRecoverySigningSeed vaultKey drawn.authSalt
  pure ⟨rustEncode drawn.recoveryCode, encryptedRecoveryPacket, K.verifyingKey signingSeed⟩

def mobilePrepareRecoveryRotation (K : Crypto) (sessionHandle : Handle) (drawn : Drawn) (now : Native.Instant)
    (r : Registry) : Registry × Except MobileCryptoError MobileRecoveryV2Rotation :=
  if sessionHandle.isEmpty then (r, .error .invalidInput)
  else Native.withSession sessionHandle (fun vaultKey => some (prepareRecovery K drawn vaultKey)) now r

/-! ## JSON -/

/-- A value where the packet has a number. `real` is a number that is not written as an integer. -/
inductive JsonScalar
  | integer (n : Int)
  | real (q : Rat)
  | text (s : String)
  | other
deriving DecidableEq, Repr

structure RecoveryKdfJson where
  keys : List String
  alg : String
  salt : String
  memoryKib : JsonScalar
  iterations : JsonScalar
  parallelism : JsonScalar
deriving DecidableEq, Repr

/-- A packet's text of `chars` characters. `kdf` is `none` where it is not an object. -/
structure RecoveryPacketJson where
  chars : Nat
  keys : List String
  version : JsonScalar
  alg : String
  kdf : Option RecoveryKdfJson
  nonce : String
  ciphertext : String
deriving DecidableEq, Repr

def RECOVERY_V2_PACKET_KEYS : List String := ["version", "alg", "kdf", "nonce", "ciphertext"]
def RECOVERY_V2_KDF_KEYS : List String := ["alg", "salt", "memoryKib", "iterations", "parallelism"]

def sameKeys (keys expected : List String) : Bool := keys.all (expected.contains ·) && expected.all (keys.contains ·)

/-- `z.literal(n)`. -/
def JsonScalar.literal (n : Nat) (s : JsonScalar) : Bool := s = .integer n || s = .real n

def recoveryPacketV2JsonSchema (p : RecoveryPacketJson) : Bool :=
  sameKeys p.keys RECOVERY_V2_PACKET_KEYS && p.version.literal 2 && p.alg = "XCHACHA20_POLY1305" &&
    p.kdf.any (fun kdf =>
      sameKeys kdf.keys RECOVERY_V2_KDF_KEYS && kdf.alg = "ARGON2ID_V13" && canonicalBase64UrlBytes 16 kdf.salt &&
        kdf.memoryKib.literal 65536 && kdf.iterations.literal 3 && kdf.parallelism.literal 4) &&
    canonicalBase64UrlBytes 24 p.nonce && canonicalBase64UrlBytes 81 p.ciphertext

/-! ## Kotlin -/

def RECOVERY_V2_PACKET_BYTES : Nat := 16 + 24 + 81

/-- The conversion of a `double` to an `int`. -/
def saturated (n : Int) : Int := max (-2147483648) (min 2147483647 n)

def truncated (q : Rat) : Int := if 0 ≤ q then q.floor else -(-q).floor

/-- `JSONObject.getInt`: a text counts as the double that it spells (`parseInt`),
an integer of 64 bits is cut to its low 32. -/
def getInt (parseInt : String → Option Int) : JsonScalar → Except Failure Int
  | .integer n =>
    if -9223372036854775808 ≤ n ∧ n < 9223372036854775808 then .ok (n.bmod 4294967296) else .ok (saturated n)
  | .real q => .ok (saturated (truncated q))
  | .text s =>
    match parseInt s with
    | some n => .ok n
    | none => .error (.illegalArgument "Recovery packet has an invalid shape")
  | .other => .error (.illegalArgument "Recovery packet has an invalid shape")

def decodeCanonicalBase64Url (value : String) (expectedOrMaximumBytes : Nat) : Except Failure Bytes := do
  require (!value.isEmpty && value.length ≤ (expectedOrMaximumBytes + 2) / 3 * 4 &&
    value.toList.all (BASE64URL_ALPHABET.contains ·)) "Invalid canonical base64url value"
  match androidDecode value with
  | none => throw (.illegalArgument "Invalid canonical base64url value")
  | some decoded => do
    require (decoded.length ≤ expectedOrMaximumBytes && androidEncode decoded = value) "Invalid canonical base64url value"
    pure decoded

def packetText (salt nonce ciphertext : String) : String :=
  "\x7b\"version\":2,\"alg\":\"XCHACHA20_POLY1305\",\"kdf\":\x7b\"alg\":\"ARGON2ID_V13\",\"salt\":\"" ++ salt ++
    "\",\"memoryKib\":65536,\"iterations\":3,\"parallelism\":4\x7d,\"nonce\":\"" ++ nonce ++ "\",\"ciphertext\":\"" ++
    ciphertext ++ "\"\x7d"

def encodeRecoveryPacketV2 (rawPacket : Bytes) : Except Failure RecoveryPacketJson := do
  require (rawPacket.length = RECOVERY_V2_PACKET_BYTES) "Recovery packet is invalid"
  let salt := androidEncode (rawPacket.take 16)
  let nonce := androidEncode ((rawPacket.drop 16).take 24)
  let ciphertext := androidEncode (rawPacket.drop 40)
  pure {
    chars := (packetText salt nonce ciphertext).length
    keys := RECOVERY_V2_PACKET_KEYS
    version := .integer 2
    alg := "XCHACHA20_POLY1305"
    kdf := some {
      keys := RECOVERY_V2_KDF_KEYS
      alg := "ARGON2ID_V13"
      salt := salt
      memoryKib := .integer 65536
      iterations := .integer 3
      parallelism := .integer 4 }
    nonce := nonce
    ciphertext := ciphertext }

def decodeRecoveryPacketV2Json (parseInt : String → Option Int) (packet : RecoveryPacketJson) : Except Failure Bytes := do
  require (packet.chars ≤ 4096) "Recovery packet is too large"
  require (sameKeys packet.keys RECOVERY_V2_PACKET_KEYS) "Recovery packet contains unsupported fields"
  -- `getInt` takes texts and other numbers for integers too
  let version ← getInt parseInt packet.version
  require (version = 2) "Recovery packet version is unsupported"
  require (packet.alg = "XCHACHA20_POLY1305") "Recovery packet algorithm is unsupported"
  match packet.kdf with
  | none => throw (.illegalArgument "Recovery packet has an invalid shape")
  | some kdf => do
    require (sameKeys kdf.keys RECOVERY_V2_KDF_KEYS) "Recovery KDF contains unsupported fields"
    require (kdf.alg = "ARGON2ID_V13") "Recovery KDF is unsupported"
    let memoryKib ← getInt parseInt kdf.memoryKib
    require (memoryKib = 65536) "Recovery KDF parameters are unsupported"
    let iterations ← getInt parseInt kdf.iterations
    require (iterations = 3) "Recovery KDF parameters are unsupported"
    let parallelism ← getInt parseInt kdf.parallelism
    require (parallelism = 4) "Recovery KDF parameters are unsupported"
    let salt ← decodeCanonicalBase64Url kdf.salt 16
    let nonce ← decodeCanonicalBase64Url packet.nonce 24
    let ciphertext ← decodeCanonicalBase64Url packet.ciphertext 81
    require (salt.length = 16 && nonce.length = 24 && ciphertext.length = 81) "Recovery packet is invalid"
    pure (salt ++ nonce ++ ciphertext)

/-! ## Canonical texts -/

section
variable {s : String} {b : Bytes} {n : Nat}

theorem decodeCanonicalBase64Url_iff : decodeCanonicalBase64Url s n = .ok b ↔
    b ≠ [] ∧ b.length ≤ n ∧ encodeCanonicalBase64Url b = s := by
  constructor
  · intro h
    obtain ⟨_, hformat, h⟩ := except_bind_ok h
    have hformat := require_ok hformat
    rw [Bool.and_eq_true, Bool.and_eq_true, Bool.not_eq_true'] at hformat
    cases hdecode : androidDecode s with
    | none =>
      rw [hdecode] at h
      cases h
    | some decoded =>
      rw [hdecode] at h
      obtain ⟨_, hback, h⟩ := except_bind_ok h
      have hback := require_ok hback
      rw [Bool.and_eq_true, decide_eq_true_eq, decide_eq_true_eq, androidEncode_eq] at hback
      obtain rfl : decoded = b := Except.ok.inj h
      refine ⟨?_, hback⟩
      rintro rfl
      rw [← hback.2] at hformat
      exact absurd hformat.1.1 (by decide +kernel)
  · rintro ⟨hne, hlength, rfl⟩
    have hholds := holds_encode hne
    have hchars := @length_encode b
    have hempty : (encodeCanonicalBase64Url b).isEmpty = false := by
      rw [← Bool.not_eq_true, String.isEmpty_iff]
      intro hnil
      exact hholds.nonempty (by rw [hnil]; rfl)
    have hmost : (encodeCanonicalBase64Url b).length ≤ (n + 2) / 3 * 4 := by
      rw [← String.length_toList, hchars]
      omega
    have hall : (encodeCanonicalBase64Url b).toList.all (BASE64URL_ALPHABET.contains ·) = true := by
      rw [List.all_eq_true]
      exact fun c hc => List.contains_iff_mem.mpr (hholds.mem c hc)
    unfold RecoveryPacket.decodeCanonicalBase64Url
    simp only [hempty, hmost, hall, androidDecode_encode, androidEncode_eq, hlength, decide_true, Bool.not_false,
      Bool.and_self, require_true, ok_bind]
    rfl

/-- The Kotlin decoder reads what the schema asks for. -/
theorem canonicalBase64UrlBytes_iff_decodes (hn : 0 < n) : canonicalBase64UrlBytes n s = true ↔
    ∃ b, b.length = n ∧ decodeCanonicalBase64Url s n = .ok b := by
  rw [canonicalBase64UrlBytes_iff hn]
  refine exists_congr fun b => and_congr_right fun hlength => ?_
  rw [decodeCanonicalBase64Url_iff]
  exact ⟨fun h => ⟨List.length_pos_iff.mp (hlength ▸ hn), Nat.le_of_eq hlength, h⟩, fun h => h.2.2⟩

theorem utf8ByteSize_ofList : ∀ {cs : List Char}, (∀ c ∈ cs, c.utf8Size = 1) →
    (String.ofList cs).utf8ByteSize = cs.length
  | [], _ => rfl
  | c :: cs, h => by
    rw [String.ofList_cons, String.utf8ByteSize_append, String.utf8ByteSize_singleton, h c List.mem_cons_self,
      utf8ByteSize_ofList fun d hd => h d (List.mem_cons_of_mem _ hd), List.length_cons, Nat.add_comm]

theorem utf8Size_alphabet : ∀ c ∈ BASE64URL_ALPHABET, c.utf8Size = 1 := by
  have hall : BASE64URL_ALPHABET.all (fun c => c.utf8Size == 1) = true := by decide +kernel
  exact fun c hc => beq_iff_eq.mp (List.all_eq_true.mp hall c hc)

theorem decodeRecoveryCodeV2_rustEncode {code : Bytes} (h : code.length = RECOVERY_V2_CODE_LEN) :
    decodeRecoveryCodeV2 (rustEncode code) = .ok code := by
  have hchars : (encodeCanonicalBase64Url code).toList.length = 43 := by
    rw [length_encode, h]
    rfl
  have hbytes : (encodeCanonicalBase64Url code).utf8ByteSize = 43 := by
    rw [← String.ofList_toList (s := encodeCanonicalBase64Url code),
      utf8ByteSize_ofList fun c hc => utf8Size_alphabet c (encode_mem c hc), hchars]
  have hpad : '=' ∉ (encodeCanonicalBase64Url code).toList := fun hc => absurd (encode_mem _ hc) (by decide)
  have hself : ¬ (code.length ≠ RECOVERY_V2_CODE_LEN ∨ encodeCanonicalBase64Url code ≠ encodeCanonicalBase64Url code) :=
    not_or.mpr ⟨not_not_intro h, not_not_intro rfl⟩
  unfold decodeRecoveryCodeV2
  simp only [rustEncode_eq]
  rw [if_neg (not_or.mpr ⟨not_not_intro hbytes, hpad⟩), rustDecode_encode]
  exact if_neg hself

end

/-! ## From Rust to Kotlin and back -/

section
variable {K : Crypto} {drawn : Drawn} {vaultKey raw : Bytes} {parseInt : String → Option Int}
  {p : RecoveryPacketJson}

def Drawn.recoveryKey (K : Crypto) (drawn : Drawn) : Bytes := K.argon2id drawn.recoveryCode drawn.salt

def Drawn.ciphertext (K : Crypto) (drawn : Drawn) (vaultKey : Bytes) : Bytes :=
  K.encrypt (drawn.recoveryKey K) drawn.nonce (RECOVERY_V2_VERSION :: (vaultKey ++ drawn.authSalt)) RECOVERY_V2_AAD

def Drawn.signingSeed (K : Crypto) (drawn : Drawn) (vaultKey : Bytes) : Bytes :=
  K.hkdfSha256 drawn.authSalt vaultKey RECOVERY_V2_SIGNING_INFO

def Drawn.rotation (K : Crypto) (drawn : Drawn) (vaultKey : Bytes) : MobileRecoveryV2Rotation where
  recoveryCode := rustEncode drawn.recoveryCode
  encryptedRecoveryPacket := drawn.salt ++ drawn.nonce ++ drawn.ciphertext K vaultKey
  signingPublicKey := K.verifyingKey (drawn.signingSeed K vaultKey)

theorem length_recoveryKey (hK : K.Ideal) : (drawn.recoveryKey K).length = KEY_LEN := hK.length_argon2id _ _

theorem length_ciphertext (hK : K.Ideal) (hkey : vaultKey.length = KEY_LEN) :
    (drawn.ciphertext K vaultKey).length = RECOVERY_V2_CIPHERTEXT_LEN := by
  unfold Drawn.ciphertext
  rw [hK.length_encrypt _ _ _ _ (length_recoveryKey hK) drawn.length_nonce, List.length_cons, List.length_append, hkey,
    drawn.length_authSalt]
  rfl

theorem length_packet (hK : K.Ideal) (hkey : vaultKey.length = KEY_LEN) :
    (drawn.rotation K vaultKey).encryptedRecoveryPacket.length = RECOVERY_V2_PACKET_LEN := by
  unfold Drawn.rotation
  rw [List.length_append, List.length_append, drawn.length_salt, drawn.length_nonce, length_ciphertext hK hkey]
  rfl

theorem prepareRecovery_eq (hK : K.Ideal) (hkey : vaultKey.length = KEY_LEN) :
    prepareRecovery K drawn vaultKey = .ok (drawn.rotation K vaultKey) := by
  have hencrypt : encryptRecoveryPacketV2 K (drawn.recoveryKey K) drawn.salt drawn.nonce vaultKey drawn.authSalt =
      .ok (drawn.salt ++ drawn.nonce ++ drawn.ciphertext K vaultKey) :=
    if_neg (not_not_intro (length_ciphertext hK hkey))
  show (encryptRecoveryPacketV2 K (drawn.recoveryKey K) drawn.salt drawn.nonce vaultKey drawn.authSalt >>= _) = _
  rw [hencrypt]
  rfl

theorem openRecoveryPacket_eq (hK : K.Ideal) (hkey : vaultKey.length = KEY_LEN) :
    Native.openRecoveryPacket K.core (rustEncode drawn.recoveryCode) (drawn.rotation K vaultKey).encryptedRecoveryPacket =
      .ok (vaultKey, drawn.signingSeed K vaultKey) := by
  have hlength : ¬ (drawn.rotation K vaultKey).encryptedRecoveryPacket.length ≠ RECOVERY_V2_PACKET_LEN :=
    not_not_intro (length_packet hK hkey)
  -- the blob is cut where it was put together
  have hsalt : (drawn.rotation K vaultKey).encryptedRecoveryPacket.take RECOVERY_V2_SALT_LEN = drawn.salt := by
    unfold Drawn.rotation
    rw [List.append_assoc, List.take_left' drawn.length_salt]
  have hnonce : ((drawn.rotation K vaultKey).encryptedRecoveryPacket.drop RECOVERY_V2_SALT_LEN).take XCHACHA20_NONCE_LEN =
      drawn.nonce := by
    unfold Drawn.rotation
    rw [List.append_assoc, List.drop_left' drawn.length_salt, List.take_left' drawn.length_nonce]
  have hciphertext : (drawn.rotation K vaultKey).encryptedRecoveryPacket.drop
      (RECOVERY_V2_SALT_LEN + XCHACHA20_NONCE_LEN) = drawn.ciphertext K vaultKey := by
    unfold Drawn.rotation
    refine List.drop_left' ?_
    rw [List.length_append, drawn.length_salt, drawn.length_nonce]
  have hplaintext : Native.decryptRecoveryPacketV2 K.core (drawn.recoveryKey K)
      (drawn.rotation K vaultKey).encryptedRecoveryPacket =
      .ok (RECOVERY_V2_VERSION :: (vaultKey ++ drawn.authSalt)) := by
    have hdecrypt : K.core.decryptXChaCha20 (drawn.recoveryKey K) drawn.nonce (drawn.ciphertext K vaultKey)
        RECOVERY_V2_AAD = some (RECOVERY_V2_VERSION :: (vaultKey ++ drawn.authSalt)) :=
      hK.decrypt_encrypt _ _ _ _ (length_recoveryKey hK) drawn.length_nonce
    unfold Native.decryptRecoveryPacketV2
    rw [if_neg hlength, hnonce, hciphertext]
    simp only [hdecrypt]
    refine if_neg (not_or.mpr ⟨not_not_intro ?_, not_not_intro rfl⟩)
    rw [List.length_cons, List.length_append, hkey, drawn.length_authSalt]
    rfl
  have hkeyPart : ((RECOVERY_V2_VERSION :: (vaultKey ++ drawn.authSalt)).drop 1).take KEY_LEN = vaultKey := by
    rw [List.drop_one, List.tail_cons, List.take_left' hkey]
  have hsaltPart : (RECOVERY_V2_VERSION :: (vaultKey ++ drawn.authSalt)).drop (1 + KEY_LEN) = drawn.authSalt := by
    rw [Nat.add_comm, List.drop_succ_cons, List.drop_left' hkey]
  have hcode : K.core.decodeRecoveryCode (rustEncode drawn.recoveryCode) = .ok drawn.recoveryCode :=
    decodeRecoveryCodeV2_rustEncode drawn.length_recoveryCode
  have hderive : K.core.deriveRecoveryKey drawn.recoveryCode drawn.salt = .ok (drawn.recoveryKey K) := rfl
  unfold Native.openRecoveryPacket
  simp only [hcode, hsalt, hderive, ok_bind, if_neg hlength, hplaintext, hkeyPart, hsaltPart]
  rfl

/-! ## What the decoder reads -/

/-- All that is asked of a packet except for its numbers. -/
structure Shaped (p : RecoveryPacketJson) (kdf : RecoveryKdfJson) : Prop where
  keys : sameKeys p.keys RECOVERY_V2_PACKET_KEYS = true
  alg : p.alg = "XCHACHA20_POLY1305"
  object : p.kdf = some kdf
  kdfKeys : sameKeys kdf.keys RECOVERY_V2_KDF_KEYS = true
  kdfAlg : kdf.alg = "ARGON2ID_V13"
  salt : canonicalBase64UrlBytes 16 kdf.salt = true
  nonce : canonicalBase64UrlBytes 24 p.nonce = true
  ciphertext : canonicalBase64UrlBytes 81 p.ciphertext = true

def numbers (p : RecoveryPacketJson) (kdf : RecoveryKdfJson) : List (Nat × JsonScalar) :=
  [(2, p.version), (65536, kdf.memoryKib), (3, kdf.iterations), (4, kdf.parallelism)]

/-- What `getInt` takes for `n` though it is not `n`. -/
def Coerces (parseInt : String → Option Int) (n : Nat) : JsonScalar → Prop
  | .integer m => m ≠ n ∧ -9223372036854775808 ≤ m ∧ m < 9223372036854775808 ∧ m % 4294967296 = n
  | .real q => q ≠ n ∧ truncated q = n
  | .text s => parseInt s = some (n : Int)
  | .other => False

/-- A packet that is in order but for numbers that are brought to the required ones. -/
def Coerced (parseInt : String → Option Int) (p : RecoveryPacketJson) : Prop :=
  p.chars ≤ 4096 ∧ ∃ kdf, Shaped p kdf ∧ (∀ x ∈ numbers p kdf, x.2.literal x.1 = true ∨ Coerces parseInt x.1 x.2) ∧
    ∃ x ∈ numbers p kdf, Coerces parseInt x.1 x.2

def Encodes (p : RecoveryPacketJson) (raw : Bytes) : Prop :=
  ∃ kdf salt nonce ciphertext, p.kdf = some kdf ∧ raw = salt ++ nonce ++ ciphertext ∧
    (salt.length = 16 ∧ encodeCanonicalBase64Url salt = kdf.salt) ∧
    (nonce.length = 24 ∧ encodeCanonicalBase64Url nonce = p.nonce) ∧
    (ciphertext.length = 81 ∧ encodeCanonicalBase64Url ciphertext = p.ciphertext)

theorem truncated_natCast (n : Nat) : truncated n = n := by
  have hfloor : (n : Rat).floor = n := Rat.floor_intCast n
  unfold truncated
  rw [hfloor, if_pos (by exact_mod_cast Nat.zero_le n)]

theorem literal_iff {n : Nat} {x : JsonScalar} : x.literal n = true ↔ x = .integer n ∨ x = .real n := by
  unfold JsonScalar.literal
  rw [Bool.or_eq_true, decide_eq_true_eq, decide_eq_true_eq]

theorem not_literal {n : Nat} {x : JsonScalar} (h : Coerces parseInt n x) : x.literal n = false := by
  rw [← Bool.not_eq_true, literal_iff]
  rintro (rfl | rfl)
  · exact h.1 rfl
  · exact h.1 rfl

theorem getInt_iff {n : Nat} {x : JsonScalar} (hn : n < 2147483647) :
    getInt parseInt x = .ok (n : Int) ↔ x.literal n = true ∨ Coerces parseInt n x := by
  rw [literal_iff]
  cases x with
  | integer m =>
    simp only [getInt, Coerces, JsonScalar.integer.injEq, reduceCtorEq, or_false]
    split
    · rename_i hm
      rw [Except.ok.injEq, Int.bmod_def]
      split <;> omega
    · unfold saturated
      rw [Except.ok.injEq]
      omega
  | real q =>
    have hself := truncated_natCast n
    simp only [getInt, Coerces, JsonScalar.real.injEq, reduceCtorEq, false_or, Except.ok.injEq]
    have hsaturated : saturated (truncated q) = n ↔ truncated q = n := by
      unfold saturated
      omega
    rw [hsaturated]
    constructor
    · exact fun h => (Classical.em (q = n)).imp id fun hq => ⟨hq, h⟩
    · rintro (rfl | ⟨-, h⟩)
      · exact hself
      · exact h
  | text s =>
    simp only [getInt, Coerces, reduceCtorEq, false_or]
    cases parseInt s with
    | none => simp
    | some m => simp
  | other => simp [getInt, Coerces]

theorem sameKeys_self (keys : List String) : sameKeys keys keys = true := by
  have hall : keys.all (keys.contains ·) = true := List.all_eq_true.mpr fun _ hk => List.contains_iff_mem.mpr hk
  rw [sameKeys, hall]
  rfl

theorem schema_iff : recoveryPacketV2JsonSchema p = true ↔
    ∃ kdf, Shaped p kdf ∧ ∀ x ∈ numbers p kdf, x.2.literal x.1 = true := by
  unfold recoveryPacketV2JsonSchema
  simp only [Bool.and_eq_true, decide_eq_true_eq, Option.any_eq_true]
  constructor
  · rintro ⟨⟨⟨⟨⟨hkeys, hversion⟩, halg⟩, kdf, hkdf, ⟨⟨⟨⟨hkdfKeys, hkdfAlg⟩, hsalt⟩, hmemory⟩, hiterations⟩, hparallelism⟩,
      hnonce⟩, hciphertext⟩
    refine ⟨kdf, ⟨hkeys, halg, hkdf, hkdfKeys, hkdfAlg, hsalt, hnonce, hciphertext⟩, ?_⟩
    simp only [numbers, List.forall_mem_cons, List.not_mem_nil, false_implies, implies_true, and_true]
    exact ⟨hversion, hmemory, hiterations, hparallelism⟩
  · rintro ⟨kdf, h, hnumbers⟩
    simp only [numbers, List.forall_mem_cons, List.not_mem_nil, false_implies, implies_true, and_true] at hnumbers
    obtain ⟨hversion, hmemory, hiterations, hparallelism⟩ := hnumbers
    exact ⟨⟨⟨⟨⟨h.keys, hversion⟩, h.alg⟩, kdf, h.object,
      ⟨⟨⟨⟨h.kdfKeys, h.kdfAlg⟩, h.salt⟩, hmemory⟩, hiterations⟩, hparallelism⟩, h.nonce⟩, h.ciphertext⟩

theorem decode_ok (h : decodeRecoveryPacketV2Json parseInt p = .ok raw) : p.chars ≤ 4096 ∧ Encodes p raw ∧
    ∃ kdf, Shaped p kdf ∧ ∀ x ∈ numbers p kdf, x.2.literal x.1 = true ∨ Coerces parseInt x.1 x.2 := by
  have hnumber {n : Nat} {x : JsonScalar} {m : Int} (hx : getInt parseInt x = .ok m) (hm : decide (m = n) = true)
      (hn : n < 2147483647) : x.literal n = true ∨ Coerces parseInt n x := by
    rw [of_decide_eq_true hm] at hx
    exact (getInt_iff hn).mp hx
  -- the checks in the reader's order, each of which passed
  obtain ⟨_, hchars, h⟩ := except_bind_ok h
  obtain ⟨_, hkeys, h⟩ := except_bind_ok h
  obtain ⟨version, hversion, h⟩ := except_bind_ok h
  obtain ⟨_, hversionIs, h⟩ := except_bind_ok h
  obtain ⟨_, halg, h⟩ := except_bind_ok h
  cases hkdf : p.kdf with
  | none =>
    rw [hkdf] at h
    cases h
  | some kdf =>
    rw [hkdf] at h
    obtain ⟨_, hkdfKeys, h⟩ := except_bind_ok h
    obtain ⟨_, hkdfAlg, h⟩ := except_bind_ok h
    obtain ⟨memoryKib, hmemory, h⟩ := except_bind_ok h
    obtain ⟨_, hmemoryIs, h⟩ := except_bind_ok h
    obtain ⟨iterations, hiterations, h⟩ := except_bind_ok h
    obtain ⟨_, hiterationsIs, h⟩ := except_bind_ok h
    obtain ⟨parallelism, hparallelism, h⟩ := except_bind_ok h
    obtain ⟨_, hparallelismIs, h⟩ := except_bind_ok h
    obtain ⟨salt, hsalt, h⟩ := except_bind_ok h
    obtain ⟨nonce, hnonce, h⟩ := except_bind_ok h
    obtain ⟨ciphertext, hciphertext, h⟩ := except_bind_ok h
    obtain ⟨_, hlengths, h⟩ := except_bind_ok h
    have hlengths := require_ok hlengths
    simp only [Bool.and_eq_true, decide_eq_true_eq] at hlengths
    obtain ⟨⟨hsaltLength, hnonceLength⟩, hciphertextLength⟩ := hlengths
    refine ⟨of_decide_eq_true (require_ok hchars), ?_, kdf, ?_, ?_⟩
    · exact ⟨kdf, salt, nonce, ciphertext, hkdf, (Except.ok.inj h).symm,
        ⟨hsaltLength, (decodeCanonicalBase64Url_iff.mp hsalt).2.2⟩,
        ⟨hnonceLength, (decodeCanonicalBase64Url_iff.mp hnonce).2.2⟩,
        ⟨hciphertextLength, (decodeCanonicalBase64Url_iff.mp hciphertext).2.2⟩⟩
    · exact {
        keys := require_ok hkeys
        alg := of_decide_eq_true (require_ok halg)
        object := hkdf
        kdfKeys := require_ok hkdfKeys
        kdfAlg := of_decide_eq_true (require_ok hkdfAlg)
        salt := (canonicalBase64UrlBytes_iff_decodes (by decide)).mpr ⟨salt, hsaltLength, hsalt⟩
        nonce := (canonicalBase64UrlBytes_iff_decodes (by decide)).mpr ⟨nonce, hnonceLength, hnonce⟩
        ciphertext := (canonicalBase64UrlBytes_iff_decodes (by decide)).mpr ⟨ciphertext, hciphertextLength, hciphertext⟩ }
    · simp only [numbers, List.forall_mem_cons, List.not_mem_nil, false_implies, implies_true, and_true]
      exact ⟨hnumber hversion (require_ok hversionIs) (by decide), hnumber hmemory (require_ok hmemoryIs) (by decide),
        hnumber hiterations (require_ok hiterationsIs) (by decide),
        hnumber hparallelism (require_ok hparallelismIs) (by decide)⟩

theorem decode_of {kdf : RecoveryKdfJson} (hchars : p.chars ≤ 4096) (h : Shaped p kdf)
    (hnumbers : ∀ x ∈ numbers p kdf, x.2.literal x.1 = true ∨ Coerces parseInt x.1 x.2) :
    ∃ raw, decodeRecoveryPacketV2Json parseInt p = .ok raw ∧ Encodes p raw := by
  simp only [numbers, List.forall_mem_cons, List.not_mem_nil, false_implies, implies_true, and_true] at hnumbers
  obtain ⟨hversion, hmemory, hiterations, hparallelism⟩ := hnumbers
  obtain ⟨salt, hsaltLength, hsalt⟩ := (canonicalBase64UrlBytes_iff_decodes (by decide)).mp h.salt
  obtain ⟨nonce, hnonceLength, hnonce⟩ := (canonicalBase64UrlBytes_iff_decodes (by decide)).mp h.nonce
  obtain ⟨ciphertext, hciphertextLength, hciphertext⟩ :=
    (canonicalBase64UrlBytes_iff_decodes (by decide)).mp h.ciphertext
  refine ⟨salt ++ nonce ++ ciphertext, ?_, kdf, salt, nonce, ciphertext, h.object, rfl,
    ⟨hsaltLength, (decodeCanonicalBase64Url_iff.mp hsalt).2.2⟩,
    ⟨hnonceLength, (decodeCanonicalBase64Url_iff.mp hnonce).2.2⟩,
    ⟨hciphertextLength, (decodeCanonicalBase64Url_iff.mp hciphertext).2.2⟩⟩
  unfold decodeRecoveryPacketV2Json
  simp only [hchars, h.keys, h.alg, h.object, h.kdfKeys, h.kdfAlg, (getInt_iff (by decide)).mpr hversion,
    (getInt_iff (by decide)).mpr hmemory, (getInt_iff (by decide)).mpr hiterations,
    (getInt_iff (by decide)).mpr hparallelism, hsalt, hnonce, hciphertext, hsaltLength, hnonceLength,
    hciphertextLength, decide_true, Bool.and_self, require_true, ok_bind]
  rfl

theorem encode_injective {b b' : Bytes} (h : encodeCanonicalBase64Url b = encodeCanonicalBase64Url b') : b = b' := by
  rw [← bytesIn_encode (b := b), h, bytesIn_encode]

theorem Encodes.unique {raw' : Bytes} (h : Encodes p raw) (h' : Encodes p raw') : raw = raw' := by
  obtain ⟨kdf, salt, nonce, ciphertext, hkdf, rfl, ⟨-, hsalt⟩, ⟨-, hnonce⟩, ⟨-, hciphertext⟩⟩ := h
  obtain ⟨kdf', salt', nonce', ciphertext', hkdf', rfl, ⟨-, hsalt'⟩, ⟨-, hnonce'⟩, ⟨-, hciphertext'⟩⟩ := h'
  obtain rfl : kdf = kdf' := Option.some.inj (hkdf.symm.trans hkdf')
  rw [encode_injective (hsalt.trans hsalt'.symm), encode_injective (hnonce.trans hnonce'.symm),
    encode_injective (hciphertext.trans hciphertext'.symm)]

theorem Encodes.length (h : Encodes p raw) : raw.length = RECOVERY_V2_PACKET_BYTES := by
  obtain ⟨kdf, salt, nonce, ciphertext, -, rfl, ⟨hsalt, -⟩, ⟨hnonce, -⟩, ⟨hciphertext, -⟩⟩ := h
  rw [List.length_append, List.length_append, hsalt, hnonce, hciphertext]
  rfl

/-! ## Writing the JSON -/

/-- A literal is measured by its characters. -/
theorem length_le {chars : List Char} {n : Nat} (h : chars.length ≤ n) : (String.ofList chars).length ≤ n := by
  rw [String.length_ofList]
  exact h

theorem packetText_fits {salt nonce ciphertext : Bytes} (hsalt : salt.length = 16) (hnonce : nonce.length = 24)
    (hciphertext : ciphertext.length = 81) :
    (packetText (androidEncode salt) (androidEncode nonce) (androidEncode ciphertext)).length ≤ 2000 := by
  have hchars {b : Bytes} : (androidEncode b).length = (b.length * 8 + 5) / 6 := by
    rw [androidEncode_eq, ← String.length_toList, length_encode]
  have htexts : ("\x7b\"version\":2,\"alg\":\"XCHACHA20_POLY1305\",\"kdf\":\x7b\"alg\":\"ARGON2ID_V13\",\"salt\":\"" ++
      "\",\"memoryKib\":65536,\"iterations\":3,\"parallelism\":4\x7d,\"nonce\":\"" ++ "\",\"ciphertext\":\"" ++
      "\"\x7d").length ≤ 100 + 100 + 100 + 100 := by
    rw [String.length_append, String.length_append, String.length_append]
    exact Nat.add_le_add (Nat.add_le_add (Nat.add_le_add (length_le (by decide)) (length_le (by decide)))
      (length_le (by decide))) (length_le (by decide))
  unfold packetText
  simp only [String.length_append, hchars, hsalt, hnonce, hciphertext] at htexts ⊢
  omega

theorem encodes_raw (h : encodeRecoveryPacketV2 raw = .ok p) : raw.length = RECOVERY_V2_PACKET_BYTES ∧ Encodes p raw ∧
    p.chars ≤ 4096 ∧ ∃ kdf, Shaped p kdf ∧ ∀ x ∈ numbers p kdf, x.2.literal x.1 = true := by
  obtain ⟨_, hlength, h⟩ := except_bind_ok h
  have hlength : raw.length = 121 := of_decide_eq_true (require_ok hlength)
  obtain rfl := Except.ok.inj h
  have hsalt : (raw.take 16).length = 16 := by
    rw [List.length_take]
    omega
  have hnonce : ((raw.drop 16).take 24).length = 24 := by
    rw [List.length_take, List.length_drop]
    omega
  have hciphertext : (raw.drop 40).length = 81 := by
    rw [List.length_drop]
    omega
  have hsplit : raw = raw.take 16 ++ (raw.drop 16).take 24 ++ raw.drop 40 := by
    have hrest := List.take_append_drop 24 (raw.drop 16)
    rw [List.drop_drop] at hrest
    rw [List.append_assoc, hrest, List.take_append_drop]
  refine ⟨hlength, ⟨_, raw.take 16, (raw.drop 16).take 24, raw.drop 40, rfl, hsplit, ⟨hsalt, ?_⟩, ⟨hnonce, ?_⟩,
    ⟨hciphertext, ?_⟩⟩, ?_, _, ⟨?_, rfl, rfl, ?_, rfl, ?_, ?_, ?_⟩, ?_⟩
  · exact androidEncode_eq.symm
  · exact androidEncode_eq.symm
  · exact androidEncode_eq.symm
  · dsimp only
    exact Nat.le_trans (packetText_fits hsalt hnonce hciphertext) (by decide)
  · exact sameKeys_self _
  · exact sameKeys_self _
  · exact (canonicalBase64UrlBytes_iff (by decide)).mpr ⟨_, hsalt, androidEncode_eq.symm⟩
  · exact (canonicalBase64UrlBytes_iff (by decide)).mpr ⟨_, hnonce, androidEncode_eq.symm⟩
  · exact (canonicalBase64UrlBytes_iff (by decide)).mpr ⟨_, hciphertext, androidEncode_eq.symm⟩
  · simp only [numbers, List.forall_mem_cons, List.not_mem_nil, false_implies, implies_true, and_true]
    exact ⟨literal_iff.mpr (.inl rfl), literal_iff.mpr (.inl rfl), literal_iff.mpr (.inl rfl),
      literal_iff.mpr (.inl rfl)⟩

theorem encode_eq (h : raw.length = RECOVERY_V2_PACKET_BYTES) : ∃ p, encodeRecoveryPacketV2 raw = .ok p := by
  unfold encodeRecoveryPacketV2
  rw [decide_eq_true h]
  exact ⟨_, rfl⟩

theorem decode_encode (h : encodeRecoveryPacketV2 raw = .ok p) : recoveryPacketV2JsonSchema p = true ∧
    decodeRecoveryPacketV2Json parseInt p = .ok raw := by
  obtain ⟨-, hencodes, hchars, kdf, hshaped, hnumbers⟩ := encodes_raw h
  obtain ⟨raw', hdecode, hencodes'⟩ := decode_of hchars hshaped fun x hx => .inl (hnumbers x hx)
  rw [hencodes.unique hencodes']
  exact ⟨schema_iff.mpr ⟨kdf, hshaped, hnumbers⟩, hdecode⟩

theorem schema_decodes (hchars : p.chars ≤ 4096) (h : recoveryPacketV2JsonSchema p = true) :
    ∃ raw, decodeRecoveryPacketV2Json parseInt p = .ok raw ∧ Encodes p raw := by
  obtain ⟨kdf, hshaped, hnumbers⟩ := schema_iff.mp h
  exact decode_of hchars hshaped fun x hx => .inl (hnumbers x hx)

/-- What is decoded outside of the schema has a number that was brought to the required one. -/
theorem decodes_in_schema_iff : (∀ raw, decodeRecoveryPacketV2Json parseInt p = .ok raw →
    recoveryPacketV2JsonSchema p = true) ↔ ¬ Coerced parseInt p := by
  constructor
  · rintro hall ⟨hchars, kdf, hshaped, hnumbers, x, hx, hcoerces⟩
    obtain ⟨raw, hdecode, -⟩ := decode_of hchars hshaped hnumbers
    obtain ⟨kdf', hshaped', hliteral⟩ := schema_iff.mp (hall raw hdecode)
    obtain rfl : kdf = kdf' := Option.some.inj (hshaped.object.symm.trans hshaped'.object)
    exact absurd (hliteral x hx) (by rw [not_literal hcoerces]; decide)
  · intro hnot raw hdecode
    obtain ⟨hchars, -, kdf, hshaped, hnumbers⟩ := decode_ok hdecode
    refine schema_iff.mpr ⟨kdf, hshaped, fun x hx => (hnumbers x hx).resolve_right fun hcoerces => ?_⟩
    exact hnot ⟨hchars, kdf, hshaped, hnumbers, x, hx, hcoerces⟩

/-! ## Sessions -/

structure OpenSession (r : Registry) (sessionHandle : Handle) (now : Native.Instant) (vaultKey : Bytes) : Prop where
  named : sessionHandle.isEmpty = false
  sound : r.poisoned = false
  entry : ∃ lastUsed, (Native.removeExpiredSessions now r).sessions.get? sessionHandle = some ⟨vaultKey, lastUsed⟩
  length : vaultKey.length = KEY_LEN

theorem mobilePrepareRecoveryRotation_eq {r : Registry} {sessionHandle : Handle} {now : Native.Instant} (hK : K.Ideal)
    (h : OpenSession r sessionHandle now vaultKey) :
    (mobilePrepareRecoveryRotation K sessionHandle drawn now r).2 = .ok (drawn.rotation K vaultKey) := by
  obtain ⟨lastUsed, hentry⟩ := h.entry
  unfold mobilePrepareRecoveryRotation Native.withSession
  rw [h.named, h.sound]
  simp only [Bool.false_eq_true, if_false, hentry]
  exact prepareRecovery_eq hK h.length

theorem mobileOpenRecoveryV2_eq {r : Registry} {sessionHandle proofHandle : Handle} {now later : Native.Instant}
    (hK : K.Ideal) (hkey : vaultKey.length = KEY_LEN) (hsound : r.poisoned = false) :
    (Native.mobileOpenRecoveryV2 K.core (drawn.rotation K vaultKey).recoveryCode
        (drawn.rotation K vaultKey).encryptedRecoveryPacket sessionHandle proofHandle now later r).2 =
      .ok ⟨sessionHandle, proofHandle, (drawn.rotation K vaultKey).signingPublicKey⟩ ∧
    (Native.mobileOpenRecoveryV2 K.core (drawn.rotation K vaultKey).recoveryCode
        (drawn.rotation K vaultKey).encryptedRecoveryPacket sessionHandle proofHandle now later r).1.sessions.get?
      sessionHandle = some ⟨vaultKey, now⟩ := by
  have hopen : Native.openRecoveryPacket K.core (drawn.rotation K vaultKey).recoveryCode
      (drawn.rotation K vaultKey).encryptedRecoveryPacket = .ok (vaultKey, drawn.signingSeed K vaultKey) :=
    openRecoveryPacket_eq hK hkey
  unfold Native.mobileOpenRecoveryV2 Native.insertSession
  simp only [hopen, hsound, Bool.false_eq_true, if_false]
  refine ⟨rfl, ?_⟩
  show ((Native.removeExpiredSessions now r).sessions.set sessionHandle ⟨vaultKey, now⟩).get? sessionHandle = _
  rw [Table.get?_set, if_pos rfl]

theorem foreign_length_refused (h : raw.length ≠ RECOVERY_V2_PACKET_BYTES) :
    (∀ p, encodeRecoveryPacketV2 raw ≠ .ok p) ∧
      ∀ code sessionHandle proofHandle now later r opened,
        (Native.mobileOpenRecoveryV2 K.core code raw sessionHandle proofHandle now later r).2 ≠ .ok opened := by
  refine ⟨fun p hp => h (encodes_raw hp).1, fun code sessionHandle proofHandle now later r opened hopened => ?_⟩
  have hrefused : ∀ key, Native.openRecoveryPacket K.core code raw ≠ .ok key := by
    intro key hkey
    obtain ⟨recoveryCode, -, hkey⟩ := except_bind_ok hkey
    have hlength : raw.length ≠ RECOVERY_V2_PACKET_LEN := h
    rw [if_pos hlength] at hkey
    cases hkey
  unfold Native.mobileOpenRecoveryV2 at hopened
  split at hopened
  · cases hopened
  · rename_i hkey
    exact hrefused _ hkey

/-! ## Packets across both languages -/

theorem recovery_packet_codecs (hK : K.Ideal) :
    (∀ r sessionHandle now vaultKey drawn, OpenSession r sessionHandle now vaultKey → ∃ rotation json,
      (mobilePrepareRecoveryRotation K sessionHandle drawn now r).2 = .ok rotation ∧
      encodeRecoveryPacketV2 rotation.encryptedRecoveryPacket = .ok json ∧
      recoveryPacketV2JsonSchema json = true ∧
      decodeRecoveryPacketV2Json parseInt json = .ok rotation.encryptedRecoveryPacket ∧
      ∀ r' sessionHandle' proofHandle now' later, r'.poisoned = false →
        (Native.mobileOpenRecoveryV2 K.core rotation.recoveryCode rotation.encryptedRecoveryPacket sessionHandle'
          proofHandle now' later r').2 = .ok ⟨sessionHandle', proofHandle, rotation.signingPublicKey⟩ ∧
        (Native.mobileOpenRecoveryV2 K.core rotation.recoveryCode rotation.encryptedRecoveryPacket sessionHandle'
          proofHandle now' later r').1.sessions.get? sessionHandle' = some ⟨vaultKey, now'⟩) ∧
      (∀ p, p.chars ≤ 4096 → recoveryPacketV2JsonSchema p = true →
        ∃ raw, decodeRecoveryPacketV2Json parseInt p = .ok raw ∧ raw.length = RECOVERY_V2_PACKET_BYTES ∧ Encodes p raw) ∧
      (∀ raw, raw.length ≠ RECOVERY_V2_PACKET_BYTES → (∀ p, encodeRecoveryPacketV2 raw ≠ .ok p) ∧
        ∀ code sessionHandle proofHandle now later r opened,
          (Native.mobileOpenRecoveryV2 K.core code raw sessionHandle proofHandle now later r).2 ≠ .ok opened) ∧
      ∀ p, (∀ raw, decodeRecoveryPacketV2Json parseInt p = .ok raw → recoveryPacketV2JsonSchema p = true) ↔
        ¬ Coerced parseInt p := by
  refine ⟨fun r sessionHandle now vaultKey drawn h => ?_, fun p hchars hschema => ?_,
    fun raw hlength => foreign_length_refused hlength, fun p => decodes_in_schema_iff⟩
  · obtain ⟨json, hjson⟩ := encode_eq
      (show (drawn.rotation K vaultKey).encryptedRecoveryPacket.length = RECOVERY_V2_PACKET_BYTES from
        length_packet hK h.length)
    obtain ⟨hschema, hdecode⟩ := decode_encode hjson
    exact ⟨drawn.rotation K vaultKey, json, mobilePrepareRecoveryRotation_eq hK h, hjson, hschema, hdecode,
      fun r' sessionHandle' proofHandle now' later hsound => mobileOpenRecoveryV2_eq hK h.length hsound⟩
  · obtain ⟨raw, hdecode, hencodes⟩ := schema_decodes hchars hschema
    exact ⟨raw, hdecode, hencodes.length, hencodes⟩

end

def sampleCrypto : Crypto where
  argon2id _ _ := List.replicate 32 3
  hkdfSha256 salt key _ := (salt.zipWith (· ^^^ ·) key).take 32
  encrypt _ _ msg _ := msg ++ List.replicate 16 0
  decrypt _ _ ciphertext _ := some (ciphertext.take (ciphertext.length - 16))
  verifyingKey seed := seed.reverse
  sign seed message := seed ++ message

theorem sampleCrypto_ideal : sampleCrypto.Ideal where
  length_argon2id _ _ := rfl
  length_encrypt _ _ msg _ _ _ := by
    show (msg ++ List.replicate 16 0).length = _
    rw [List.length_append, List.length_replicate]
    rfl
  decrypt_encrypt _ _ msg _ _ _ := by
    show some ((msg ++ List.replicate 16 0).take ((msg ++ List.replicate 16 0).length - 16)) = some msg
    rw [List.length_append, List.length_replicate, Nat.add_sub_cancel, List.take_left]

def sampleDrawn : Drawn := ⟨List.replicate 32 1, List.replicate 16 2, List.replicate 24 3, List.replicate 32 4,
  rfl, rfl, rfl, rfl⟩

def sampleRegistry : Registry := { Registry.empty with sessions := (∅ : Table Handle _).set "vault" ⟨List.replicate 32 5, 0⟩ }

theorem sampleRegistry_open : OpenSession sampleRegistry "vault" 0 (List.replicate 32 5) where
  named := rfl
  sound := rfl
  entry := ⟨0, by decide +kernel⟩
  length := rfl

theorem recovery_packet_codecs_sample : ∃ rotation json,
    (mobilePrepareRecoveryRotation sampleCrypto "vault" sampleDrawn 0 sampleRegistry).2 = .ok rotation ∧
    encodeRecoveryPacketV2 rotation.encryptedRecoveryPacket = .ok json ∧ recoveryPacketV2JsonSchema json = true ∧
    decodeRecoveryPacketV2Json (fun _ => none) json = .ok rotation.encryptedRecoveryPacket ∧
    (Native.mobileOpenRecoveryV2 sampleCrypto.core rotation.recoveryCode rotation.encryptedRecoveryPacket "opened"
      "proof" 7 8 Registry.empty).2 = .ok ⟨"opened", "proof", rotation.signingPublicKey⟩ := by
  obtain ⟨rotation, json, hrotation, hjson, hschema, hdecode, hopens⟩ :=
    (recovery_packet_codecs sampleCrypto_ideal).1 sampleRegistry "vault" 0 _ sampleDrawn sampleRegistry_open
  exact ⟨rotation, json, hrotation, hjson, hschema, hdecode, (hopens Registry.empty "opened" "proof" 7 8 rfl).1⟩

def foreignVersion : RecoveryPacketJson where
  chars := (packetText (androidEncode (List.replicate 16 2)) (androidEncode (List.replicate 24 3))
    (androidEncode (List.replicate 81 4))).length + 9
  keys := RECOVERY_V2_PACKET_KEYS
  version := .integer 4294967298
  alg := "XCHACHA20_POLY1305"
  kdf := some {
    keys := RECOVERY_V2_KDF_KEYS
    alg := "ARGON2ID_V13"
    salt := androidEncode (List.replicate 16 2)
    memoryKib := .integer 65536
    iterations := .integer 3
    parallelism := .integer 4 }
  nonce := androidEncode (List.replicate 24 3)
  ciphertext := androidEncode (List.replicate 81 4)

theorem foreign_version_accepted : ¬ ∀ p raw, decodeRecoveryPacketV2Json (fun _ => none) p = .ok raw →
    recoveryPacketV2JsonSchema p = true := by
  intro hall
  have hcoerces : Coerces (fun _ => none) 2 foreignVersion.version := ⟨by decide, by decide, by decide, by decide⟩
  have htexts : (packetText (androidEncode (List.replicate 16 2)) (androidEncode (List.replicate 24 3))
      (androidEncode (List.replicate 81 4))).length ≤ 2000 :=
    packetText_fits (List.length_replicate ..) (List.length_replicate ..) (List.length_replicate ..)
  refine decodes_in_schema_iff.mp (hall foreignVersion) ⟨?_, _, ⟨sameKeys_self _, rfl, rfl, sameKeys_self _, rfl,
    (canonicalBase64UrlBytes_iff (by decide)).mpr ⟨_, List.length_replicate .., androidEncode_eq.symm⟩,
    (canonicalBase64UrlBytes_iff (by decide)).mpr ⟨_, List.length_replicate .., androidEncode_eq.symm⟩,
    (canonicalBase64UrlBytes_iff (by decide)).mpr ⟨_, List.length_replicate .., androidEncode_eq.symm⟩⟩, ?_, ?_⟩
  · exact Nat.le_trans (Nat.add_le_add_right htexts 9) (by decide)
  · simp only [numbers, List.forall_mem_cons, List.not_mem_nil, false_implies, implies_true, and_true]
    exact ⟨.inr hcoerces, .inl (literal_iff.mpr (.inl rfl)), .inl (literal_iff.mpr (.inl rfl)),
      .inl (literal_iff.mpr (.inl rfl))⟩
  · exact ⟨_, List.mem_cons_self, hcoerces⟩

end ZeroVault.RecoveryPacket

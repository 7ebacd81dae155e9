import ZeroVault.Base64Url
import ZeroVault.Encodings

/-!
# The bytes that a recovery signs

The transcript puts every field of the request behind its length. Base64url
fields are canonical and text fields are written in UTF-8, so different requests
have different transcripts, but for one thing: the name and the fingerprint of
the device may be any code units, and the encoder replaces the surrogates among
them that stand alone.
-/

namespace ZeroVault.Transcript

open Lib Utf16 Framing

/-! ## The input -/

/-- A string of the language, as JSON can carry it. -/
abbrev CodeUnits := List UInt16

attribute [ext] RecoveryKdf RecoveryPacketV2 CiphertextEnvelope DeviceVaultKeyPacket

/-- The other texts pass a pattern of ASCII characters. -/
@[ext] structure RecoveryFinishDevice where
  id : DeviceId
  name : CodeUnits
  fingerprint : CodeUnits
  publicKey : String
  credential : String
  encryptedVaultKeyPacket : DeviceVaultKeyPacket
deriving DecidableEq, Repr

@[ext] structure RecoveryFinishTranscriptInput where
  recoveryAttemptId : String
  challenge : String
  email : String
  registrationSessionId : String
  registrationRecord : String
  newEncryptedRecoveryPacket : RecoveryPacketV2
  newRecoverySigningPublicKey : String
  device : RecoveryFinishDevice
deriving DecidableEq, Repr

def recoveryDeviceVaultKeyPacketSchema (F : Formats) (packet : DeviceVaultKeyPacket) : Bool :=
  packet.version = 1 && F.uuid packet.recipientDeviceId && canonicalBase64UrlBytes 32 packet.recipientPublicKey &&
    canonicalBase64UrlBytes 32 packet.ephemeralPublicKey && deviceVaultKeyEnvelopeSchema packet.encryptedVaultKey

def recoveryFinishDeviceSchema (F : Formats) (device : RecoveryFinishDevice) : Bool :=
  F.uuid device.id && (1 ≤ device.name.length && device.name.length ≤ 256) &&
    (8 ≤ device.fingerprint.length && device.fingerprint.length ≤ 128) &&
    canonicalBase64UrlBytes 32 device.publicKey && canonicalBase64UrlBytes 32 device.credential &&
    recoveryDeviceVaultKeyPacketSchema F device.encryptedVaultKeyPacket &&
    device.encryptedVaultKeyPacket.recipientDeviceId = device.id &&
    device.encryptedVaultKeyPacket.recipientPublicKey = device.publicKey

def recoveryFinishTranscriptInputSchema (F : Formats) (input : RecoveryFinishTranscriptInput) : Bool :=
  F.uuid input.recoveryAttemptId && F.email input.email && F.uuid input.registrationSessionId &&
    canonicalOpaqueMessageSchema input.registrationRecord && recoveryPacketV2Schema input.newEncryptedRecoveryPacket &&
    recoverySigningPublicKeySchema input.newRecoverySigningPublicKey && recoveryFinishDeviceSchema F input.device &&
    recoveryChallengeSchema input.challenge

/-- `parse`: the value with its email in normal form (`trim().toLowerCase()`). -/
def parse (F : Formats) (normalize : String → String) (input : RecoveryFinishTranscriptInput) :
    Option RecoveryFinishTranscriptInput :=
  let parsed := { input with email := normalize input.email }
  if recoveryFinishTranscriptInputSchema F parsed then some parsed else none

/-! ## The transcript -/

def RECOVERY_FINISH_TRANSCRIPT_START : Bytes := utf8 "zero-vault/recovery-finish/v2\x00".toList

def append (output : Bytes) (raw : Except String Bytes) : Except String Bytes := do
  let raw ← raw
  let output := output ++ (u32be raw.length ++ raw)
  if MAX_RECOVERY_FINISH_TRANSCRIPT_BYTES < output.length then throw "recovery_finish_transcript_too_large"
  pure output

def text (value : String) : Except String Bytes := .ok (utf8 value.toList)

/-- `TextEncoder` on any string. -/
def unitsText (value : CodeUnits) : Except String Bytes := .ok (utf8 (scalars value))

def u32 (value : Nat) : Except String Bytes := .ok (u32be value)

def u8 (value : Nat) : Except String Bytes := .ok [UInt8.ofNat value]

def raws (parsed : RecoveryFinishTranscriptInput) : List (Except String Bytes) :=
  let recovery := parsed.newEncryptedRecoveryPacket
  let device := parsed.device
  let packet := device.encryptedVaultKeyPacket
  [text parsed.recoveryAttemptId, decodeCanonicalBase64Url parsed.challenge, text parsed.email,
    text parsed.registrationSessionId, decodeCanonicalBase64Url parsed.registrationRecord,
    u8 recovery.version, text recovery.alg.text, text recovery.kdf.alg, decodeCanonicalBase64Url recovery.kdf.salt,
    u32 recovery.kdf.memoryKib, u32 recovery.kdf.iterations, u32 recovery.kdf.parallelism,
    decodeCanonicalBase64Url recovery.nonce, decodeCanonicalBase64Url recovery.ciphertext,
    decodeCanonicalBase64Url parsed.newRecoverySigningPublicKey,
    text device.id, unitsText device.name, unitsText device.fingerprint, decodeCanonicalBase64Url device.publicKey,
    decodeCanonicalBase64Url device.credential,
    u8 packet.version, text packet.recipientDeviceId, decodeCanonicalBase64Url packet.recipientPublicKey,
    decodeCanonicalBase64Url packet.ephemeralPublicKey, text packet.encryptedVaultKey.alg.text,
    decodeCanonicalBase64Url packet.encryptedVaultKey.nonce,
    decodeCanonicalBase64Url packet.encryptedVaultKey.ciphertext]

def buildRecoveryFinishTranscript (F : Formats) (normalize : String → String) (input : RecoveryFinishTranscriptInput) :
    Except String Bytes :=
  match parse F normalize input with
  | none => .error "ZodError"
  | some parsed => (raws parsed).foldlM append RECOVERY_FINISH_TRANSCRIPT_START

/-- The length that the transcript would have: every field behind four bytes. -/
def transcriptLength (parsed : RecoveryFinishTranscriptInput) : Nat :=
  RECOVERY_FINISH_TRANSCRIPT_START.length + ((raws parsed).map fun raw => 4 + (raw.toOption.getD []).length).sum

/-- The texts that are not bound to a pattern, without surrogates that stand alone. -/
def RecoveryFinishTranscriptInput.toWellFormed (input : RecoveryFinishTranscriptInput) :
    RecoveryFinishTranscriptInput :=
  { input with
    device := { input.device with
      name := Utf16.toWellFormed input.device.name
      fingerprint := Utf16.toWellFormed input.device.fingerprint } }

/-! ## Appending -/

section
variable {chunks : List Bytes} {output : Bytes}

theorem append_ok (raw : Bytes) : append output (.ok raw) =
    if MAX_RECOVERY_FINISH_TRANSCRIPT_BYTES < (output ++ (u32be raw.length ++ raw)).length then
      .error "recovery_finish_transcript_too_large"
    else .ok (output ++ (u32be raw.length ++ raw)) := rfl

/-- All of it is there at the end, or it was too much at some point. -/
theorem appendAll (chunks : List Bytes) (output : Bytes)
    (hfits : output.length ≤ MAX_RECOVERY_FINISH_TRANSCRIPT_BYTES) :
    (chunks.map .ok).foldlM append output =
      if MAX_RECOVERY_FINISH_TRANSCRIPT_BYTES < (output ++ frames u32be chunks).length then
        .error "recovery_finish_transcript_too_large"
      else .ok (output ++ frames u32be chunks) := by
  induction chunks generalizing output with
  | nil =>
    have hnil : frames u32be [] = [] := rfl
    rw [hnil, List.append_nil, if_neg (Nat.not_lt.mpr hfits)]
    rfl
  | cons raw chunks ih =>
    have hcons : output ++ frames u32be (raw :: chunks) =
        output ++ (u32be raw.length ++ raw) ++ frames u32be chunks := by
      unfold frames
      rw [List.flatMap_cons, ← List.append_assoc]
    rw [List.map_cons, List.foldlM_cons, append_ok, hcons]
    split
    · rename_i hlarge
      rw [if_pos]
      · rfl
      · rw [List.length_append]
        omega
    · rename_i hsmall
      exact ih _ (Nat.not_lt.mp hsmall)

theorem length_start : RECOVERY_FINISH_TRANSCRIPT_START.length = 30 := by decide +kernel

theorem start_fits : RECOVERY_FINISH_TRANSCRIPT_START.length ≤ MAX_RECOVERY_FINISH_TRANSCRIPT_BYTES := by
  rw [length_start]
  decide

end

/-! ## What is accepted can be appended -/

section
variable {F : Formats} {normalize : String → String} {input input' parsed parsed' : RecoveryFinishTranscriptInput}
variable {s s' : String}

theorem canonical_of_bytes {n : Nat} (h : canonicalBase64UrlBytes n s = true) : isCanonicalUnpaddedBase64Url s = true := by
  unfold canonicalBase64UrlBytes at h
  rw [Bool.and_eq_true, Bool.and_eq_true] at h
  exact h.1.2

theorem canonical_of_opaque (h : canonicalOpaqueMessageSchema s = true) : isCanonicalUnpaddedBase64Url s = true := by
  unfold canonicalOpaqueMessageSchema at h
  rw [Bool.and_eq_true, Bool.and_eq_true] at h
  exact h.1.2

structure Canonicals (p : RecoveryFinishTranscriptInput) : Prop where
  challenge : isCanonicalUnpaddedBase64Url p.challenge = true
  registrationRecord : isCanonicalUnpaddedBase64Url p.registrationRecord = true
  salt : isCanonicalUnpaddedBase64Url p.newEncryptedRecoveryPacket.kdf.salt = true
  nonce : isCanonicalUnpaddedBase64Url p.newEncryptedRecoveryPacket.nonce = true
  ciphertext : isCanonicalUnpaddedBase64Url p.newEncryptedRecoveryPacket.ciphertext = true
  signingKey : isCanonicalUnpaddedBase64Url p.newRecoverySigningPublicKey = true
  publicKey : isCanonicalUnpaddedBase64Url p.device.publicKey = true
  credential : isCanonicalUnpaddedBase64Url p.device.credential = true
  recipientKey : isCanonicalUnpaddedBase64Url p.device.encryptedVaultKeyPacket.recipientPublicKey = true
  ephemeralKey : isCanonicalUnpaddedBase64Url p.device.encryptedVaultKeyPacket.ephemeralPublicKey = true
  keyNonce : isCanonicalUnpaddedBase64Url p.device.encryptedVaultKeyPacket.encryptedVaultKey.nonce = true
  keyCiphertext : isCanonicalUnpaddedBase64Url p.device.encryptedVaultKeyPacket.encryptedVaultKey.ciphertext = true

structure Literals (p : RecoveryFinishTranscriptInput) : Prop where
  version : p.newEncryptedRecoveryPacket.version = 2
  alg : p.newEncryptedRecoveryPacket.alg = .xchacha20Poly1305
  kdfAlg : p.newEncryptedRecoveryPacket.kdf.alg = "ARGON2ID_V13"
  memoryKib : p.newEncryptedRecoveryPacket.kdf.memoryKib = 65536
  iterations : p.newEncryptedRecoveryPacket.kdf.iterations = 3
  parallelism : p.newEncryptedRecoveryPacket.kdf.parallelism = 4
  packetVersion : p.device.encryptedVaultKeyPacket.version = 1
  keyAlg : p.device.encryptedVaultKeyPacket.encryptedVaultKey.alg = .xchacha20Poly1305
  aad : p.device.encryptedVaultKeyPacket.encryptedVaultKey.aad = none

theorem schema_fields (h : recoveryFinishTranscriptInputSchema F parsed = true) :
    Canonicals parsed ∧ Literals parsed := by
  unfold recoveryFinishTranscriptInputSchema recoveryFinishDeviceSchema recoveryDeviceVaultKeyPacketSchema
    deviceVaultKeyEnvelopeSchema recoveryPacketV2Schema nonceSchema recoverySigningPublicKeySchema
    recoveryChallengeSchema at h
  simp only [Bool.and_eq_true, decide_eq_true_eq, beq_iff_eq, Option.isNone_iff_eq_none, and_assoc] at h
  obtain ⟨-, -, -, hrecord, hversion, halg, hkdf, hsalt, hmemory, hiterations, hparallelism, hnonce, hciphertext,
    hsigning, -, -, -, -, -, hpublic, hcredential, hpacket, -, hrecipient, hephemeral, hkeyAlg, hkeyNonce, hnonceBytes,
    hkeyText, htextBytes, haad, -, -, hchallenge⟩ := h
  refine ⟨⟨canonical_of_bytes hchallenge, canonical_of_opaque hrecord, canonical_of_bytes hsalt,
    canonical_of_bytes hnonce, canonical_of_bytes hciphertext, canonical_of_bytes hsigning, canonical_of_bytes hpublic,
    canonical_of_bytes hcredential, canonical_of_bytes hrecipient, canonical_of_bytes hephemeral, ?_, ?_⟩,
    ⟨hversion, halg, hkdf, hmemory, hiterations, hparallelism, hpacket, hkeyAlg, haad⟩⟩
  · exact canonical_of_whole_groups (k := 8) hkeyNonce hnonceBytes
  · exact canonical_of_whole_groups (k := 16) hkeyText htextBytes

theorem parse_some (h : parse F normalize input = some parsed) :
    recoveryFinishTranscriptInputSchema F parsed = true := by
  unfold parse at h
  dsimp only at h
  split at h
  · rename_i hs
    cases h
    exact hs
  · cases h

theorem decode_ok (h : isCanonicalUnpaddedBase64Url s = true) : ∃ b, decodeCanonicalBase64Url s = .ok b :=
  ⟨_, decodeCanonicalBase64Url_eq h⟩

theorem raws_ok (h : recoveryFinishTranscriptInputSchema F parsed = true) :
    ∃ chunks : List Bytes, raws parsed = chunks.map .ok := by
  obtain ⟨hc, -⟩ := schema_fields h
  have hall : ∀ raw ∈ raws parsed, ∃ b, raw = .ok b := by
    unfold raws
    simp only [List.forall_mem_cons, List.not_mem_nil, false_implies, implies_true, and_true]
    exact ⟨⟨_, rfl⟩, decode_ok hc.challenge, ⟨_, rfl⟩, ⟨_, rfl⟩, decode_ok hc.registrationRecord, ⟨_, rfl⟩, ⟨_, rfl⟩,
      ⟨_, rfl⟩, decode_ok hc.salt, ⟨_, rfl⟩, ⟨_, rfl⟩, ⟨_, rfl⟩, decode_ok hc.nonce, decode_ok hc.ciphertext,
      decode_ok hc.signingKey, ⟨_, rfl⟩, ⟨_, rfl⟩, ⟨_, rfl⟩, decode_ok hc.publicKey, decode_ok hc.credential, ⟨_, rfl⟩,
      ⟨_, rfl⟩, decode_ok hc.recipientKey, decode_ok hc.ephemeralKey, ⟨_, rfl⟩, decode_ok hc.keyNonce,
      decode_ok hc.keyCiphertext⟩
  generalize raws parsed = l at hall
  induction l with
  | nil => exact ⟨[], rfl⟩
  | cons raw l ih =>
    rw [List.forall_mem_cons] at hall
    obtain ⟨⟨b, rfl⟩, hl⟩ := hall
    obtain ⟨chunks, rfl⟩ := ih hl
    exact ⟨b :: chunks, rfl⟩

theorem transcriptLength_eq {lengths : List Nat}
    (h : (raws parsed).map (fun raw => 4 + (raw.toOption.getD []).length) = lengths) :
    transcriptLength parsed = RECOVERY_FINISH_TRANSCRIPT_START.length + lengths.sum := by
  unfold transcriptLength
  rw [h]

theorem build_of_parse (h : parse F normalize input = some parsed) :
    buildRecoveryFinishTranscript F normalize input = (raws parsed).foldlM append RECOVERY_FINISH_TRANSCRIPT_START := by
  unfold buildRecoveryFinishTranscript
  rw [h]

theorem length_eq {chunks : List Bytes} (hr : raws parsed = chunks.map .ok) :
    transcriptLength parsed = (RECOVERY_FINISH_TRANSCRIPT_START ++ frames u32be chunks).length := by
  unfold transcriptLength
  rw [hr, List.map_map, List.length_append, length_frames length_u32be]
  rfl

theorem build_eq (h : parse F normalize input = some parsed) : ∃ chunks : List Bytes, raws parsed = chunks.map .ok ∧
    buildRecoveryFinishTranscript F normalize input =
      if MAX_RECOVERY_FINISH_TRANSCRIPT_BYTES < transcriptLength parsed then
        .error "recovery_finish_transcript_too_large"
      else .ok (RECOVERY_FINISH_TRANSCRIPT_START ++ frames u32be chunks) := by
  obtain ⟨chunks, hr⟩ := raws_ok (parse_some h)
  refine ⟨chunks, hr, ?_⟩
  rw [build_of_parse h, length_eq hr, ← appendAll chunks _ start_fits, ← hr]

/-! ## Different requests -/

theorem text_injective {v v' : String} (h : text v = text v') : v = v' :=
  String.toList_injective (utf8_injective (Except.ok.inj h))

theorem unitsText_eq_iff {v v' : CodeUnits} : unitsText v = unitsText v' ↔ Utf16.toWellFormed v = Utf16.toWellFormed v' := by
  rw [toWellFormed_eq_iff]
  constructor
  · exact fun h => utf8_injective (Except.ok.inj h)
  · intro h
    unfold unitsText
    rw [h]

theorem raws_toWellFormed (p : RecoveryFinishTranscriptInput) : raws p.toWellFormed = raws p := by
  have hsame (v : CodeUnits) : unitsText (Utf16.toWellFormed v) = unitsText v := by
    rw [unitsText_eq_iff, toWellFormed_eq_iff]
    exact scalars_flatMap_units _
  unfold raws RecoveryFinishTranscriptInput.toWellFormed
  dsimp only
  rw [hsame, hsame]

theorem base64_injective (hs : isCanonicalUnpaddedBase64Url s = true)
    (h : decodeCanonicalBase64Url s = decodeCanonicalBase64Url s') : s = s' :=
  decode_injective (decodeCanonicalBase64Url_eq hs) (h.symm.trans (decodeCanonicalBase64Url_eq hs))

/-- Inputs with the same fields appended are the same but for surrogates that stand alone. -/
theorem raws_injective (h : recoveryFinishTranscriptInputSchema F parsed = true)
    (h' : recoveryFinishTranscriptInputSchema F parsed' = true) :
    raws parsed = raws parsed' ↔ parsed.toWellFormed = parsed'.toWellFormed := by
  constructor
  · intro hr
    obtain ⟨hc, hl⟩ := schema_fields h
    obtain ⟨-, hl'⟩ := schema_fields h'
    unfold raws at hr
    simp only [List.cons.injEq, and_true] at hr
    obtain ⟨hattempt, hchallenge, hemail, hsession, hrecord, -, -, -, hsalt, -, -, -, hnonce, hciphertext, hsigning,
      hid, hname, hfingerprint, hpublic, hcredential, -, hrecipientId, hrecipient, hephemeral, -, hkeyNonce,
      hkeyText⟩ := hr
    have hkdf := RecoveryKdf.ext (hl.kdfAlg.trans hl'.kdfAlg.symm) (base64_injective hc.salt hsalt)
      (hl.memoryKib.trans hl'.memoryKib.symm) (hl.iterations.trans hl'.iterations.symm)
      (hl.parallelism.trans hl'.parallelism.symm)
    have hrecovery := RecoveryPacketV2.ext (hl.version.trans hl'.version.symm) (hl.alg.trans hl'.alg.symm) hkdf
      (base64_injective hc.nonce hnonce) (base64_injective hc.ciphertext hciphertext)
    have hkey := CiphertextEnvelope.ext (hl.keyAlg.trans hl'.keyAlg.symm) (base64_injective hc.keyNonce hkeyNonce)
      (base64_injective hc.keyCiphertext hkeyText) (hl.aad.trans hl'.aad.symm)
    have hpacket := DeviceVaultKeyPacket.ext (hl.packetVersion.trans hl'.packetVersion.symm)
      (text_injective hrecipientId) (base64_injective hc.recipientKey hrecipient)
      (base64_injective hc.ephemeralKey hephemeral) hkey
    exact RecoveryFinishTranscriptInput.ext (text_injective hattempt) (base64_injective hc.challenge hchallenge)
      (text_injective hemail) (text_injective hsession) (base64_injective hc.registrationRecord hrecord) hrecovery
      (base64_injective hc.signingKey hsigning)
      (RecoveryFinishDevice.ext (text_injective hid) (unitsText_eq_iff.mp hname) (unitsText_eq_iff.mp hfingerprint)
        (base64_injective hc.publicKey hpublic) (base64_injective hc.credential hcredential) hpacket)
  · intro he
    rw [← raws_toWellFormed parsed, he, raws_toWellFormed]

/-- The transcripts that are returned for accepted inputs differ when these
differ, surrogates that stand alone aside. -/
theorem transcript_ne_iff {transcript transcript' : Bytes} (hp : parse F normalize input = some parsed)
    (hp' : parse F normalize input' = some parsed')
    (hb : buildRecoveryFinishTranscript F normalize input = .ok transcript)
    (hb' : buildRecoveryFinishTranscript F normalize input' = .ok transcript') :
    transcript ≠ transcript' ↔ parsed.toWellFormed ≠ parsed'.toWellFormed := by
  obtain ⟨chunks, hr, hbuild⟩ := build_eq hp
  obtain ⟨chunks', hr', hbuild'⟩ := build_eq hp'
  rw [hb] at hbuild
  rw [hb'] at hbuild'
  rw [ne_eq, ne_eq, not_iff_not, ← raws_injective (parse_some hp) (parse_some hp'), hr, hr']
  split at hbuild
  · cases hbuild
  split at hbuild'
  · cases hbuild'
  rename_i hsmall hsmall'
  cases hbuild
  cases hbuild'
  have hbounded {chunks : List Bytes} {p : RecoveryFinishTranscriptInput} (hr : raws p = chunks.map .ok)
      (hsmall : ¬ MAX_RECOVERY_FINISH_TRANSCRIPT_BYTES < transcriptLength p) :
      ∀ chunk ∈ chunks, chunk.length < 4294967296 := by
    intro chunk hchunk
    have hlength : chunk.length ≤ (frames u32be chunks).length := length_le_frames hchunk
    rw [length_eq hr, List.length_append] at hsmall
    unfold MAX_RECOVERY_FINISH_TRANSCRIPT_BYTES at hsmall
    omega
  constructor
  · intro he
    rw [frames_injective length_u32be (by decide) u32be_injective (hbounded hr hsmall) (hbounded hr' hsmall')
      (List.append_cancel_left he)]
  · intro he
    rw [List.map_injective_iff.mpr (fun _ _ h => Except.ok.inj h) he]

/-- An accepted input has a transcript or is too large for one. -/
theorem build_answers (hp : parse F normalize input = some parsed) :
    (∃ transcript, buildRecoveryFinishTranscript F normalize input = .ok transcript) ∨
      buildRecoveryFinishTranscript F normalize input = .error "recovery_finish_transcript_too_large" ∧
        MAX_RECOVERY_FINISH_TRANSCRIPT_BYTES < transcriptLength parsed := by
  obtain ⟨chunks, -, hbuild⟩ := build_eq hp
  split at hbuild
  · rename_i hlarge
    exact .inr ⟨hbuild, hlarge⟩
  · exact .inl ⟨_, hbuild⟩

theorem transcript_injective (hp : parse F normalize input = some parsed)
    (hp' : parse F normalize input' = some parsed') :
    ((∃ transcript, buildRecoveryFinishTranscript F normalize input = .ok transcript) ∨
        buildRecoveryFinishTranscript F normalize input = .error "recovery_finish_transcript_too_large" ∧
          MAX_RECOVERY_FINISH_TRANSCRIPT_BYTES < transcriptLength parsed) ∧
      ∀ transcript transcript', buildRecoveryFinishTranscript F normalize input = .ok transcript →
        buildRecoveryFinishTranscript F normalize input' = .ok transcript' →
          (transcript ≠ transcript' ↔ parsed.toWellFormed ≠ parsed'.toWellFormed) :=
  ⟨build_answers hp, fun _ _ hb hb' => transcript_ne_iff hp hp' hb hb'⟩

end

/-! ## Two names with one transcript -/

def sampleFormats : Formats := ⟨fun _ => true, fun _ => true, fun _ => true⟩

def zeros (bytes : Nat) : String := encodeCanonicalBase64Url (List.replicate bytes 0)

/-- A device name that is a high surrogate alone, and the replacement character in its place. -/
def loneSurrogate : CodeUnits := [0xD800]

def replacement : CodeUnits := [0xFFFD]

def sampleInput (name : CodeUnits) : RecoveryFinishTranscriptInput where
  recoveryAttemptId := "a1"
  challenge := zeros 32
  email := "user@example.com"
  registrationSessionId := "s1"
  registrationRecord := zeros 6
  newEncryptedRecoveryPacket :=
    ⟨2, .xchacha20Poly1305, ⟨"ARGON2ID_V13", zeros 16, 65536, 3, 4⟩, zeros 24, zeros 81⟩
  newRecoverySigningPublicKey := zeros 32
  device :=
    { id := "d1"
      name := name
      fingerprint := List.replicate 8 65
      publicKey := zeros 32
      credential := zeros 32
      encryptedVaultKeyPacket := ⟨1, "d1", zeros 32, zeros 32, ⟨.xchacha20Poly1305, zeros 24, zeros 48, none⟩⟩ }

theorem zeros_ne {n : Nat} (h : 0 < n) : List.replicate n (0 : UInt8) ≠ [] := by
  rw [ne_eq, List.replicate_eq_nil_iff]
  omega

theorem zeros_bytes {n : Nat} (h : 0 < n) : canonicalBase64UrlBytes n (zeros n) = true :=
  (canonicalBase64UrlBytes_iff h).mpr ⟨List.replicate n 0, List.length_replicate, rfl⟩

theorem zeros_nonce : nonceSchema 24 (zeros 24) = true := by
  unfold nonceSchema zeros
  rw [base64UrlMax_encode (zeros_ne (by decide)) (by decide), decodedBase64UrlLength_encode (zeros_ne (by decide))]
  rfl

theorem zeros_key : (base64UrlMax 64 (zeros 48) && decodedBase64UrlLength (zeros 48) == some 48) = true := by
  unfold zeros
  rw [base64UrlMax_encode (zeros_ne (by decide)) (by decide), decodedBase64UrlLength_encode (zeros_ne (by decide))]
  rfl

theorem zeros_opaque : canonicalOpaqueMessageSchema (zeros 6) = true := by
  unfold canonicalOpaqueMessageSchema zeros
  rw [canonical_encode (zeros_ne (by decide)), decodedBase64UrlLength_encode (zeros_ne (by decide)),
    ← String.length_toList, length_encode]
  rfl

theorem parse_sample {name : CodeUnits} (h : name.length = 1) :
    parse sampleFormats id (sampleInput name) = some (sampleInput name) := by
  refine if_pos ?_
  unfold recoveryFinishTranscriptInputSchema recoveryFinishDeviceSchema recoveryDeviceVaultKeyPacketSchema
    deviceVaultKeyEnvelopeSchema recoveryPacketV2Schema recoverySigningPublicKeySchema recoveryChallengeSchema sampleInput
  have hkey := zeros_key
  rw [Bool.and_eq_true] at hkey
  simp only [sampleFormats, zeros_opaque, zeros_bytes, zeros_nonce, hkey.1, hkey.2, h, Nat.zero_lt_succ,
    List.length_replicate]
  decide

theorem decode_zeros {n : Nat} (h : 0 < n) : decodeCanonicalBase64Url (zeros n) = .ok (List.replicate n 0) :=
  decode_encode (zeros_ne h)

theorem raws_sample (name : CodeUnits) : raws (sampleInput name) =
    [text "a1", .ok (List.replicate 32 0), text "user@example.com", text "s1", .ok (List.replicate 6 0), u8 2,
      text EnvelopeAlg.xchacha20Poly1305.text, text "ARGON2ID_V13", .ok (List.replicate 16 0), u32 65536, u32 3, u32 4,
      .ok (List.replicate 24 0), .ok (List.replicate 81 0), .ok (List.replicate 32 0), text "d1", unitsText name,
      unitsText (List.replicate 8 65), .ok (List.replicate 32 0), .ok (List.replicate 32 0), u8 1, text "d1",
      .ok (List.replicate 32 0), .ok (List.replicate 32 0), text EnvelopeAlg.xchacha20Poly1305.text,
      .ok (List.replicate 24 0), .ok (List.replicate 48 0)] := by
  rw [← decode_zeros (n := 32) (by decide), ← decode_zeros (n := 6) (by decide), ← decode_zeros (n := 16) (by decide),
    ← decode_zeros (n := 24) (by decide), ← decode_zeros (n := 81) (by decide), ← decode_zeros (n := 48) (by decide)]
  rfl

theorem sample_fits : ¬ MAX_RECOVERY_FINISH_TRANSCRIPT_BYTES < transcriptLength (sampleInput loneSurrogate) := by
  have hlengths : (raws (sampleInput loneSurrogate)).map (fun raw => 4 + (raw.toOption.getD []).length) =
      [6, 36, 20, 6, 10, 5, 22, 16, 20, 8, 8, 8, 28, 85, 36, 6, 7, 12, 36, 36, 5, 6, 36, 36, 22, 28, 52] := by
    rw [raws_sample]
    decide +kernel
  rw [transcriptLength_eq hlengths, length_start]
  decide

theorem sample_answers : ∃ transcript, buildRecoveryFinishTranscript sampleFormats id (sampleInput loneSurrogate) =
    .ok transcript := (build_answers (parse_sample rfl)).resolve_right fun h => sample_fits h.2

theorem transcript_injective_sample :
    ((∃ transcript, buildRecoveryFinishTranscript sampleFormats id (sampleInput [65]) = .ok transcript) ∨
        buildRecoveryFinishTranscript sampleFormats id (sampleInput [65]) =
            .error "recovery_finish_transcript_too_large" ∧
          MAX_RECOVERY_FINISH_TRANSCRIPT_BYTES < transcriptLength (sampleInput [65])) ∧
      ∀ transcript transcript', buildRecoveryFinishTranscript sampleFormats id (sampleInput [65]) = .ok transcript →
        buildRecoveryFinishTranscript sampleFormats id (sampleInput [66]) = .ok transcript' →
          (transcript ≠ transcript' ↔ (sampleInput [65]).toWellFormed ≠ (sampleInput [66]).toWellFormed) :=
  transcript_injective (parse_sample rfl) (parse_sample rfl)

theorem lone_surrogate_replaced : ¬ ∀ (F : Formats) (normalize : String → String)
    (input input' parsed parsed' : RecoveryFinishTranscriptInput) (transcript transcript' : Bytes),
    parse F normalize input = some parsed → parse F normalize input' = some parsed' → parsed ≠ parsed' →
    buildRecoveryFinishTranscript F normalize input = .ok transcript →
    buildRecoveryFinishTranscript F normalize input' = .ok transcript' → transcript ≠ transcript' := by
  intro hall
  obtain ⟨transcript, hb⟩ := sample_answers
  have hname : Utf16.toWellFormed loneSurrogate = Utf16.toWellFormed replacement := by decide +kernel
  have hsame : (sampleInput loneSurrogate).toWellFormed = (sampleInput replacement).toWellFormed :=
    RecoveryFinishTranscriptInput.ext rfl rfl rfl rfl rfl rfl rfl
      (RecoveryFinishDevice.ext rfl hname rfl rfl rfl rfl)
  have hne : sampleInput loneSurrogate ≠ sampleInput replacement := by
    intro he
    have hnames : loneSurrogate = replacement := congrArg (fun input => input.device.name) he
    exact absurd hnames (by decide)
  have hraws : raws (sampleInput replacement) = raws (sampleInput loneSurrogate) := by
    rw [← raws_toWellFormed, ← hsame, raws_toWellFormed]
  have hb' : buildRecoveryFinishTranscript sampleFormats id (sampleInput replacement) = .ok transcript := by
    rw [build_of_parse (parse_sample rfl), hraws, ← build_of_parse (parse_sample rfl), hb]
  exact hall sampleFormats id _ _ _ _ transcript transcript (parse_sample rfl) (parse_sample rfl) hne hb hb' rfl

end ZeroVault.Transcript

import ZeroVault.MobileQueue
import ZeroVault.PlatformBase64

/-!
# Device packets on three platforms

The encrypted vault key of a device is 104 bytes: nonce, ephemeral key and
ciphertext. The browser, the Worker (for rows of older clients) and the mobile
app each turn it into a packet with a codec of their own. The packets are the
same, and what the schema accepts both decoders read as the same bytes.
-/

namespace ZeroVault.DevicePacket

open Lib Radix64 Mobile Browser

/-! ## The browser -/

def XCHACHA_NONCE_BYTES : Nat := 24
def X25519_PUBLIC_KEY_BYTES : Nat := 32
def POLY1305_TAG_BYTES : Nat := 16

def createDeviceVaultKeyPacket (F : Formats) (deviceId : DeviceId) (devicePublicKey encryptedBlob : String) :
    Except String DeviceVaultKeyPacket :=
  match fromBase64Url encryptedBlob with
  | none => .error "InvalidCharacterError"
  | some bytes =>
    let ciphertextOffset := XCHACHA_NONCE_BYTES + X25519_PUBLIC_KEY_BYTES
    if bytes.length < ciphertextOffset + POLY1305_TAG_BYTES then .error "invalid_device_vault_key_blob"
    else
      let packet : DeviceVaultKeyPacket := {
        version := 1
        recipientDeviceId := deviceId
        recipientPublicKey := devicePublicKey
        ephemeralPublicKey := toBase64Url ((bytes.drop XCHACHA_NONCE_BYTES).take X25519_PUBLIC_KEY_BYTES)
        encryptedVaultKey := {
          alg := .xchacha20Poly1305
          nonce := toBase64Url (bytes.take XCHACHA_NONCE_BYTES)
          ciphertext := toBase64Url (bytes.drop ciphertextOffset)
          aad := none } }
      if deviceVaultKeyPacketSchema F packet then .ok packet else .error "ZodError"

def deviceVaultKeyPacketToBlob (F : Formats) (packet : DeviceVaultKeyPacket) : Except String String :=
  if !deviceVaultKeyPacketSchema F packet then .error "ZodError"
  else
    match fromBase64Url packet.encryptedVaultKey.nonce, fromBase64Url packet.ephemeralPublicKey,
      fromBase64Url packet.encryptedVaultKey.ciphertext with
    | some nonce, some ephemeralPublicKey, some ciphertext =>
      if packet.encryptedVaultKey.alg ≠ .xchacha20Poly1305 || nonce.length ≠ XCHACHA_NONCE_BYTES ||
          ephemeralPublicKey.length ≠ X25519_PUBLIC_KEY_BYTES || ciphertext.length < POLY1305_TAG_BYTES then
        .error "invalid_device_vault_key_packet"
      else .ok (toBase64Url (nonce ++ ephemeralPublicKey ++ ciphertext))
    | _, _, _ => .error "InvalidCharacterError"

/-! ## The mobile app -/

def DEVICE_VAULT_KEY_PACKET_BYTES : Nat := 24 + 32 + 48

def decodeBase64Url (value : String) : Except Failure Bytes := do
  require (base64UrlMax 2000000 value) "Invalid base64url value"
  match androidDecode value with
  | some bytes => pure bytes
  | none => throw (.illegalArgument "Invalid base64url value")

def encodeDevicePacket (P : Platform) (recipientDeviceId : DeviceId) (recipientPublicKey : String) (rawPacket : Bytes) :
    Except Failure DeviceVaultKeyPacket := do
  requireUuid P recipientDeviceId "recipient device"
  let recipientKey ← decodeBase64Url recipientPublicKey
  require (recipientKey.length = 32) "Recipient public key is invalid"
  require (rawPacket.length = DEVICE_VAULT_KEY_PACKET_BYTES) "Device vault key packet is invalid"
  pure {
    version := 1
    recipientDeviceId := recipientDeviceId
    recipientPublicKey := recipientPublicKey
    ephemeralPublicKey := androidEncode ((rawPacket.drop 24).take 32)
    encryptedVaultKey := {
      alg := .xchacha20Poly1305
      nonce := androidEncode (rawPacket.take 24)
      ciphertext := androidEncode (rawPacket.drop 56)
      aad := none } }

/-- The text of a packet; no field of an accepted one has a character to escape. -/
def json (packet : DeviceVaultKeyPacket) : String :=
  "\x7b\"version\":" ++ toString packet.version ++ ",\"recipientDeviceId\":\"" ++ packet.recipientDeviceId ++
    "\",\"recipientPublicKey\":\"" ++ packet.recipientPublicKey ++ "\",\"ephemeralPublicKey\":\"" ++
    packet.ephemeralPublicKey ++ "\",\"encryptedVaultKey\":\x7b\"alg\":\"" ++ packet.encryptedVaultKey.alg.text ++
    "\",\"nonce\":\"" ++ packet.encryptedVaultKey.nonce ++ "\",\"ciphertext\":\"" ++
    packet.encryptedVaultKey.ciphertext ++ "\"\x7d\x7d"

def decodeDevicePacket (packet : DeviceVaultKeyPacket) (expectedDeviceId : DeviceId) (expectedPublicKey : String) :
    Except Failure Bytes := do
  require ((json packet).length ≤ 16384) "Device vault key packet is too large"
  require (packet.version = 1) "Device packet version is unsupported"
  require (packet.recipientDeviceId = expectedDeviceId) "Device packet recipient mismatch"
  require (packet.recipientPublicKey = expectedPublicKey) "Device packet public key mismatch"
  let expectedKey ← decodeBase64Url expectedPublicKey
  require (expectedKey.length = 32) "Device public key is invalid"
  let ephemeralPublicKey ← decodeBase64Url packet.ephemeralPublicKey
  require (ephemeralPublicKey.length = 32) "Ephemeral public key is invalid"
  let encrypted := packet.encryptedVaultKey
  require encrypted.aad.isNone "Encrypted vault key contains unsupported fields"
  require (encrypted.alg = .xchacha20Poly1305) "Device packet algorithm is unsupported"
  let nonce ← decodeBase64Url encrypted.nonce
  let innerCiphertext ← decodeBase64Url encrypted.ciphertext
  require (nonce.length = 24 && innerCiphertext.length = 48) "Encrypted vault key is invalid"
  pure (nonce ++ ephemeralPublicKey ++ innerCiphertext)

@[simp] theorem require_true (message : String) : require true message = .ok () := rfl

theorem ok_bind {ε α β : Type} (x : α) (f : α → Except ε β) : (Except.ok x >>= f) = f x := rfl

/-! ## Texts that every decoder reads -/

/-- The bytes in a base64url text; bits left over are discarded. -/
def bytesIn (s : String) : Bytes := bytesOf (toBytes (s.toList.map base64UrlIndex))

/-- A text of the alphabet without padding that holds `n` bytes. -/
structure Holds (s : String) (n : Nat) : Prop where
  mem : ∀ c ∈ s.toList, c ∈ BASE64URL_ALPHABET
  nonempty : s.toList ≠ []
  whole : s.toList.length % 4 ≠ 1
  bytes : s.toList.length * 6 / 8 = n

section
variable {F : Formats} {P : Platform} {s : String} {n max : Nat} {b : Bytes}

theorem Holds.length (h : Holds s n) : (bytesIn s).length = n := by
  unfold bytesIn
  rw [length_bytesOf, length_toBytes, List.length_map, h.bytes]

theorem Holds.fromBase64Url (h : Holds s n) : fromBase64Url s = some (bytesIn s) := fromBase64Url_eq h.mem h.whole

theorem Holds.decodeBase64Url (h : Holds s n) (hmax : s.toList.length ≤ 2000000) :
    decodeBase64Url s = .ok (bytesIn s) := by
  have hmatches : base64UrlMax 2000000 s = true := by
    unfold base64UrlMax
    rw [unpadded_eq h.mem]
    simp only [Bool.and_eq_true, decide_eq_true_eq, Bool.not_eq_true', List.isEmpty_eq_false_iff, List.all_eq_true,
      List.contains_iff_mem]
    rw [← String.length_toList, Nat.sub_self]
    exact ⟨⟨⟨hmax, h.nonempty⟩, h.mem⟩, Nat.zero_le 2⟩
  unfold DevicePacket.decodeBase64Url
  rw [hmatches, androidDecode_eq h.mem h.whole]
  rfl

theorem holds_encode (h : b ≠ []) : Holds (encodeCanonicalBase64Url b) b.length where
  mem := encode_mem
  nonempty hnil := by
    have hlength := @length_encode b
    have hpos := List.length_pos_iff.mpr h
    rw [hnil, List.length_nil] at hlength
    omega
  whole := length_encode_mod
  bytes := by
    rw [length_encode]
    omega

theorem bytesIn_encode : bytesIn (encodeCanonicalBase64Url b) = b := bytes_encode

/-- A key of 43 characters, whatever its last two bits are. -/
theorem holds_key (h : x25519PublicKeySchema s = true) : Holds s 32 := by
  unfold x25519PublicKeySchema base64Url43 at h
  rw [Bool.and_eq_true, decide_eq_true_eq, List.all_eq_true, ← String.length_toList] at h
  refine ⟨fun c hc => List.contains_iff_mem.mp (h.2 c hc), ?_, ?_, ?_⟩
  · exact List.length_pos_iff.mp (by omega)
  · omega
  · omega

theorem holds_whole_groups {k : Nat} (hs : base64UrlMax max s = true)
    (hlength : decodedBase64UrlLength s = some (3 * k)) : Holds s (3 * k) := by
  have hc := canonical_of_whole_groups hs hlength
  obtain ⟨hne, hmem, hcan⟩ := isCanonicalUnpaddedBase64Url_iff.mp hc
  refine ⟨hmem, hne, ?_, ?_⟩
  · have hone := (canonical_iff.mp hcan).1
    rwa [List.length_map] at hone
  · rw [decodedBase64UrlLength_eq hc] at hlength
    exact Option.some.inj hlength

/-! ## Reading a packet -/

variable {packet : DeviceVaultKeyPacket}

structure Accepted (F : Formats) (packet : DeviceVaultKeyPacket) : Prop where
  version : packet.version = 1
  id : F.uuid packet.recipientDeviceId = true
  recipientKey : Holds packet.recipientPublicKey 32
  ephemeralKey : Holds packet.ephemeralPublicKey 32
  alg : packet.encryptedVaultKey.alg = .xchacha20Poly1305
  nonce : Holds packet.encryptedVaultKey.nonce 24
  ciphertext : Holds packet.encryptedVaultKey.ciphertext 48
  aad : packet.encryptedVaultKey.aad = none

theorem accepted_of_schema (h : deviceVaultKeyPacketSchema F packet = true) : Accepted F packet := by
  unfold deviceVaultKeyPacketSchema deviceVaultKeyEnvelopeSchema nonceSchema at h
  simp only [Bool.and_eq_true, decide_eq_true_eq, beq_iff_eq, Option.isNone_iff_eq_none, and_assoc] at h
  obtain ⟨hversion, hid, hrecipient, hephemeral, halg, hnonce, hnonceBytes, hciphertext, hciphertextBytes, haad⟩ := h
  exact ⟨hversion, hid, holds_key hrecipient, holds_key hephemeral, halg,
    holds_whole_groups (k := 8) hnonce hnonceBytes, holds_whole_groups (k := 16) hciphertext hciphertextBytes, haad⟩

/-- `n` bytes take a fixed number of characters. -/
theorem Holds.chars (h : Holds s n) : s.toList.length ≤ 2 * n + 2 := by
  have hbytes := h.bytes
  omega

def blobOf (packet : DeviceVaultKeyPacket) : Bytes :=
  bytesIn packet.encryptedVaultKey.nonce ++ bytesIn packet.ephemeralPublicKey ++
    bytesIn packet.encryptedVaultKey.ciphertext

theorem length_blobOf (h : Accepted F packet) : (blobOf packet).length = 104 := by
  unfold blobOf
  rw [List.length_append, List.length_append, h.nonce.length, h.ephemeralKey.length, h.ciphertext.length]

theorem toBlob_eq (h : deviceVaultKeyPacketSchema F packet = true) :
    deviceVaultKeyPacketToBlob F packet = .ok (encodeCanonicalBase64Url (blobOf packet)) := by
  have ha := accepted_of_schema h
  unfold deviceVaultKeyPacketToBlob
  rw [h, ha.nonce.fromBase64Url, ha.ephemeralKey.fromBase64Url, ha.ciphertext.fromBase64Url, ← toBase64Url_eq]
  simp [ha.alg, ha.nonce.length, ha.ephemeralKey.length, ha.ciphertext.length, XCHACHA_NONCE_BYTES,
    X25519_PUBLIC_KEY_BYTES, POLY1305_TAG_BYTES, blobOf]

/-- Every identifier of the schema's format has 36 characters. -/
theorem json_fits (hF : ∀ id, F.uuid id = true → id.length = 36) (h : Accepted F packet) :
    (json packet).length ≤ 16384 := by
  unfold json
  simp only [String.length_append, h.version, h.alg, hF _ h.id]
  have hrecipient := h.recipientKey.chars
  have hephemeral := h.ephemeralKey.chars
  have hnonce := h.nonce.chars
  have hciphertext := h.ciphertext.chars
  simp only [String.length_toList] at hrecipient hephemeral hnonce hciphertext
  have htexts : "\x7b\"version\":".length + (toString 1).length + ",\"recipientDeviceId\":\"".length +
      "\",\"recipientPublicKey\":\"".length + "\",\"ephemeralPublicKey\":\"".length +
      "\",\"encryptedVaultKey\":\x7b\"alg\":\"".length + EnvelopeAlg.xchacha20Poly1305.text.length +
      "\",\"nonce\":\"".length + "\",\"ciphertext\":\"".length + "\"\x7d\x7d".length ≤ 1000 := by decide +kernel
  omega

theorem decodeDevicePacket_eq (hF : ∀ id, F.uuid id = true → id.length = 36)
    (h : deviceVaultKeyPacketSchema F packet = true) :
    decodeDevicePacket packet packet.recipientDeviceId packet.recipientPublicKey = .ok (blobOf packet) := by
  have ha := accepted_of_schema h
  have hread {s : String} {n : Nat} (hs : Holds s n) (hn : n ≤ 104) : decodeBase64Url s = .ok (bytesIn s) :=
    hs.decodeBase64Url (Nat.le_trans hs.chars (by omega))
  unfold decodeDevicePacket
  simp only [hread ha.recipientKey (by decide), hread ha.ephemeralKey (by decide), hread ha.nonce (by decide),
    hread ha.ciphertext (by decide), json_fits hF ha, ha.version, ha.alg, ha.aad, ha.recipientKey.length,
    ha.ephemeralKey.length, ha.nonce.length, ha.ciphertext.length, decide_true, Option.isNone_none, Bool.and_self,
    require_true, ok_bind]
  rfl

/-! ## Writing a packet -/

def packetOf (deviceId : DeviceId) (publicKey : String) (blob : Bytes) : DeviceVaultKeyPacket where
  version := 1
  recipientDeviceId := deviceId
  recipientPublicKey := publicKey
  ephemeralPublicKey := encodeCanonicalBase64Url ((blob.drop 24).take 32)
  encryptedVaultKey :=
    { alg := .xchacha20Poly1305
      nonce := encodeCanonicalBase64Url (blob.take 24)
      ciphertext := encodeCanonicalBase64Url (blob.drop 56)
      aad := none }

section
variable {deviceId : DeviceId} {publicKey : String} {blob : Bytes}

theorem encode_key (h : b.length = 32) : x25519PublicKeySchema (encodeCanonicalBase64Url b) = true := by
  unfold x25519PublicKeySchema base64Url43
  rw [Bool.and_eq_true, decide_eq_true_eq, List.all_eq_true, ← String.length_toList, length_encode, h]
  exact ⟨rfl, fun c hc => List.contains_iff_mem.mpr (encode_mem c hc)⟩

theorem packetOf_schema (hid : F.uuid deviceId = true) (hkey : x25519PublicKeySchema publicKey = true)
    (h : blob.length = 104) : deviceVaultKeyPacketSchema F (packetOf deviceId publicKey blob) = true := by
  have hnonce : (blob.take 24).length = 24 := by
    rw [List.length_take]
    omega
  have hephemeral : ((blob.drop 24).take 32).length = 32 := by
    rw [List.length_take, List.length_drop]
    omega
  have hciphertext : (blob.drop 56).length = 48 := by
    rw [List.length_drop]
    omega
  have hne {b : Bytes} {n : Nat} (h : b.length = n) (hn : 0 < n) : b ≠ [] := List.length_pos_iff.mp (h ▸ hn)
  unfold deviceVaultKeyPacketSchema deviceVaultKeyEnvelopeSchema nonceSchema packetOf
  dsimp only
  rw [hid, hkey, encode_key hephemeral, base64UrlMax_encode (hne hnonce (by decide)) (by rw [hnonce]; decide),
    decodedBase64UrlLength_encode (hne hnonce (by decide)), hnonce,
    base64UrlMax_encode (hne hciphertext (by decide)) (Nat.le_of_eq (by rw [hciphertext])),
    decodedBase64UrlLength_encode (hne hciphertext (by decide)), hciphertext]
  rfl

theorem length_of_schema (h : deviceVaultKeyPacketSchema F (packetOf deviceId publicKey blob) = true) :
    blob.length = 104 := by
  have hlength := (accepted_of_schema h).ciphertext.length
  rw [packetOf, bytesIn_encode, List.length_drop] at hlength
  omega

theorem blobOf_packetOf : blobOf (packetOf deviceId publicKey blob) = blob := by
  unfold blobOf packetOf
  dsimp only
  rw [bytesIn_encode, bytesIn_encode, bytesIn_encode]
  have hsplit : (blob.drop 24).take 32 ++ blob.drop 56 = blob.drop 24 := by
    have h := List.take_append_drop 32 (blob.drop 24)
    rwa [List.drop_drop] at h
  rw [List.append_assoc, hsplit, List.take_append_drop]

theorem createDeviceVaultKeyPacket_eq : createDeviceVaultKeyPacket F deviceId publicKey (encodeCanonicalBase64Url blob) =
    if blob.length < 72 then .error "invalid_device_vault_key_blob"
    else if deviceVaultKeyPacketSchema F (packetOf deviceId publicKey blob) then .ok (packetOf deviceId publicKey blob)
    else .error "ZodError" := by
  unfold createDeviceVaultKeyPacket
  rw [fromBase64Url_encode]
  simp only [toBase64Url_eq]
  rfl

theorem encodeDevicePacket_eq (hid : P.isUuid deviceId = true) (hkey : x25519PublicKeySchema publicKey = true)
    (h : blob.length = 104) :
    encodeDevicePacket P deviceId publicKey blob = .ok (packetOf deviceId publicKey blob) := by
  have hholds := holds_key hkey
  have hread := hholds.decodeBase64Url (Nat.le_trans hholds.chars (by decide))
  have hsize : blob.length = DEVICE_VAULT_KEY_PACKET_BYTES := h
  unfold encodeDevicePacket requireUuid
  rw [hid, hread]
  simp only [require_true, ok_bind, hholds.length, hsize, decide_true, androidEncode_eq]
  rfl

theorem length_of_encode {packet : DeviceVaultKeyPacket}
    (h : encodeDevicePacket P deviceId publicKey blob = .ok packet) : blob.length = 104 := by
  obtain ⟨_, -, h⟩ := except_bind_ok h
  obtain ⟨_, -, h⟩ := except_bind_ok h
  obtain ⟨_, -, h⟩ := except_bind_ok h
  obtain ⟨_, hsize, -⟩ := except_bind_ok h
  exact of_decide_eq_true (require_ok hsize)

end

/-! ## Rows of older clients -/

theorem decodeBytes_eq : ∀ {cs : List Char}, (∀ c ∈ cs, c ∈ BASE64URL_ALPHABET) →
    decodeBytes cs = toBytes (cs.map base64UrlIndex)
  | [], _ => rfl
  | [_], _ => rfl
  | [a, b], h => by
    have hd := digits_index h
    simp only [List.map_cons, List.map_nil, digits_cons] at hd
    simp only [decodeBytes, List.map_cons, List.map_nil, toBytes, List.cons.injEq, and_true]
    omega
  | [a, b, c], h => by
    have hd := digits_index h
    simp only [List.map_cons, List.map_nil, digits_cons] at hd
    simp only [decodeBytes, List.map_cons, List.map_nil, toBytes, List.cons.injEq, and_true]
    omega
  | a :: b :: c :: d :: cs, h => by
    have hd := digits_index h
    simp only [List.map_cons, digits_cons] at hd
    have hrest := @decodeBytes_eq cs fun x hx => h x (by simp [hx])
    simp only [decodeBytes, List.map_cons, toBytes, hrest, List.cons.injEq, and_true]
    omega

theorem encodeBytes_eq : ∀ {bs : List Nat}, Digits 256 bs → encodeBytes bs = textOf (toSextets bs)
  | [], _ => rfl
  | [a], h => by
    simp only [digits_cons] at h
    have h1 : a * 16 / 64 = a / 4 := by omega
    have h2 : a * 16 % 64 = a % 4 * 16 := by omega
    simp only [encodeBytes, toSextets, textOf, h1, h2]
  | [a, b], h => by
    simp only [digits_cons] at h
    have h1 : (a * 256 + b) * 4 / 4096 = a / 4 := by omega
    have h2 : (a * 256 + b) * 4 / 64 % 64 = a % 4 * 16 + b / 16 := by omega
    have h3 : (a * 256 + b) * 4 % 64 = b % 16 * 4 := by omega
    simp only [encodeBytes, toSextets, textOf, h1, h2, h3]
  | a :: b :: c :: bs, h => by
    simp only [digits_cons] at h
    obtain ⟨ha, hb, hc, hbs⟩ := h
    have h1 : ((a * 256 + b) * 256 + c) / 262144 = a / 4 := by omega
    have h2 : ((a * 256 + b) * 256 + c) / 4096 % 64 = a % 4 * 16 + b / 16 := by omega
    have h3 : ((a * 256 + b) * 256 + c) / 64 % 64 = b % 16 * 4 + c / 64 := by omega
    have h4 : ((a * 256 + b) * 256 + c) % 64 = c % 64 := by omega
    simp only [encodeBytes, toSextets, h1, h2, h3, h4, encodeBytes_eq hbs]
    rfl

theorem encodeBytes_digitsOf (value : Bytes) :
    String.ofList (encodeBytes (digitsOf value)) = encodeCanonicalBase64Url value := by
  apply String.toList_injective
  rw [String.toList_ofList, toList_encode, encodeBytes_eq (digits_digitsOf value)]

theorem convertLegacyDeviceVaultKeyPacket_eq {device : TrustedDevice} {blob : Bytes} :
    convertLegacyDeviceVaultKeyPacket F (encodeCanonicalBase64Url blob) device =
      if blob.length = 104 ∧ deviceVaultKeyPacketSchema F (packetOf device.id device.publicKey blob) = true then
        some (packetOf device.id device.publicKey blob)
      else none := by
  have hlength : (encodeCanonicalBase64Url blob).length = (blob.length * 8 + 5) / 6 := by
    rw [← String.length_toList, length_encode]
  have hbytes : decodeBytes (unpadded (encodeCanonicalBase64Url blob).toList) = digitsOf blob := by
    rw [unpadded_eq encode_mem, decodeBytes_eq encode_mem, index_encode, toBytes_toSextets (digits_digitsOf blob)]
  have hdrop (n : Nat) : (digitsOf blob).drop n = digitsOf (blob.drop n) := List.map_drop.symm
  have htake (n : Nat) (b : Bytes) : (digitsOf b).take n = digitsOf (b.take n) := List.map_take.symm
  unfold convertLegacyDeviceVaultKeyPacket
  rw [hbytes, hlength]
  dsimp only
  rw [length_digitsOf, hdrop, htake, hdrop, htake, encodeBytes_digitsOf, encodeBytes_digitsOf, encodeBytes_digitsOf]
  by_cases h : blob.length = 104
  · have hne : blob ≠ [] := List.length_pos_iff.mp (by omega)
    have hschema : base64UrlSchema (encodeCanonicalBase64Url blob) = true :=
      base64UrlMax_encode hne (by rw [h]; decide)
    rw [if_neg (by rw [hschema, h]; decide), if_neg (not_not_intro h)]
    simp only [h, true_and]
    rfl
  · rw [if_pos h, ite_self, if_neg fun hp => h hp.1]

/-! ## All codecs agree -/

theorem device_packet_codecs (hF : ∀ id, F.uuid id = true → id.length = 36)
    (hP : ∀ id, F.uuid id = true → P.isUuid id = true) :
    (∀ (blob : Bytes) (device : TrustedDevice), blob.length = 104 → F.uuid device.id = true →
      x25519PublicKeySchema device.publicKey = true → ∃ packet,
        createDeviceVaultKeyPacket F device.id device.publicKey (encodeCanonicalBase64Url blob) = .ok packet ∧
        convertLegacyDeviceVaultKeyPacket F (encodeCanonicalBase64Url blob) device = some packet ∧
        encodeDevicePacket P device.id device.publicKey blob = .ok packet ∧
        deviceVaultKeyPacketSchema F packet = true ∧
        deviceVaultKeyPacketToBlob F packet = .ok (encodeCanonicalBase64Url blob) ∧
        decodeDevicePacket packet device.id device.publicKey = .ok blob) ∧
      (∀ packet deviceId publicKey, deviceVaultKeyPacketSchema F packet = true →
        packet.recipientDeviceId = deviceId → packet.recipientPublicKey = publicKey → ∃ blob : Bytes,
          blob.length = 104 ∧ deviceVaultKeyPacketToBlob F packet = .ok (encodeCanonicalBase64Url blob) ∧
          decodeDevicePacket packet deviceId publicKey = .ok blob) ∧
      ∀ (blob : Bytes) (device : TrustedDevice), blob.length ≠ 104 → ∀ packet,
        createDeviceVaultKeyPacket F device.id device.publicKey (encodeCanonicalBase64Url blob) ≠ .ok packet ∧
        convertLegacyDeviceVaultKeyPacket F (encodeCanonicalBase64Url blob) device ≠ some packet ∧
        encodeDevicePacket P device.id device.publicKey blob ≠ .ok packet := by
  refine ⟨fun blob device hlength hid hkey => ?_, fun packet deviceId publicKey hschema hrecipient hrecipientKey => ?_,
    fun blob device hlength packet => ⟨fun h => ?_, fun h => ?_, fun h => hlength (length_of_encode h)⟩⟩
  · have hschema := packetOf_schema hid hkey hlength
    refine ⟨packetOf device.id device.publicKey blob, ?_, ?_, encodeDevicePacket_eq (hP _ hid) hkey hlength, hschema,
      ?_, ?_⟩
    · rw [createDeviceVaultKeyPacket_eq, if_neg (by omega), if_pos hschema]
    · rw [convertLegacyDeviceVaultKeyPacket_eq, if_pos ⟨hlength, hschema⟩]
    · rw [toBlob_eq hschema, blobOf_packetOf]
    · have hdecoded := decodeDevicePacket_eq hF hschema
      rwa [blobOf_packetOf] at hdecoded
  · subst hrecipient hrecipientKey
    exact ⟨blobOf packet, length_blobOf (accepted_of_schema hschema), toBlob_eq hschema,
      decodeDevicePacket_eq hF hschema⟩
  · rw [createDeviceVaultKeyPacket_eq] at h
    split at h
    · cases h
    split at h
    · rename_i hschema
      exact hlength (length_of_schema hschema)
    · cases h
  · rw [convertLegacyDeviceVaultKeyPacket_eq, if_neg fun hp => hlength hp.1] at h
    cases h

end

def uuidText (id : String) : Bool :=
  id.length = 36 && id.toList.zipIdx.all fun c =>
    if [8, 13, 18, 23].contains c.2 then c.1 = '-' else "0123456789abcdefABCDEF".toList.contains c.1

def sampleFormats : Formats := ⟨uuidText, fun _ => true, fun _ => true⟩

def samplePlatform : Platform := ⟨(· == ""), uuidText, fun _ => true, fun _ => true, fun _ => 200⟩

def sampleDevice : TrustedDevice where
  id := "5f0c7e3a-1b2c-4d5e-8f90-0123456789ab"
  name := "Pixel"
  fingerprint := none
  publicKey := encodeCanonicalBase64Url (List.replicate 32 7)
  status := .approved
  createdAt := 0
  updatedAt := 0
  lastSeenIp := none
  lastSeenLocation := none

def sampleBlob : Bytes := List.replicate 104 9

theorem device_packet_codecs_sample : ∃ packet,
    createDeviceVaultKeyPacket sampleFormats sampleDevice.id sampleDevice.publicKey
      (encodeCanonicalBase64Url sampleBlob) = .ok packet ∧
    convertLegacyDeviceVaultKeyPacket sampleFormats (encodeCanonicalBase64Url sampleBlob) sampleDevice = some packet ∧
    encodeDevicePacket samplePlatform sampleDevice.id sampleDevice.publicKey sampleBlob = .ok packet ∧
    deviceVaultKeyPacketSchema sampleFormats packet = true ∧
    deviceVaultKeyPacketToBlob sampleFormats packet = .ok (encodeCanonicalBase64Url sampleBlob) ∧
    decodeDevicePacket packet sampleDevice.id sampleDevice.publicKey = .ok sampleBlob := by
  have hlength : ∀ id, sampleFormats.uuid id = true → id.length = 36 := by
    intro id h
    rw [show sampleFormats.uuid id = uuidText id from rfl, uuidText, Bool.and_eq_true, decide_eq_true_eq] at h
    exact h.1
  exact (device_packet_codecs (P := samplePlatform) hlength fun _ h => h).1 sampleBlob sampleDevice rfl
    (by decide +kernel) (encode_key rfl)

end ZeroVault.DevicePacket

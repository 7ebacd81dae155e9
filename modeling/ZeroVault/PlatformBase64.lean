import ZeroVault.Base64Url

/-!
# The base64 codecs of the platforms

The browser and the Worker go through `atob` and `btoa`, the mobile app through
Android's `Base64`, the native core through an engine without padding. Where the
schemas and checks around them let a text through, they read the same bytes.
-/

namespace ZeroVault

open Lib Radix64

/-! ## The browser -/

def BASE64_ALPHABET : List Char :=
  "ABCDEFGHIJKLMNOPQRSTUVWXYZabcdefghijklmnopqrstuvwxyz0123456789+/".toList

/-- `replaceAll("-", "+").replaceAll("_", "/")`. -/
def toStandard (c : Char) : Char := if c = '-' then '+' else if c = '_' then '/' else c

/-- `replaceAll("+", "-").replaceAll("/", "_")`. -/
def toUrlSafe (c : Char) : Char := if c = '+' then '-' else if c = '/' then '_' else c

def asciiWhitespace (c : Char) : Bool := [' ', '\t', '\n', '\r', Char.ofNat 12].contains c

def dropPad (data : List Char) : List Char := if data.getLast? = some '=' then data.dropLast else data

/-- The bytes of its binary string; bits left over at the end are discarded. -/
def atob (data : List Char) : Option Bytes :=
  let data := data.filter (!asciiWhitespace ·)
  let data := if data.length % 4 = 0 then dropPad (dropPad data) else data
  if data.length % 4 = 1 || !data.all (BASE64_ALPHABET.contains ·) then none
  else some (bytesOf (toBytes (data.map (BASE64_ALPHABET.idxOf ·))))

/-- `padEnd(Math.ceil(value.length / 4) * 4, "=")` and `atob`. -/
def fromBase64Url (value : String) : Option Bytes :=
  let standard := value.toList.map toStandard
  atob (standard ++ List.replicate ((standard.length + 3) / 4 * 4 - standard.length) '=')

def btoa (bytes : Bytes) : List Char :=
  let digits := toSextets (digitsOf bytes)
  digits.map (BASE64_ALPHABET.getD · 'A') ++ List.replicate ((digits.length + 3) / 4 * 4 - digits.length) '='

/-- The padding is stripped again. -/
def toBase64Url (bytes : Bytes) : String := String.ofList (unpadded ((btoa bytes).map toUrlSafe))

/-! ## Android -/

/-- `Base64.encodeToString`, `URL_SAFE or NO_WRAP or NO_PADDING`. -/
def androidEncode (value : Bytes) : String := String.ofList (textOf (toSextets (digitsOf value)))

/-- `Base64.decode` of a text of the alphabet and trailing `=`: padding may be
absent or has to be complete, bits left over at the end are discarded. -/
def androidDecode (value : String) : Option Bytes :=
  let body := unpadded value.toList
  let padding := value.length - body.length
  if body.length % 4 = 1 || (0 < padding && (body.length + padding) % 4 ≠ 0) then none
  else some (bytesOf (toBytes (body.map base64UrlIndex)))

/-! ## The native core -/

/-- `URL_SAFE_NO_PAD.decode`: no padding, no stray bits. -/
def rustDecode (value : String) : Option Bytes :=
  if value.toList.all (BASE64URL_ALPHABET.contains ·) && decide (Canonical (value.toList.map base64UrlIndex)) then
    some (bytesOf (toBytes (value.toList.map base64UrlIndex)))
  else none

/-- `URL_SAFE_NO_PAD.encode`. -/
def rustEncode (value : Bytes) : String := String.ofList (textOf (toSextets (digitsOf value)))

/-! ## They agree -/

section
variable {value : Bytes} {digits : List Nat} {cs : List Char} {s : String}

theorem androidEncode_eq : androidEncode value = encodeCanonicalBase64Url value :=
  String.toList_injective (by rw [toList_encode, androidEncode, String.toList_ofList])

theorem rustEncode_eq : rustEncode value = encodeCanonicalBase64Url value := androidEncode_eq

theorem standard_chars : BASE64_ALPHABET = charsFrom 'A' 26 ++ charsFrom 'a' 26 ++ charsFrom '0' 10 ++ ['+', '/'] :=
  String.toList_ofList.trans (by decide +kernel)

/-- The two alphabets are one but for two characters. -/
theorem toStandard_spec {c : Char} (h : c ∈ BASE64URL_ALPHABET) : toStandard c ∈ BASE64_ALPHABET ∧
    BASE64_ALPHABET.idxOf (toStandard c) = base64UrlIndex c ∧ asciiWhitespace (toStandard c) = false ∧
      toStandard c ≠ '=' := by
  have hall : BASE64URL_ALPHABET.all (fun c => BASE64_ALPHABET.contains (toStandard c)) = true ∧
      BASE64URL_ALPHABET.all (fun c => BASE64_ALPHABET.idxOf (toStandard c) == BASE64URL_ALPHABET.idxOf c) = true ∧
      BASE64URL_ALPHABET.all (fun c => !asciiWhitespace (toStandard c) && toStandard c != '=') = true := by
    rw [standard_chars, alphabet_chars]
    decide +kernel
  obtain ⟨hmem, hindex, hplain⟩ := hall
  rw [List.all_eq_true] at hmem hindex hplain
  have hc := hplain c h
  rw [Bool.and_eq_true, Bool.not_eq_true', bne_iff_ne] at hc
  exact ⟨List.contains_iff_mem.mp (hmem c h), beq_iff_eq.mp (hindex c h), hc.1, hc.2⟩

theorem toUrlSafe_getD {d : Nat} (h : d < 64) :
    toUrlSafe (BASE64_ALPHABET.getD d 'A') = BASE64URL_ALPHABET.getD d 'A' := by
  have hall : ∀ d : Fin 64, toUrlSafe (BASE64_ALPHABET.getD d 'A') = BASE64URL_ALPHABET.getD d 'A' := by
    rw [standard_chars, alphabet_chars]
    decide +kernel
  exact hall ⟨d, h⟩

theorem toBase64Url_eq : toBase64Url value = encodeCanonicalBase64Url value := by
  apply String.toList_injective
  have hdigits := digits_toSextets (digits_digitsOf value)
  have hbody : ((toSextets (digitsOf value)).map (BASE64_ALPHABET.getD · 'A')).map toUrlSafe =
      textOf (toSextets (digitsOf value)) := by
    rw [List.map_map]
    exact List.map_congr_left fun d hd => toUrlSafe_getD (hdigits d hd)
  have hpad (n : Nat) : (List.replicate n '=').map toUrlSafe = List.replicate n '=' := by
    rw [List.map_replicate]
    rfl
  rw [toBase64Url, String.toList_ofList, toList_encode]
  unfold btoa
  rw [List.map_append, hbody, hpad]
  -- the padding is all that is stripped
  have hstrip (n : Nat) {cs : List Char} (h : ∀ c ∈ cs, c ∈ BASE64URL_ALPHABET) :
      unpadded (cs ++ List.replicate n '=') = cs := by
    induction n with
    | zero => rw [List.replicate_zero, List.append_nil, unpadded_eq h]
    | succ n ih =>
      rw [List.replicate_succ', ← List.append_assoc]
      unfold unpadded at ih ⊢
      rw [List.reverse_append, List.reverse_singleton, List.singleton_append, List.dropWhile_cons_of_pos rfl]
      exact ih
  exact hstrip _ (textOf_mem hdigits)

theorem dropPad_append (cs : List Char) : dropPad (cs ++ ['=']) = cs := by
  unfold dropPad
  rw [List.getLast?_concat, if_pos rfl, List.dropLast_concat]

theorem dropPad_of_ne (h : ∀ c ∈ cs, c ≠ '=') : dropPad cs = cs := by
  unfold dropPad
  rw [if_neg]
  intro hlast
  exact h '=' (List.mem_of_getLast? hlast) rfl

/-- `atob` of a padded text of the alphabet. -/
theorem fromBase64Url_eq (h : ∀ c ∈ s.toList, c ∈ BASE64URL_ALPHABET) (hm : s.toList.length % 4 ≠ 1) :
    fromBase64Url s = some (bytesOf (toBytes (s.toList.map base64UrlIndex))) := by
  have hstandard : ∀ c ∈ s.toList.map toStandard, c ∈ BASE64_ALPHABET ∧ asciiWhitespace c = false ∧ c ≠ '=' := by
    intro c hc
    obtain ⟨d, hd, rfl⟩ := List.mem_map.mp hc
    obtain ⟨hin, -, hspace, hpad⟩ := toStandard_spec (h d hd)
    exact ⟨hin, hspace, hpad⟩
  have hindex : (s.toList.map toStandard).map (BASE64_ALPHABET.idxOf ·) = s.toList.map base64UrlIndex := by
    rw [List.map_map]
    exact List.map_congr_left fun c hc => (toStandard_spec (h c hc)).2.1
  have hlength : (s.toList.map toStandard).length = s.toList.length := List.length_map _
  unfold fromBase64Url
  dsimp only
  generalize s.toList.map toStandard = cs at hstandard hindex hlength
  rw [← hlength] at hm
  -- at most two characters are padded, and they are stripped again
  have hpads : (cs.length + 3) / 4 * 4 - cs.length ≤ 2 ∧ (cs.length + ((cs.length + 3) / 4 * 4 - cs.length)) % 4 = 0 := by
    omega
  generalize (cs.length + 3) / 4 * 4 - cs.length = pads at hpads
  have hfilter : (cs ++ List.replicate pads '=').filter (!asciiWhitespace ·) = cs ++ List.replicate pads '=' := by
    rw [List.filter_eq_self]
    intro c hc
    rcases List.mem_append.mp hc with hc | hc
    · rw [(hstandard c hc).2.1]
      rfl
    · rw [(List.mem_replicate.mp hc).2]
      rfl
  have hdrop : dropPad (dropPad (cs ++ List.replicate pads '=')) = cs := by
    have hself : dropPad cs = cs := dropPad_of_ne fun c hc => (hstandard c hc).2.2
    match pads, hpads.1 with
    | 0, _ => rw [List.replicate_zero, List.append_nil, hself, hself]
    | 1, _ => rw [List.replicate_one, dropPad_append, hself]
    | 2, _ => rw [List.replicate_succ', ← List.append_assoc, dropPad_append, List.replicate_one, dropPad_append]
  have hall : cs.all (BASE64_ALPHABET.contains ·) = true := by
    rw [List.all_eq_true]
    exact fun c hc => List.contains_iff_mem.mpr (hstandard c hc).1
  unfold atob
  dsimp only
  rw [hfilter, List.length_append, List.length_replicate, if_pos hpads.2, hdrop, hall, hindex, decide_eq_false hm]
  rfl

theorem androidDecode_eq (h : ∀ c ∈ s.toList, c ∈ BASE64URL_ALPHABET) (hm : s.toList.length % 4 ≠ 1) :
    androidDecode s = some (bytesOf (toBytes (s.toList.map base64UrlIndex))) := by
  unfold androidDecode
  rw [unpadded_eq h, ← String.length_toList]
  dsimp only
  rw [Nat.sub_self, decide_eq_false hm]
  rfl

theorem rustDecode_eq (hmem : ∀ c ∈ s.toList, c ∈ BASE64URL_ALPHABET)
    (hcan : Canonical (s.toList.map base64UrlIndex)) :
    rustDecode s = some (bytesOf (toBytes (s.toList.map base64UrlIndex))) := by
  have hall : s.toList.all (BASE64URL_ALPHABET.contains ·) = true := by
    rw [List.all_eq_true]
    exact fun c hc => List.contains_iff_mem.mpr (hmem c hc)
  unfold rustDecode
  rw [hall, decide_eq_true hcan]
  rfl

/-! ## What the encoders write is read back -/

theorem encode_mem : ∀ c ∈ (encodeCanonicalBase64Url value).toList, c ∈ BASE64URL_ALPHABET := by
  rw [toList_encode]
  exact textOf_mem (digits_toSextets (digits_digitsOf value))

theorem length_encode_mod : (encodeCanonicalBase64Url value).toList.length % 4 ≠ 1 := by
  rw [length_encode]
  omega

theorem bytes_encode : bytesOf (toBytes ((encodeCanonicalBase64Url value).toList.map base64UrlIndex)) = value := by
  rw [index_encode, toBytes_toSextets (digits_digitsOf value), bytesOf_digitsOf]

theorem fromBase64Url_encode : fromBase64Url (encodeCanonicalBase64Url value) = some value := by
  rw [fromBase64Url_eq encode_mem length_encode_mod, bytes_encode]

theorem androidDecode_encode : androidDecode (encodeCanonicalBase64Url value) = some value := by
  rw [androidDecode_eq encode_mem length_encode_mod, bytes_encode]

theorem rustDecode_encode : rustDecode (encodeCanonicalBase64Url value) = some value := by
  rw [rustDecode_eq encode_mem (index_encode ▸ canonical_toSextets), bytes_encode]

end

end ZeroVault

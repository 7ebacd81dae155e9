import Mathlib.Data.List.TakeWhile
import ZeroVault.AccountRequests
import ZeroVault.Radix64

/-!
# The canonical base64url codec

The decoder of the shared package collects bits in an accumulator, the encoder
takes three bytes at a time, and the acceptance test looks at the length and the
last character only. All three are about one language, the canonical digit
strings of `Radix64`.
-/

namespace ZeroVault

open Lib Radix64

abbrev Bytes := List UInt8

/-! ## The codec -/

/-- What the decoding loop carries: `output` is the array, `offset` where it is written next. -/
structure Decoding where
  accumulator : Nat
  bits : Nat
  offset : Nat
  output : Bytes
deriving DecidableEq, Repr

def Decoding.next (s : Decoding) (index : Nat) : Decoding :=
  -- the shift is one of 32-bit numbers
  let accumulator := ((s.accumulator <<< 6) ||| index) % 2 ^ 32
  let bits := s.bits + 6
  if 8 ≤ bits then
    let bits := bits - 8
    { accumulator := accumulator &&& if bits = 0 then 0 else (1 <<< bits) - 1
      bits
      offset := s.offset + 1
      output := s.output.set s.offset (UInt8.ofNat ((accumulator >>> bits) &&& 0xff)) }
  else { s with accumulator, bits }

def decodeCanonicalBase64Url (value : String) : Except String Bytes :=
  if !isCanonicalUnpaddedBase64Url value then .error "invalid_canonical_base64url"
  else
    match decodedBase64UrlLength value with
    | none => .error "Invalid typed array length: -1"
    | some length =>
      let start : Decoding := ⟨0, 0, 0, List.replicate length 0⟩
      .ok (value.toList.foldl (fun s character => s.next (base64UrlIndex character)) start).output

/-- `BASE64URL_ALPHABET.charAt`. -/
def alphabetCharAt (index : Nat) : List Char := BASE64URL_ALPHABET[index]?.toList

def encodeGroup (value : Bytes) (offset : Nat) : List Char :=
  let first := (value[offset]?.getD 0).toNat
  let second := value[offset + 1]?
  let third := value[offset + 2]?
  alphabetCharAt (first >>> 2) ++
    alphabetCharAt (((first &&& 0x03) <<< 4) ||| ((second.getD 0).toNat >>> 4)) ++
    (match second with
    | some second => alphabetCharAt (((second.toNat &&& 0x0f) <<< 2) ||| ((third.getD 0).toNat >>> 6))
    | none => []) ++
    match third with
    | some third => alphabetCharAt (third.toNat &&& 0x3f)
    | none => []

/-- The offsets are 0, 3, 6 and so on, below the length. -/
def encodeCanonicalBase64Url (value : Bytes) : String :=
  String.ofList ((List.range ((value.length + 2) / 3)).flatMap fun turn => encodeGroup value (3 * turn))

/-! ## Digits -/

def charsFrom (first : Char) (count : Nat) : List Char := (List.range count).map fun i => Char.ofNat (first.toNat + i)

theorem alphabet_chars :
    BASE64URL_ALPHABET = charsFrom 'A' 26 ++ charsFrom 'a' 26 ++ charsFrom '0' 10 ++ ['-', '_'] :=
  String.toList_ofList.trans (by decide +kernel)

theorem alphabet_nodup : BASE64URL_ALPHABET.Nodup := by
  rw [alphabet_chars]
  decide +kernel

theorem alphabet_length : BASE64URL_ALPHABET.length = 64 := by
  rw [alphabet_chars]
  rfl

def digitsOf (value : Bytes) : List Nat := value.map UInt8.toNat

def bytesOf (digits : List Nat) : Bytes := digits.map UInt8.ofNat

def textOf (digits : List Nat) : List Char := digits.map (BASE64URL_ALPHABET.getD · 'A')

section
variable {value : Bytes} {digits : List Nat} {cs : List Char} {s : String}

theorem digits_digitsOf (value : Bytes) : Digits 256 (digitsOf value) := by
  intro d hd
  obtain ⟨b, -, rfl⟩ := List.mem_map.mp hd
  exact b.toNat_lt

@[simp] theorem bytesOf_digitsOf (value : Bytes) : bytesOf (digitsOf value) = value := by
  unfold bytesOf digitsOf
  rw [List.map_map]
  exact (List.map_congr_left fun _ _ => UInt8.ofNat_toNat).trans (List.map_id _)

theorem digitsOf_bytesOf (h : Digits 256 digits) : digitsOf (bytesOf digits) = digits := by
  unfold bytesOf digitsOf
  rw [List.map_map]
  exact (List.map_congr_left fun d hd => UInt8.toNat_ofNat_of_lt' (h d hd)).trans (List.map_id _)

@[simp] theorem length_digitsOf : (digitsOf value).length = value.length := List.length_map _

@[simp] theorem length_bytesOf : (bytesOf digits).length = digits.length := List.length_map _

@[simp] theorem length_textOf : (textOf digits).length = digits.length := List.length_map _

theorem index_textOf (h : Digits 64 digits) : (textOf digits).map base64UrlIndex = digits :=
  map_idxOf_getD alphabet_nodup 'A' (alphabet_length ▸ h)

theorem textOf_index (h : ∀ c ∈ cs, c ∈ BASE64URL_ALPHABET) : textOf (cs.map base64UrlIndex) = cs :=
  map_getD_idxOf 'A' h

theorem digits_index (h : ∀ c ∈ cs, c ∈ BASE64URL_ALPHABET) : Digits 64 (cs.map base64UrlIndex) :=
  alphabet_length ▸ idxOf_lt h

theorem textOf_mem (h : Digits 64 digits) : ∀ c ∈ textOf digits, c ∈ BASE64URL_ALPHABET := by
  intro c hc
  obtain ⟨d, hd, rfl⟩ := List.mem_map.mp hc
  exact getD_mem 'A' (alphabet_length ▸ h d hd)

theorem alphabetCharAt_eq {d : Nat} (h : d < 64) : alphabetCharAt d = textOf [d] := by
  unfold alphabetCharAt textOf
  rw [List.getElem?_eq_getElem (alphabet_length.symm ▸ h), Option.toList_some, List.map_singleton,
    List.getD_eq_getElem]

/-! ## The accepted strings -/

theorem unpadded_eq (h : ∀ c ∈ cs, c ∈ BASE64URL_ALPHABET) : unpadded cs = cs := by
  unfold unpadded
  have hkeep : cs.reverse.dropWhile (· == '=') = cs.reverse := by
    rw [List.dropWhile_eq_self_iff]
    intro hpos hpad
    have hmem : cs.reverse[0] ∈ BASE64URL_ALPHABET := h _ (List.mem_reverse.mp (List.getElem_mem hpos))
    rw [beq_iff_eq.mp hpad] at hmem
    exact absurd hmem (by decide)
  rw [hkeep, List.reverse_reverse]

theorem isCanonicalUnpaddedBase64Url_iff : isCanonicalUnpaddedBase64Url s = true ↔
    s.toList ≠ [] ∧ (∀ c ∈ s.toList, c ∈ BASE64URL_ALPHABET) ∧ Canonical (s.toList.map base64UrlIndex) := by
  unfold isCanonicalUnpaddedBase64Url
  simp only [Bool.and_eq_true, Bool.not_eq_true', List.isEmpty_eq_false_iff, List.all_eq_true, List.contains_iff_mem,
    canonical_iff, List.length_map, List.getLast?_map, and_assoc]
  refine and_congr_right fun _ => and_congr_right fun _ => ?_
  have hlt : s.toList.length % 4 < 4 := Nat.mod_lt _ (by decide)
  split
  · rename_i h
    simp [h]
  · rename_i h
    simp [h]
  · rename_i h
    simp [h]
  · rename_i h1 h2 h3
    exact ⟨fun _ => ⟨h1, fun h => (h2 h).elim, fun h => (h3 h).elim⟩, fun _ => rfl⟩

theorem decodedBase64UrlLength_eq (h : isCanonicalUnpaddedBase64Url s = true) :
    decodedBase64UrlLength s = some (s.toList.length * 6 / 8) := by
  obtain ⟨-, hmem, hcan⟩ := isCanonicalUnpaddedBase64Url_iff.mp h
  have hone : s.toList.length % 4 ≠ 1 := by
    have := (canonical_iff.mp hcan).1
    rwa [List.length_map] at this
  rw [String.length_toList] at hone
  unfold decodedBase64UrlLength
  rw [unpadded_eq hmem, String.length_toList]
  dsimp only
  rw [Nat.sub_self, if_neg]
  rintro (hr | hp)
  · exact hone hr
  · exact absurd hp.1 (Nat.lt_irrefl 0)

theorem unpadded_isPrefix : unpadded cs <+: cs := by
  rw [← List.reverse_suffix, unpadded, List.reverse_reverse]
  exact List.dropWhile_suffix _

/-- What is accepted with padding or stray bits is neither when whole groups of bytes are asked for. -/
theorem canonical_of_whole_groups {max k : Nat} (hs : base64UrlMax max s = true)
    (hlength : decodedBase64UrlLength s = some (3 * k)) : isCanonicalUnpaddedBase64Url s = true := by
  unfold base64UrlMax at hs
  simp only [Bool.and_eq_true, Bool.not_eq_true', List.isEmpty_eq_false_iff, List.all_eq_true,
    List.contains_iff_mem] at hs
  obtain ⟨⟨⟨-, hne⟩, hmem⟩, -⟩ := hs
  unfold decodedBase64UrlLength at hlength
  dsimp only at hlength
  split at hlength
  · cases hlength
  · rename_i hnot
    rw [not_or, not_and_or] at hnot
    have hn := Option.some.inj hlength
    have hmod : (unpadded s.toList).length % 4 = 0 := by omega
    have hpadding : ¬ 0 < s.length - (unpadded s.toList).length := by
      rcases hnot.2 with hp | hp
      · exact hp
      · rw [Classical.not_not] at hp
        omega
    have hself : unpadded s.toList = s.toList := by
      refine unpadded_isPrefix.eq_of_length_le ?_
      rw [String.length_toList]
      omega
    rw [hself] at hne hmem hmod
    exact isCanonicalUnpaddedBase64Url_iff.mpr
      ⟨hne, hmem, canonical_of_length ((List.length_map _).symm ▸ hmod)⟩

/-! ## The decoding loop -/

/-- The accumulator holds the bits that were not given out, and no others. -/
structure Decoding.Fits (t : Decoding) : Prop where
  bits : t.bits < 8
  accumulator : t.accumulator < 2 ^ t.bits

theorem Decoding.Fits.shifted {t : Decoding} {d : Nat} (ht : t.Fits) (h : d < 64) :
    t.accumulator * 64 + d < 2 ^ (t.bits + 6) := by
  have hacc := ht.accumulator
  rw [Nat.pow_add]
  omega

/-- One turn in arithmetic: nothing is shifted out of the 32 bits. -/
theorem next_eq {t : Decoding} {d : Nat} (ht : t.Fits) (h : d < 64) : t.next d =
    if 2 ≤ t.bits then
      ⟨(t.accumulator * 64 + d) % 2 ^ (t.bits - 2), t.bits - 2, t.offset + 1,
        t.output.set t.offset (UInt8.ofNat ((t.accumulator * 64 + d) / 2 ^ (t.bits - 2) % 256))⟩
    else ⟨t.accumulator * 64 + d, t.bits + 6, t.offset, t.output⟩ := by
  have hor : ((t.accumulator <<< 6) ||| d) % 2 ^ 32 = t.accumulator * 64 + d := by
    have hbits := ht.bits
    have hlt := Nat.lt_of_lt_of_le (ht.shifted h) (Nat.pow_le_pow_right (by decide) (show t.bits + 6 ≤ 32 by omega))
    rw [← Nat.shiftLeft_add_eq_or_of_lt (show d < 2 ^ 6 from h), Nat.shiftLeft_eq]
    exact Nat.mod_eq_of_lt hlt
  unfold Decoding.next
  dsimp only
  rw [hor]
  by_cases hbits : 2 ≤ t.bits
  · have hmask : (if t.bits + 6 - 8 = 0 then 0 else (1 <<< (t.bits + 6 - 8)) - 1) = 2 ^ (t.bits - 2) - 1 := by
      have he : t.bits + 6 - 8 = t.bits - 2 := by omega
      rw [he, Nat.shiftLeft_eq, Nat.one_mul]
      split
      · rename_i hz
        simp [hz]
      · rfl
    have hff : ∀ n : Nat, n &&& 0xff = n % 256 := fun n => Nat.and_two_pow_sub_one_eq_mod n 8
    rw [if_pos (show 8 ≤ t.bits + 6 by omega), if_pos hbits, hmask, Nat.and_two_pow_sub_one_eq_mod, hff,
      Nat.shiftRight_eq_div_pow, show t.bits + 6 - 8 = t.bits - 2 by omega]
  · rw [if_neg (show ¬ 8 ≤ t.bits + 6 by omega), if_neg hbits]

theorem decoding_loop : ∀ (digits : List Nat) (acc bits : Nat) (done : Bytes), bits < 8 → acc < 2 ^ bits →
    Digits 64 digits →
    (digits.foldl Decoding.next
      ⟨acc, bits, done.length, done ++ List.replicate (regroup 6 acc bits digits).length 0⟩).output =
      done ++ bytesOf (regroup 6 acc bits digits)
  | [], _, _, _, _, _, _ => rfl
  | d :: digits, acc, bits, done, hlt, hacc, h => by
    rw [digits_cons] at h
    have ht : Decoding.Fits
        ⟨acc, bits, done.length, done ++ List.replicate (regroup 6 acc bits (d :: digits)).length 0⟩ := ⟨hlt, hacc⟩
    have hshifted := ht.shifted h.1
    rw [List.foldl_cons, next_eq ht h.1, regroup]
    by_cases hbits : 2 ≤ bits
    · rw [if_pos hbits, if_pos (show 8 ≤ bits + 6 by omega), show bits + 6 - 8 = bits - 2 by omega]
      dsimp only
      rw [List.length_cons, List.replicate_succ, List.set_append_right _ _ (Nat.le_refl _), Nat.sub_self,
        List.set_cons_zero, List.append_cons]
      have hloop := decoding_loop digits ((acc * 64 + d) % 2 ^ (bits - 2)) (bits - 2)
        (done ++ [UInt8.ofNat ((acc * 64 + d) / 2 ^ (bits - 2) % 256)]) (by omega)
        (Nat.mod_lt _ (Nat.two_pow_pos _)) h.2
      rw [List.length_append, List.length_singleton] at hloop
      exact hloop.trans (List.append_assoc _ _ _)
    · rw [if_neg hbits, if_neg (show ¬ 8 ≤ bits + 6 by omega)]
      exact decoding_loop digits (acc * 64 + d) (bits + 6) done (by omega) hshifted h.2

theorem decodeCanonicalBase64Url_eq (h : isCanonicalUnpaddedBase64Url s = true) :
    decodeCanonicalBase64Url s = .ok (bytesOf (toBytes (s.toList.map base64UrlIndex))) := by
  obtain ⟨-, hmem, -⟩ := isCanonicalUnpaddedBase64Url_iff.mp h
  have hdigits := digits_index hmem
  have hlength : s.toList.length * 6 / 8 = (regroup 6 0 0 (s.toList.map base64UrlIndex)).length := by
    rw [regroup_six hdigits, length_toBytes, List.length_map]
  unfold decodeCanonicalBase64Url
  rw [h, decodedBase64UrlLength_eq h, hlength]
  show Except.ok _ = _
  rw [← List.foldl_map (f := base64UrlIndex) (g := Decoding.next)]
  have hloop := decoding_loop _ 0 0 [] (by decide) (by decide) hdigits
  rw [List.length_nil, List.nil_append, List.nil_append] at hloop
  rw [hloop, regroup_six hdigits]

theorem decodeCanonicalBase64Url_ok {b : Bytes} (h : decodeCanonicalBase64Url s = .ok b) :
    isCanonicalUnpaddedBase64Url s = true := by
  unfold decodeCanonicalBase64Url at h
  split at h
  · cases h
  · rename_i hc
    simpa using hc

/-! ## The encoding loop -/

theorem or_eq_add {a b : Nat} (i : Nat) (h : b < 2 ^ i) : (a <<< i) ||| b = a * 2 ^ i + b := by
  rw [← Nat.shiftLeft_add_eq_or_of_lt h, Nat.shiftLeft_eq]

theorem charAt_first (a : UInt8) : alphabetCharAt (a.toNat >>> 2) = textOf [a.toNat / 4] := by
  have hlt := a.toNat_lt
  have hshift : a.toNat >>> 2 = a.toNat / 4 := Nat.shiftRight_eq_div_pow _ 2
  rw [hshift, alphabetCharAt_eq (by omega)]

theorem charAt_second (a b : UInt8) : alphabetCharAt (((a.toNat &&& 0x03) <<< 4) ||| (b.toNat >>> 4)) =
    textOf [a.toNat % 4 * 16 + b.toNat / 16] := by
  have hlt := b.toNat_lt
  have hmask : a.toNat &&& 0x03 = a.toNat % 4 := Nat.and_two_pow_sub_one_eq_mod _ 2
  have hshift : b.toNat >>> 4 = b.toNat / 16 := Nat.shiftRight_eq_div_pow _ 4
  have hor : ((a.toNat % 4) <<< 4) ||| (b.toNat / 16) = a.toNat % 4 * 16 + b.toNat / 16 :=
    or_eq_add 4 (show b.toNat / 16 < 16 by omega)
  rw [hmask, hshift, hor, alphabetCharAt_eq (by omega)]

theorem charAt_third (b c : UInt8) : alphabetCharAt (((b.toNat &&& 0x0f) <<< 2) ||| (c.toNat >>> 6)) =
    textOf [b.toNat % 16 * 4 + c.toNat / 64] := by
  have hlt := c.toNat_lt
  have hmask : b.toNat &&& 0x0f = b.toNat % 16 := Nat.and_two_pow_sub_one_eq_mod _ 4
  have hshift : c.toNat >>> 6 = c.toNat / 64 := Nat.shiftRight_eq_div_pow _ 6
  have hor : ((b.toNat % 16) <<< 2) ||| (c.toNat / 64) = b.toNat % 16 * 4 + c.toNat / 64 :=
    or_eq_add 2 (show c.toNat / 64 < 4 by omega)
  rw [hmask, hshift, hor, alphabetCharAt_eq (by omega)]

theorem charAt_fourth (c : UInt8) : alphabetCharAt (c.toNat &&& 0x3f) = textOf [c.toNat % 64] := by
  have hmask : c.toNat &&& 0x3f = c.toNat % 64 := Nat.and_two_pow_sub_one_eq_mod _ 6
  rw [hmask, alphabetCharAt_eq (Nat.mod_lt _ (by decide))]

theorem encode_groups : ∀ (value : Bytes), ((List.range ((value.length + 2) / 3)).flatMap fun turn =>
    encodeGroup value (3 * turn)) = textOf (toSextets (digitsOf value))
  | [] => rfl
  | [a] => by
    have hturns : ([a].length + 2) / 3 = 1 := by simp
    rw [hturns, List.range_one, List.flatMap_singleton]
    show alphabetCharAt (a.toNat >>> 2) ++
      alphabetCharAt (((a.toNat &&& 0x03) <<< 4) ||| ((0 : UInt8).toNat >>> 4)) ++ [] ++ [] = _
    have hzero : (0 : UInt8).toNat / 16 = 0 := by decide
    rw [charAt_first, charAt_second, hzero]
    rfl
  | [a, b] => by
    have hturns : ([a, b].length + 2) / 3 = 1 := by simp
    rw [hturns, List.range_one, List.flatMap_singleton]
    show alphabetCharAt (a.toNat >>> 2) ++ alphabetCharAt (((a.toNat &&& 0x03) <<< 4) ||| (b.toNat >>> 4)) ++
      alphabetCharAt (((b.toNat &&& 0x0f) <<< 2) ||| ((0 : UInt8).toNat >>> 6)) ++ [] = _
    have hzero : (0 : UInt8).toNat / 64 = 0 := by decide
    rw [charAt_first, charAt_second, charAt_third, hzero]
    rfl
  | a :: b :: c :: value => by
    have hturns : ((a :: b :: c :: value).length + 2) / 3 = (value.length + 2) / 3 + 1 := by
      simp only [List.length_cons]
      omega
    rw [hturns, List.range_succ_eq_map, List.flatMap_cons, List.flatMap_map]
    show (alphabetCharAt _ ++ alphabetCharAt _ ++ alphabetCharAt _ ++ alphabetCharAt _) ++
      ((List.range ((value.length + 2) / 3)).flatMap fun turn => encodeGroup value (3 * turn)) = _
    rw [charAt_first, charAt_second, charAt_third, charAt_fourth, encode_groups value]
    rfl

theorem toList_encode : (encodeCanonicalBase64Url value).toList = textOf (toSextets (digitsOf value)) := by
  unfold encodeCanonicalBase64Url
  rw [String.toList_ofList, encode_groups]

/-! ## The codec is one language -/

theorem index_encode : (encodeCanonicalBase64Url value).toList.map base64UrlIndex = toSextets (digitsOf value) := by
  rw [toList_encode, index_textOf (digits_toSextets (digits_digitsOf value))]

theorem length_encode : (encodeCanonicalBase64Url value).toList.length = (value.length * 8 + 5) / 6 := by
  rw [toList_encode, length_textOf, length_toSextets, length_digitsOf]

theorem canonical_encode (h : value ≠ []) : isCanonicalUnpaddedBase64Url (encodeCanonicalBase64Url value) = true := by
  rw [isCanonicalUnpaddedBase64Url_iff, index_encode]
  refine ⟨fun hnil => ?_, ?_, canonical_toSextets⟩
  · have hlength := @length_encode value
    rw [hnil, List.length_nil] at hlength
    have hpos := List.length_pos_iff.mpr h
    omega
  · rw [toList_encode]
    exact textOf_mem (digits_toSextets (digits_digitsOf value))

theorem decodedBase64UrlLength_encode (h : value ≠ []) :
    decodedBase64UrlLength (encodeCanonicalBase64Url value) = some value.length := by
  rw [decodedBase64UrlLength_eq (canonical_encode h), length_encode]
  refine congrArg some ?_
  omega

theorem base64UrlMax_encode {max : Nat} (h : value ≠ []) (hmax : (value.length * 8 + 5) / 6 ≤ max) :
    base64UrlMax max (encodeCanonicalBase64Url value) = true := by
  obtain ⟨hne, hmem, -⟩ := isCanonicalUnpaddedBase64Url_iff.mp (canonical_encode h)
  unfold base64UrlMax
  rw [unpadded_eq hmem, ← String.length_toList, length_encode]
  simp only [Bool.and_eq_true, decide_eq_true_eq, Bool.not_eq_true', List.isEmpty_eq_false_iff, List.all_eq_true,
    List.contains_iff_mem]
  refine ⟨⟨⟨hmax, hne⟩, hmem⟩, ?_⟩
  rw [length_encode, Nat.sub_self]
  exact Nat.zero_le 2

theorem decode_encode (h : value ≠ []) : decodeCanonicalBase64Url (encodeCanonicalBase64Url value) = .ok value := by
  rw [decodeCanonicalBase64Url_eq (canonical_encode h), index_encode, toBytes_toSextets (digits_digitsOf value),
    bytesOf_digitsOf]

theorem encode_decode {b : Bytes} (h : decodeCanonicalBase64Url s = .ok b) : b ≠ [] ∧ encodeCanonicalBase64Url b = s := by
  have hc := decodeCanonicalBase64Url_ok h
  rw [decodeCanonicalBase64Url_eq hc] at h
  cases h
  obtain ⟨hne, hmem, hcan⟩ := isCanonicalUnpaddedBase64Url_iff.mp hc
  have hdigits := digits_index hmem
  have hback : encodeCanonicalBase64Url (bytesOf (toBytes (s.toList.map base64UrlIndex))) = s := by
    apply String.toList_injective
    rw [toList_encode, digitsOf_bytesOf (digits_toBytes hdigits), toSextets_toBytes hdigits hcan, textOf_index hmem]
  refine ⟨fun hnil => hne ?_, hback⟩
  rw [← hback, hnil]
  rfl

theorem decode_injective {s' : String} {b : Bytes} (h : decodeCanonicalBase64Url s = .ok b)
    (h' : decodeCanonicalBase64Url s' = .ok b) : s = s' := by rw [← (encode_decode h).2, (encode_decode h').2]

theorem decodes_iff : (∃ b, decodeCanonicalBase64Url s = .ok b) ↔ ∃ b, b ≠ [] ∧ encodeCanonicalBase64Url b = s := by
  constructor
  · rintro ⟨b, hb⟩
    exact ⟨b, encode_decode hb⟩
  · rintro ⟨b, hb, rfl⟩
    exact ⟨b, decode_encode hb⟩

theorem canonicalBase64UrlBytes_iff {n : Nat} (hn : 0 < n) :
    canonicalBase64UrlBytes n s = true ↔ ∃ b : Bytes, b.length = n ∧ encodeCanonicalBase64Url b = s := by
  unfold canonicalBase64UrlBytes
  simp only [Bool.and_eq_true, decide_eq_true_eq, beq_iff_eq]
  constructor
  · rintro ⟨⟨hlength, hc⟩, hdecoded⟩
    obtain ⟨-, hs⟩ := encode_decode (decodeCanonicalBase64Url_eq hc)
    refine ⟨_, ?_, hs⟩
    rw [decodedBase64UrlLength_eq hc] at hdecoded
    rw [length_bytesOf, length_toBytes, List.length_map]
    exact Option.some.inj hdecoded
  · rintro ⟨b, rfl, rfl⟩
    have hc := canonical_encode (List.length_pos_iff.mp hn)
    rw [decodedBase64UrlLength_eq hc, length_encode, ← String.length_toList, length_encode]
    refine ⟨⟨rfl, hc⟩, congrArg some ?_⟩
    omega

theorem canonical_codec :
    (∀ b : Bytes, b ≠ [] → decodeCanonicalBase64Url (encodeCanonicalBase64Url b) = .ok b) ∧
      (∀ s, (∃ b, decodeCanonicalBase64Url s = .ok b) ↔ ∃ b, b ≠ [] ∧ encodeCanonicalBase64Url b = s) ∧
      (∀ s b, decodeCanonicalBase64Url s = .ok b → encodeCanonicalBase64Url b = s) ∧
      ∀ n s, 0 < n → (canonicalBase64UrlBytes n s = true ↔
        ∃ b : Bytes, b.length = n ∧ encodeCanonicalBase64Url b = s) :=
  ⟨fun _ => decode_encode, fun _ => decodes_iff, fun _ _ h => (encode_decode h).2,
    fun _ _ => canonicalBase64UrlBytes_iff⟩

/-- The empty string is the encoding of no bytes, and no schema accepts it. -/
theorem empty_encoding_refused : ¬ ∀ n s, canonicalBase64UrlBytes n s = true ↔
    ∃ b : Bytes, b.length = n ∧ encodeCanonicalBase64Url b = s := by
  intro hall
  exact absurd ((hall 0 "").mpr ⟨[], rfl, rfl⟩) (by decide)

end

end ZeroVault

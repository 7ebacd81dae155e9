import ZeroVault.Base64Url
import ZeroVault.BitGroups
import ZeroVault.Encodings
import ZeroVault.NativeHandles
import ZeroVault.VaultItems

/-!
# Base32 secrets

The decoders of the web vault and of the extension never mask their accumulator,
the decoder of the native core does. The bits that are left are at the low end of
each of them (`Holds`), so they give out the same groups of eight.
-/

namespace ZeroVault

open Lib Radix64

/-! ## The codecs -/

/-- What the decoding loops carry; the accumulator is the bit pattern of a 32-bit number. -/
structure Base32State where
  bits : Nat := 0
  value : UInt32 := 0
  output : Bytes := []
deriving DecidableEq, Repr

section
variable (alphabet : String) (toUpperCase : Char → List Char)

def decodeBase32Char (s : Base32State) (char : Char) : Except String Base32State :=
  match alphabet.toList.idxOf? char with
  | none => .error s!"Invalid base32 character: {char}"
  | some index =>
    let value := s.value <<< 5 ||| UInt32.ofNat index
    let bits := s.bits + 5
    if 8 ≤ bits then
      let bits := bits - 8
      .ok { bits, value, output := s.output ++ [(value >>> UInt32.ofNat bits &&& 0xff).toUInt8] }
    else .ok { s with bits, value }

/-- `/[\s=-]/` -/
def isBase32Filler (c : Char) : Bool := isJsSpace c || c == '=' || c == '-'

/-- `toUpperCase` gives the upper case of one character. -/
def decodeBase32With (input : String) : Except String Bytes :=
  let cleaned := (input.toList.filter fun c => !isBase32Filler c).flatMap toUpperCase
  (cleaned.foldlM (decodeBase32Char alphabet) {}).map Base32State.output

end

namespace Web

def BASE32_ALPHABET : String := "ABCDEFGHIJKLMNOPQRSTUVWXYZ234567"

def decodeBase32 (toUpperCase : Char → List Char) : String → Except String Bytes :=
  decodeBase32With BASE32_ALPHABET toUpperCase

def base32Digit (index : UInt32) : List Char := BASE32_ALPHABET.toList[index.toNat]?.toList

/-- The inner `while` loop, for the bits that are there. -/
def encodeBase32Digits (value : UInt32) : Nat → List Char → Nat × List Char
  | bits + 5, output => encodeBase32Digits value bits (output ++ base32Digit (value >>> UInt32.ofNat bits &&& 0x1f))
  | bits, output => (bits, output)

structure Base32Encoding where
  bits : Nat := 0
  value : UInt32 := 0
  output : List Char := []
deriving DecidableEq, Repr

def encodeBase32Byte (s : Base32Encoding) (byte : UInt8) : Base32Encoding :=
  let value := s.value <<< 8 ||| byte.toUInt32
  let (bits, output) := encodeBase32Digits value (s.bits + 8) s.output
  { bits, value, output }

def encodeBase32 (data : Bytes) : String :=
  let s := data.foldl encodeBase32Byte {}
  String.ofList <|
    if 0 < s.bits then s.output ++ base32Digit (s.value <<< UInt32.ofNat (5 - s.bits) &&& 0x1f) else s.output

end Web

namespace Extension

def BASE32_ALPHABET : String := "ABCDEFGHIJKLMNOPQRSTUVWXYZ234567"

def decodeBase32 (toUpperCase : Char → List Char) : String → Except String Bytes :=
  decodeBase32With BASE32_ALPHABET toUpperCase

end Extension

namespace Native

/-- `White_Space`, what `str::trim` removes. -/
def isWhitespace (c : Char) : Bool :=
  let n := c.toNat
  (0x9 ≤ n && n ≤ 0xd) || n == 0x20 || n == 0x85 || n == 0xa0 || n == 0x1680 || (0x2000 ≤ n && n ≤ 0x200a) ||
    n == 0x2028 || n == 0x2029 || n == 0x202f || n == 0x205f || n == 0x3000

def trimEnd (p : Char → Bool) (value : List Char) : List Char := (value.reverse.dropWhile p).reverse

def trim (value : List Char) : List Char := trimEnd isWhitespace (value.dropWhile isWhitespace)

def toAsciiUppercase (byte : UInt8) : UInt8 := if 97 ≤ byte && byte ≤ 122 then byte - 32 else byte

def base32Value (byte : UInt8) : Option UInt8 :=
  let upper := toAsciiUppercase byte
  if 65 ≤ upper && upper ≤ 90 then some (upper - 65)
  else if 50 ≤ upper && upper ≤ 55 then some (byte - 50 + 26)
  else none

def decodeBase32Byte (s : Base32State) (byte : UInt8) : Except MobileCryptoError Base32State :=
  match base32Value byte with
  | none => .error .invalidInput
  | some value =>
    let accumulator := s.value <<< 5 ||| value.toUInt32
    let bits := s.bits + 5
    if 8 ≤ bits then
      let bits := bits - 8
      .ok {
        bits
        value := accumulator &&& ((1 <<< UInt32.ofNat bits) - 1)
        output := s.output ++ [(accumulator >>> UInt32.ofNat bits).toUInt8] }
    else .ok { s with bits, value := accumulator }

def decodeBase32Secret (value : String) : Except MobileCryptoError Bytes :=
  let normalized := trimEnd (· == '=') (trim value.toList)
  let bytes := Utf16.utf8 normalized
  if bytes.isEmpty || 2048 < bytes.length || normalized.contains '=' then .error .invalidInput
  else
    match bytes.foldlM decodeBase32Byte {} with
    | .error e => .error e
    | .ok s => if s.output.length < 10 || (0 < s.bits && s.value ≠ 0) then .error .invalidInput else .ok s.output

end Native

/-! ## The bits that are left -/

/-- The bits that are left are the low end of the accumulator. -/
def Holds (s : Groups) (value : UInt32) : Prop := s.acc = value.toNat % 2 ^ s.bits

section
variable {s : Groups} {value : UInt32} {w v d : Nat}

theorem toNat_ofNat_shift {n : Nat} (hn : n < 32) : (UInt32.ofNat n).toNat % 32 = n := by
  rw [UInt32.toNat_ofNat_of_lt' (by change n < 2 ^ 32; omega), Nat.mod_eq_of_lt hn]

theorem Holds.take (h : Holds s value) (hd : d < 2 ^ w) (hbits : s.bits + w < 32) :
    Holds (s.take w d) (value <<< UInt32.ofNat w ||| UInt32.ofNat d) := by
  have hsmall : 2 ^ w < 2 ^ 32 := Nat.pow_lt_pow_right (by decide) (by omega)
  have hwidth : (2 : Nat) ^ 32 = 2 ^ w * 2 ^ (32 - w) := by rw [← Nat.pow_add, Nat.add_sub_cancel' (by omega)]
  have hdigit : (UInt32.ofNat d).toNat = d := UInt32.toNat_ofNat_of_lt' (Nat.lt_trans hd hsmall)
  have hvalue : (value <<< UInt32.ofNat w ||| UInt32.ofNat d).toNat = 2 ^ w * (value.toNat % 2 ^ (32 - w)) + d := by
    rw [UInt32.toNat_or, UInt32.toNat_shiftLeft, toNat_ofNat_shift (by omega), hdigit, Nat.shiftLeft_eq,
      Nat.mul_comm value.toNat, hwidth, Nat.mul_mod_mul_left, Nat.two_pow_add_eq_or_of_lt hd]
  have hlow : 2 ^ s.bits ∣ 2 ^ (32 - w) := Nat.pow_dvd_pow 2 (by omega)
  change s.acc * 2 ^ w + d = (value <<< UInt32.ofNat w ||| UInt32.ofNat d).toNat % 2 ^ (s.bits + w)
  rw [h, hvalue, Nat.add_comm s.bits w, Nat.pow_add, Nat.mod_mul, Nat.mul_add_mod, Nat.mod_eq_of_lt hd,
    Nat.mul_add_div (Nat.two_pow_pos w), Nat.div_eq_of_lt hd, Nat.add_zero, Nat.mod_mod_of_dvd _ hlow]
  ring

theorem Holds.give (h : Holds s value) : Holds (s.give v) value := by
  have hlow : 2 ^ (s.bits - v) ∣ 2 ^ s.bits := Nat.pow_dvd_pow 2 (Nat.sub_le _ _)
  change s.acc % 2 ^ (s.bits - v) = value.toNat % 2 ^ (s.bits - v)
  rw [h, Nat.mod_mod_of_dvd _ hlow]

theorem Holds.digit (h : Holds s value) (hv : v ≤ s.bits) (hbits : s.bits - v < 32) :
    (value >>> UInt32.ofNat (s.bits - v)).toNat % 2 ^ v = s.acc / 2 ^ (s.bits - v) := by
  have hsplit : 2 ^ s.bits = 2 ^ (s.bits - v) * 2 ^ v := by rw [← Nat.pow_add, Nat.sub_add_cancel hv]
  rw [UInt32.toNat_shiftRight, toNat_ofNat_shift hbits, Nat.shiftRight_eq_div_pow, h, hsplit, Nat.mod_mul_right_div_self]

theorem Holds.mask (h : Holds s value) (hbits : s.bits < 32) :
    Holds s (value &&& ((1 <<< UInt32.ofNat s.bits) - 1)) := by
  have hpow : 2 ^ s.bits < 2 ^ 32 := Nat.pow_lt_pow_right (by decide) hbits
  have hone : ((1 : UInt32) <<< UInt32.ofNat s.bits).toNat = 2 ^ s.bits := by
    rw [UInt32.toNat_shiftLeft, toNat_ofNat_shift hbits, Nat.shiftLeft_eq]
    change 1 * 2 ^ s.bits % 2 ^ 32 = 2 ^ s.bits
    rw [Nat.one_mul, Nat.mod_eq_of_lt hpow]
  have hmask : (((1 : UInt32) <<< UInt32.ofNat s.bits) - 1).toNat = 2 ^ s.bits - 1 := by
    rw [UInt32.toNat_sub_of_le _ _ (UInt32.le_iff_toNat_le.mpr (by rw [hone]; exact Nat.two_pow_pos _)), hone]
    rfl
  change s.acc = (value &&& _).toNat % 2 ^ s.bits
  rw [UInt32.toNat_and, hmask, Nat.and_two_pow_sub_one_eq_mod, Nat.mod_mod, h]

end

/-! ## Five bits in, eight bits out -/

def eight (s : Groups) (d : Nat) : Groups := if 8 ≤ s.bits + 5 then (s.take 5 d).give 8 else s.take 5 d

/-- The loop variables are those of the groups. -/
structure Follows (a : Base32State) (s : Groups) : Prop where
  bits : a.bits = s.bits
  output : digitsOf a.output = s.out
  holds : Holds s a.value

section
variable {a : Base32State} {s s' : Groups} {bits n d : Nat} {ds : List Nat}

theorem follows_nothing : Follows {} {} := ⟨rfl, rfl, rfl⟩

theorem eight_bits (h : s.bits < 8) : (eight s d).bits < 8 := by
  unfold eight
  split
  · change s.bits + 5 - 8 < 8
    omega
  · rename_i hshort
    change s.bits + 5 < 8
    omega

theorem eight_taken (h : Groups.Taken 8 s bits n) (hd : d < 32) :
    Groups.Taken 8 (eight s d) (bits + 5) (n * 32 + d) := by
  have htaken : Groups.Taken 8 (s.take 5 d) (bits + 5) (n * 2 ^ 5 + d) := h.take hd
  unfold eight
  split
  · rename_i hlong
    exact htaken.give hlong
  · exact htaken

theorem Follows.give {value : UInt32} {byte : UInt8} (hbits : s.bits < 8) (houtput : digitsOf a.output = s.out)
    (h : Holds (s.take 5 d) value) (hlong : 8 ≤ s.bits + 5)
    (hbyte : byte.toNat = (value >>> UInt32.ofNat (s.bits + 5 - 8)).toNat % 2 ^ 8) :
    Follows ⟨s.bits + 5 - 8, value, a.output ++ [byte]⟩ (eight s d) := by
  have hdigit := h.digit (v := 8) hlong (by change s.bits + 5 - 8 < 32; omega)
  unfold eight
  rw [if_pos hlong]
  refine ⟨rfl, ?_, h.give⟩
  change digitsOf (a.output ++ [byte]) = s.out ++ [(s.take 5 d).acc / 2 ^ ((s.take 5 d).bits - 8)]
  rw [← hdigit, ← houtput]
  unfold digitsOf
  rw [List.map_append, List.map_singleton, hbyte]
  rfl

theorem decodeBase32Char_follows {alphabet : String} {char : Char} (h : Follows a s) (hbits : s.bits < 8)
    (hchar : alphabet.toList.idxOf? char = some d) (hd : d < 32) :
    ∃ a', decodeBase32Char alphabet a char = .ok a' ∧ Follows a' (eight s d) := by
  have htake := h.holds.take (w := 5) hd (by omega)
  unfold decodeBase32Char
  rw [hchar]
  simp only [h.bits]
  by_cases hlong : 8 ≤ s.bits + 5
  · rw [if_pos hlong]
    refine ⟨_, rfl, Follows.give hbits h.output htake hlong ?_⟩
    have hlow := Nat.and_two_pow_sub_one_eq_mod ((a.value <<< 5 ||| UInt32.ofNat d) >>> UInt32.ofNat (s.bits + 5 - 8)).toNat 8
    rw [UInt32.toNat_toUInt8, UInt32.toNat_and]
    exact (congrArg (· % 2 ^ 8) hlow).trans (Nat.mod_mod _ _)
  · rw [if_neg hlong]
    refine ⟨_, rfl, ?_⟩
    unfold eight
    rw [if_neg hlong]
    exact ⟨rfl, h.output, htake⟩

theorem decodeBase32Byte_follows {byte : UInt8} {a' : Base32State} (h : Follows a s) (hbits : s.bits < 8)
    (hstep : Native.decodeBase32Byte a byte = .ok a') :
    ∃ v, Native.base32Value byte = some v ∧ (v.toNat < 32 → Follows a' (eight s v.toNat)) := by
  unfold Native.decodeBase32Byte at hstep
  cases hvalue : Native.base32Value byte with
  | none =>
    rw [hvalue] at hstep
    exact nomatch hstep
  | some v =>
    refine ⟨v, rfl, fun hv => ?_⟩
    have htake := h.holds.take (w := 5) hv (by omega)
    have hdigit : UInt32.ofNat v.toNat = v.toUInt32 := UInt32.toNat.inj (UInt32.toNat_ofNat_of_lt' (Nat.lt_trans hv (by decide)))
    rw [hdigit] at htake
    rw [hvalue] at hstep
    simp only [h.bits] at hstep
    by_cases hlong : 8 ≤ s.bits + 5
    · rw [if_pos hlong] at hstep
      obtain rfl := Except.ok.inj hstep
      have hfollows := Follows.give hbits h.output htake hlong (UInt32.toNat_toUInt8 _)
      refine ⟨hfollows.bits, hfollows.output, ?_⟩
      have hmask := hfollows.holds.mask (by have := eight_bits (d := v.toNat) hbits; omega)
      rwa [← hfollows.bits] at hmask
    · rw [if_neg hlong] at hstep
      obtain rfl := Except.ok.inj hstep
      unfold eight
      rw [if_neg hlong]
      exact ⟨rfl, h.output, htake⟩

end

/-! ## Digits as characters -/

structure Spells (c : Char) (d : Nat) : Prop where
  ascii : c.toNat < 128
  kept : isBase32Filler c = false
  digit : Web.BASE32_ALPHABET.toList.idxOf? c.toUpper = some d
  small : d < 32

/-- What the decoders rely on: below U+0086 only the letters of ASCII have another upper case. -/
def AsciiUpper (toUpperCase : Char → List Char) : Prop := ∀ c : Char, c.toNat < 0x86 → toUpperCase c = [c.toUpper]

section
variable {toUpperCase : Char → List Char} {cs : List Char} {ds : List Nat} {c : Char} {input : String}

theorem foldlM_follows (hupper : AsciiUpper toUpperCase) (h : List.Forall₂ Spells cs ds) :
    ∀ {a : Base32State} {s : Groups}, Follows a s → s.bits < 8 →
      ∃ a', (cs.flatMap toUpperCase).foldlM (decodeBase32Char Web.BASE32_ALPHABET) a = .ok a' ∧
        Follows a' (ds.foldl eight s) := by
  induction h with
  | nil => exact fun hfollows _ => ⟨_, rfl, hfollows⟩
  | @cons c d cs ds hc _ ih =>
    intro a s hfollows hbits
    obtain ⟨a', hstep, ha'⟩ := decodeBase32Char_follows hfollows hbits hc.digit hc.small
    obtain ⟨a'', hrun, ha''⟩ := ih ha' (eight_bits hbits)
    refine ⟨a'', ?_, ha''⟩
    rw [List.flatMap_cons, hupper c (Nat.lt_trans hc.ascii (by decide)), List.singleton_append, List.foldlM_cons, hstep]
    exact hrun

theorem decodeBase32With_follows (hupper : AsciiUpper toUpperCase)
    (hkept : input.toList.filter (fun c => !isBase32Filler c) = cs) (h : List.Forall₂ Spells cs ds) :
    ∃ a, decodeBase32With Web.BASE32_ALPHABET toUpperCase input = .ok a.output ∧ Follows a (ds.foldl eight {}) := by
  obtain ⟨a, hrun, hfollows⟩ := foldlM_follows hupper h follows_nothing (by decide)
  refine ⟨a, ?_, hfollows⟩
  unfold decodeBase32With
  simp only [hkept, hrun]
  rfl

theorem exists_step_of_foldlM {α β ε : Type} {f : β → α → Except ε β} : ∀ {xs : List α} {b b' : β},
    xs.foldlM f b = .ok b' → ∀ x ∈ xs, ∃ b b', f b x = .ok b'
  | [], _, _, _ => fun _ h => absurd h List.not_mem_nil
  | x :: xs, b, b', h => by
    rw [List.foldlM_cons] at h
    cases hstep : f b x with
    | error e =>
      rw [hstep] at h
      exact nomatch h
    | ok c =>
      rw [hstep] at h
      exact List.forall_mem_cons.mpr ⟨⟨b, c, hstep⟩, exists_step_of_foldlM h⟩

theorem mem_of_decodeBase32Char {alphabet : String} {a a' : Base32State} (h : decodeBase32Char alphabet a c = .ok a') :
    c ∈ alphabet.toList := by
  unfold decodeBase32Char at h
  cases hindex : alphabet.toList.idxOf? c with
  | none =>
    rw [hindex] at h
    exact nomatch h
  | some index =>
    rw [← List.isSome_idxOf?, hindex]
    rfl

end

/-! ## Eight bits in, five bits out -/

def base32Text (ds : List Nat) : List Char := ds.flatMap fun d => Web.BASE32_ALPHABET.toList[d]?.toList

structure Emits (bits : Nat) (value : UInt32) (output : List Char) (s : Groups) : Prop where
  bits : bits = s.bits
  output : output = base32Text s.out
  holds : Holds s value

section
variable {s : Groups} {bits left n : Nat} {value : UInt32} {output : List Char} {ds : List Nat}

theorem base32Text_snoc {d : Nat} : base32Text (ds ++ [d]) = base32Text ds ++ Web.BASE32_ALPHABET.toList[d]?.toList := by
  unfold base32Text
  rw [List.flatMap_append, List.flatMap_singleton]

theorem Emits.give {value' : UInt32} (h : Emits left value output s) (hlong : 5 ≤ left) (hbits : left < 32)
    (hdigit : value'.toNat = (value >>> UInt32.ofNat (left - 5)).toNat % 2 ^ 5) :
    Emits (left - 5) value (output ++ Web.base32Digit value') (s.give 5) := by
  obtain ⟨rfl, houtput, hholds⟩ := h
  refine ⟨rfl, ?_, hholds.give⟩
  change output ++ Web.base32Digit value' = base32Text (s.out ++ [s.acc / 2 ^ (s.bits - 5)])
  rw [base32Text_snoc, ← houtput, ← hholds.digit hlong (by omega), ← hdigit]
  rfl

theorem encodeBase32Digits_emits : ∀ {left : Nat} {output : List Char} {s : Groups}, Emits left value output s →
    Groups.Taken 5 s bits n → left < 32 →
    ∃ s', Emits (Web.encodeBase32Digits value left output).1 value (Web.encodeBase32Digits value left output).2 s' ∧
      Groups.Taken 5 s' bits n ∧ s'.bits < 5 := by
  intro left output
  fun_induction Web.encodeBase32Digits value left output with
  | case1 left output ih =>
    intro s h htaken hbits
    have hdigit : (value >>> UInt32.ofNat left &&& 0x1f).toNat = (value >>> UInt32.ofNat left).toNat % 2 ^ 5 := by
      rw [UInt32.toNat_and]
      exact Nat.and_two_pow_sub_one_eq_mod _ 5
    exact ih (h.give (by omega) hbits hdigit) (htaken.give (by rw [← h.bits]; omega)) (by omega)
  | case2 left output hshort =>
    intro s h htaken _
    refine ⟨s, h, htaken, ?_⟩
    rw [← h.bits]
    exact Nat.lt_of_not_le fun hle => hshort (left - 5) (by omega)

theorem encodeBase32_emits (data : Bytes) : ∃ s, s.bits < 5 ∧
    Groups.Taken 5 s (8 * data.length) (Lib.value 256 (digitsOf data)) ∧
    Emits (data.foldl Web.encodeBase32Byte {}).bits (data.foldl Web.encodeBase32Byte {}).value
      (data.foldl Web.encodeBase32Byte {}).output s := by
  induction data using List.reverseRecOn with
  | nil => exact ⟨{}, by decide, Groups.taken_nothing, rfl, rfl, rfl⟩
  | append_singleton data byte ih =>
    obtain ⟨s, hbits, htaken, hemits⟩ := ih
    have hbyte : byte.toNat < 2 ^ 8 := byte.toNat_lt
    have hdigit : UInt32.ofNat byte.toNat = byte.toUInt32 :=
      UInt32.toNat.inj (UInt32.toNat_ofNat_of_lt' (Nat.lt_trans hbyte (by decide)))
    have htake := hemits.holds.take hbyte (by omega)
    rw [hdigit] at htake
    have hread : Emits ((data.foldl Web.encodeBase32Byte {}).bits + 8) _ _ (s.take 8 byte.toNat) :=
      ⟨congrArg (· + 8) hemits.bits, hemits.output, htake⟩
    obtain ⟨s', hemits', htaken', hbits'⟩ :=
      encodeBase32Digits_emits hread (htaken.take hbyte) (by rw [hemits.bits]; omega)
    refine ⟨s', hbits', ?_, ?_⟩
    · rw [List.length_append, List.length_singleton, Nat.mul_succ]
      unfold digitsOf
      rw [List.map_append, List.map_singleton, value_snoc]
      exact htaken'
    · rw [List.foldl_append]
      exact hemits'

/-- The text of `ds` is that of `data` and up to four zero bits. -/
structure Encodes (data : Bytes) (ds : List Nat) (pad : Nat) : Prop where
  digits : Digits 32 ds
  text : Web.encodeBase32 data = String.ofList (base32Text ds)
  bits : 5 * ds.length = 8 * data.length + pad
  value : Lib.value 32 ds = Lib.value 256 (digitsOf data) * 2 ^ pad
  small : pad < 5

theorem encodeBase32_encodes (data : Bytes) : ∃ ds pad, Encodes data ds pad := by
  obtain ⟨s, hbits, htaken, hemits⟩ := encodeBase32_emits data
  generalize hrun : data.foldl Web.encodeBase32Byte {} = run at hemits
  by_cases hleft : 0 < s.bits
  · -- the last bits are filled up with zeros
    have htake : Groups.Taken 5 (s.take (5 - s.bits) 0) (8 * data.length + (5 - s.bits))
        (Lib.value 256 (digitsOf data) * 2 ^ (5 - s.bits) + 0) := htaken.take (Nat.two_pow_pos _)
    have hfull : (s.take (5 - s.bits) 0).bits = 5 := Nat.add_sub_cancel' (Nat.le_of_lt hbits)
    have hgive := htake.give (Nat.le_of_eq hfull.symm)
    have hnone : ((s.take (5 - s.bits) 0).give 5).bits = 0 := by
      change (s.take (5 - s.bits) 0).bits - 5 = 0
      rw [hfull]
    have hholds : Holds (s.take (5 - s.bits) 0) (run.value <<< UInt32.ofNat (5 - s.bits)) := by
      have h := hemits.holds.take (w := 5 - s.bits) (d := 0) (Nat.two_pow_pos _) (by omega)
      rwa [show UInt32.ofNat 0 = 0 from rfl, UInt32.or_zero] at h
    have hfilled : Emits 5 _ run.output (s.take (5 - s.bits) 0) := ⟨hfull.symm, hemits.output, hholds⟩
    have hdigit : (run.value <<< UInt32.ofNat (5 - s.bits) &&& 0x1f).toNat =
        (run.value <<< UInt32.ofNat (5 - s.bits) >>> 0).toNat % 2 ^ 5 := by
      rw [UInt32.toNat_and, UInt32.shiftRight_zero]
      exact Nat.and_two_pow_sub_one_eq_mod _ 5
    refine ⟨_, 5 - s.bits, hgive.digits, ?_, (hgive.all hnone).1, (hgive.all hnone).2, by omega⟩
    unfold Web.encodeBase32
    simp only [hrun, hemits.bits]
    rw [if_pos hleft, (hfilled.give (by decide) (by decide) hdigit).output]
  · have hnone : s.bits = 0 := by omega
    refine ⟨s.out, 0, htaken.digits, ?_, (htaken.all hnone).1, ?_, by decide⟩
    · unfold Web.encodeBase32
      simp only [hrun, hemits.bits]
      rw [if_neg hleft, hemits.output]
    · rw [Nat.pow_zero, Nat.mul_one]
      exact (htaken.all hnone).2

end

section
variable {toUpperCase : Char → List Char} {ds : List Nat} {data : Bytes} {pad : Nat}

theorem foldl_eight (h : Digits 32 ds) :
    Groups.Taken 8 (ds.foldl eight {}) (5 * ds.length) (Lib.value 32 ds) ∧ (ds.foldl eight {}).bits < 8 := by
  induction ds using List.reverseRecOn with
  | nil => exact ⟨Groups.taken_nothing, by decide⟩
  | append_singleton ds d ih =>
    have hds := ih fun x hx => h x (List.mem_append_left _ hx)
    rw [List.foldl_append, List.length_append, List.length_singleton, value_snoc]
    exact ⟨eight_taken hds.1 (h d (List.mem_append_right _ (List.mem_singleton_self d))), eight_bits hds.2⟩

theorem spells_digit : ∀ d < 32, ∃ c, Web.BASE32_ALPHABET.toList[d]?.toList = [c] ∧ Spells c d := by
  have hall : ((List.range 32).all fun d => (Web.BASE32_ALPHABET.toList[d]?.toList).any fun c =>
      decide (Web.BASE32_ALPHABET.toList[d]?.toList = [c]) && decide (c.toNat < 128) && !isBase32Filler c &&
        decide (Web.BASE32_ALPHABET.toList.idxOf? c.toUpper = some d)) = true := by decide +kernel
  intro d hd
  obtain ⟨c, _, hc⟩ := List.any_eq_true.mp (List.all_eq_true.mp hall d (List.mem_range.mpr hd))
  simp only [Bool.and_eq_true, decide_eq_true_eq, Bool.not_eq_true'] at hc
  obtain ⟨⟨⟨hsingle, hascii⟩, hkept⟩, hdigit⟩ := hc
  exact ⟨c, hsingle, hascii, hkept, hdigit, hd⟩

theorem spells_base32Text : ∀ {ds : List Nat}, Digits 32 ds → List.Forall₂ Spells (base32Text ds) ds
  | [], _ => .nil
  | d :: ds, h => by
    obtain ⟨hd, hds⟩ := digits_cons.mp h
    obtain ⟨c, hc, hspells⟩ := spells_digit d hd
    unfold base32Text
    rw [List.flatMap_cons, hc]
    exact .cons hspells (spells_base32Text hds)

theorem kept_of_spells {cs : List Char} (h : List.Forall₂ Spells cs ds) :
    cs.filter (fun c => !isBase32Filler c) = cs := by
  refine List.filter_eq_self.mpr fun c hc => ?_
  induction h with
  | nil => exact absurd hc List.not_mem_nil
  | cons hd _ ih =>
    rcases List.mem_cons.mp hc with rfl | hc
    · rw [hd.kept]
      rfl
    · exact ih hc

theorem decodeBase32_encodeBase32 (hupper : AsciiUpper toUpperCase) (data : Bytes) :
    Web.decodeBase32 toUpperCase (Web.encodeBase32 data) = .ok data := by
  obtain ⟨ds, pad, h⟩ := encodeBase32_encodes data
  have hspells := spells_base32Text h.digits
  have hkept : (Web.encodeBase32 data).toList.filter (fun c => !isBase32Filler c) = base32Text ds := by
    rw [h.text, String.toList_ofList, kept_of_spells hspells]
  obtain ⟨a, hdecode, hfollows⟩ := decodeBase32With_follows hupper hkept hspells
  obtain ⟨htaken, hbits⟩ := foldl_eight h.digits
  have hdata : Groups.Taken 8 ⟨digitsOf data, 0, pad⟩ (5 * ds.length) (Lib.value 32 ds) := by
    refine ⟨digits_digitsOf data, ?_, ?_, Nat.two_pow_pos _⟩
    · rw [length_digitsOf, h.bits]
    · rw [h.value]
      rfl
  have hsame := htaken.unique hdata hbits (Nat.lt_trans h.small (by decide))
  have houtput : digitsOf a.output = digitsOf data := by rw [hfollows.output, hsame]
  unfold Web.decodeBase32
  rw [hdecode, ← bytesOf_digitsOf a.output, houtput, bytesOf_digitsOf]

end

/-! ## The native decoder -/

section
variable {cs : List Char} {ds : List Nat} {c : Char} {p : Char → Bool}

theorem base32Value_spells : ∀ n < 128, ∀ v, Native.base32Value (UInt8.ofNat n) = some v → Spells (Char.ofNat n) v.toNat := by
  have hall : ((List.range 128).all fun n => (Native.base32Value (UInt8.ofNat n)).all fun v =>
      decide ((Char.ofNat n).toNat < 128) && !isBase32Filler (Char.ofNat n) && decide (v.toNat < 32) &&
        decide (Web.BASE32_ALPHABET.toList.idxOf? (Char.ofNat n).toUpper = some v.toNat)) = true := by decide +kernel
  intro n hn v hv
  have h := List.all_eq_true.mp hall n (List.mem_range.mpr hn)
  rw [hv] at h
  simp only [Option.all_some, Bool.and_eq_true, decide_eq_true_eq, Bool.not_eq_true'] at h
  obtain ⟨⟨⟨hascii, hkept⟩, hsmall⟩, hdigit⟩ := h
  exact ⟨hascii, hkept, hdigit, hsmall⟩

theorem base32Value_ascii {byte : UInt8} (h : 128 ≤ byte.toNat) : Native.base32Value byte = none := by
  have hall : ((List.range 256).all fun n => decide (n < 128) || (Native.base32Value (UInt8.ofNat n)).isNone) = true := by
    decide +kernel
  have hbyte := List.all_eq_true.mp hall byte.toNat (List.mem_range.mpr byte.toNat_lt)
  rw [UInt8.ofNat_toNat] at hbyte
  simpa [Nat.not_lt.mpr h] using hbyte

theorem utf8EncodeChar_high (h : 128 ≤ c.toNat) : ∃ byte ∈ String.utf8EncodeChar c, 128 ≤ byte.toNat := by
  have hlow : 128 ≤ (UInt8.ofNat (c.val.toNat % 0x40 + 0x80)).toNat := by
    rw [UInt8.toNat_ofNat_of_lt' (by change _ < 256; omega)]
    exact Nat.le_add_left _ _
  refine ⟨_, ?_, hlow⟩
  have hchar : ¬ c.val.toNat ≤ 0x7f := Nat.not_le.mpr h
  unfold String.utf8EncodeChar
  rw [if_neg hchar]
  split
  · exact .tail _ (.head _)
  · split
    · exact .tail _ (.tail _ (.head _))
    · exact .tail _ (.tail _ (.tail _ (.head _)))

/-- What the native decoder accepts is spelled in ASCII, and it reads the same groups. -/
theorem foldlM_spells : ∀ {cs : List Char} {a a' : Base32State} {s : Groups}, Follows a s → s.bits < 8 →
    (Utf16.utf8 cs).foldlM Native.decodeBase32Byte a = .ok a' →
    ∃ ds, List.Forall₂ Spells cs ds ∧ Follows a' (ds.foldl eight s)
  | [], a, a', s, hfollows, _, h => ⟨[], .nil, by rwa [← Except.ok.inj h]⟩
  | c :: cs, a, a', s, hfollows, hbits, h => by
    by_cases hascii : c.toNat < 128
    · unfold Utf16.utf8 at h
      rw [List.flatMap_cons, Utf16.utf8EncodeChar_ascii hascii, List.singleton_append, List.foldlM_cons] at h
      cases hstep : Native.decodeBase32Byte a (UInt8.ofNat c.toNat) with
      | error e =>
        rw [hstep] at h
        exact nomatch h
      | ok a'' =>
        rw [hstep] at h
        obtain ⟨v, hvalue, hnext⟩ := decodeBase32Byte_follows hfollows hbits hstep
        have hspells := base32Value_spells c.toNat hascii v hvalue
        rw [Char.ofNat_toNat] at hspells
        obtain ⟨ds, hds, hrun⟩ := foldlM_spells (hnext hspells.small) (eight_bits hbits) h
        exact ⟨v.toNat :: ds, .cons hspells hds, hrun⟩
    · obtain ⟨byte, hmem, hhigh⟩ := utf8EncodeChar_high (Nat.not_lt.mp hascii)
      have hbyte : byte ∈ Utf16.utf8 (c :: cs) := List.mem_flatMap.mpr ⟨c, List.mem_cons_self, hmem⟩
      obtain ⟨b, b', hstep⟩ := exists_step_of_foldlM h byte hbyte
      unfold Native.decodeBase32Byte at hstep
      rw [base32Value_ascii hhigh] at hstep
      exact nomatch hstep

theorem trimEnd_split (p : Char → Bool) (cs : List Char) : ∃ rest, cs = Native.trimEnd p cs ++ rest ∧ ∀ c ∈ rest, p c = true := by
  refine ⟨(cs.reverse.takeWhile p).reverse, ?_, fun c hc => ?_⟩
  · unfold Native.trimEnd
    rw [← List.reverse_append, List.takeWhile_append_dropWhile, List.reverse_reverse]
  · exact List.mem_takeWhile_imp (List.mem_reverse.mp hc)

/-- The two languages agree on white space but for U+0085 and U+FEFF. -/
theorem filler_of_whitespace (h : Native.isWhitespace c = true) : isBase32Filler c = true ∨ c = '\u0085' := by
  by_cases hnel : c = '\u0085'
  · exact .inr hnel
  · left
    have hn : c.toNat ≠ 0x85 := fun he => hnel (Char.toNat_inj.mp he)
    unfold Native.isWhitespace at h
    unfold isBase32Filler isJsSpace
    simp only [Bool.or_eq_true, Bool.and_eq_true, decide_eq_true_eq, beq_iff_eq] at h ⊢
    omega

/-- A secret that the native decoder accepts: the digits with white space and padding around them. -/
structure AcceptedSecret (s : String) (bytes : Bytes) (cs : List Char) (ds : List Nat) : Prop where
  spells : List.Forall₂ Spells cs ds
  around : ∃ front back, s.toList = front ++ cs ++ back ∧
    ∀ c, c ∈ front ∨ c ∈ back → isBase32Filler c = true ∨ c = '\u0085'
  bytes : digitsOf bytes = (ds.foldl eight {}).out

theorem decodeBase32Secret_accepted {s : String} {bytes : Bytes} (h : Native.decodeBase32Secret s = .ok bytes) :
    ∃ cs ds, AcceptedSecret s bytes cs ds := by
  unfold Native.decodeBase32Secret at h
  dsimp only at h
  split at h
  · exact nomatch h
  · cases hrun : (Utf16.utf8 (Native.trimEnd (· == '=') (Native.trim s.toList))).foldlM Native.decodeBase32Byte {} with
    | error e =>
      rw [hrun] at h
      exact nomatch h
    | ok a =>
      rw [hrun] at h
      dsimp only at h
      split at h
      · exact nomatch h
      · obtain ⟨ds, hspells, hfollows⟩ := foldlM_spells follows_nothing (by decide) hrun
        obtain ⟨padding, hpadding, hpad⟩ := trimEnd_split (· == '=') (Native.trim s.toList)
        obtain ⟨back, hback, hspace⟩ := trimEnd_split Native.isWhitespace (s.toList.dropWhile Native.isWhitespace)
        refine ⟨_, ds, hspells, ⟨s.toList.takeWhile Native.isWhitespace, padding ++ back, ?_, ?_⟩, ?_⟩
        · rw [List.append_assoc, ← List.append_assoc _ padding, ← hpadding]
          unfold Native.trim
          rw [← hback, List.takeWhile_append_dropWhile]
        · rintro c (hc | hc)
          · exact filler_of_whitespace (List.mem_takeWhile_imp hc)
          · rcases List.mem_append.mp hc with hc | hc
            · left
              unfold isBase32Filler
              rw [hpad c hc]
              simp
            · exact filler_of_whitespace (hspace c hc)
        · rw [← hfollows.output, Except.ok.inj h]

end

section
variable {toUpperCase : Char → List Char} {s : String} {bytes : Bytes}

theorem decodeBase32_accepted (hupper : AsciiUpper toUpperCase) (h : Native.decodeBase32Secret s = .ok bytes) :
    Web.decodeBase32 toUpperCase s = .ok bytes ↔ '\u0085' ∉ s.toList := by
  obtain ⟨cs, ds, haccepted⟩ := decodeBase32Secret_accepted h
  obtain ⟨front, back, hs, haround⟩ := haccepted.around
  constructor
  · intro hdecode hnel
    unfold Web.decodeBase32 decodeBase32With at hdecode
    have hkept : '\u0085' ∈ (s.toList.filter fun c => !isBase32Filler c).flatMap toUpperCase := by
      refine List.mem_flatMap.mpr ⟨'\u0085', List.mem_filter.mpr ⟨hnel, by decide⟩, ?_⟩
      rw [hupper '\u0085' (by decide)]
      decide
    dsimp only at hdecode
    generalize hrun : ((s.toList.filter fun c => !isBase32Filler c).flatMap toUpperCase).foldlM
      (decodeBase32Char Web.BASE32_ALPHABET) {} = run at hdecode
    cases run with
    | error e => exact nomatch hdecode
    | ok a =>
      obtain ⟨b, b', hstep⟩ := exists_step_of_foldlM hrun _ hkept
      exact absurd (mem_of_decodeBase32Char hstep) (by decide)
  · intro hnel
    have hfiller : ∀ part : List Char, (∀ c ∈ part, c ∈ front ∨ c ∈ back) →
        part.filter (fun c => !isBase32Filler c) = [] := by
      intro part hpart
      refine List.filter_eq_nil_iff.mpr fun c hc => ?_
      rcases haround c (hpart c hc) with hfill | rfl
      · rw [hfill]
        decide
      · exfalso
        apply hnel
        rw [hs, List.append_assoc, List.mem_append, List.mem_append]
        exact (hpart _ hc).imp_right .inr
    have hkept : s.toList.filter (fun c => !isBase32Filler c) = cs := by
      rw [hs, List.filter_append, List.filter_append, hfiller front fun c => .inl, hfiller back fun c => .inr,
        kept_of_spells haccepted.spells, List.nil_append, List.append_nil]
    obtain ⟨a, hdecode, hfollows⟩ := decodeBase32With_follows hupper hkept haccepted.spells
    have hsame : digitsOf a.output = digitsOf bytes := by rw [hfollows.output, haccepted.bytes]
    unfold Web.decodeBase32
    rw [hdecode, ← bytesOf_digitsOf a.output, hsame, bytesOf_digitsOf]

/-- Bytes come back from their text, and what the native decoder accepts is read alike unless U+0085 is in it. -/
theorem base32_exact (hupper : AsciiUpper toUpperCase) :
    (∀ data, Web.decodeBase32 toUpperCase (Web.encodeBase32 data) = .ok data) ∧
    ∀ s bytes, Native.decodeBase32Secret s = .ok bytes →
      ((Web.decodeBase32 toUpperCase s = .ok bytes ∧ Extension.decodeBase32 toUpperCase s = .ok bytes) ↔
        '\u0085' ∉ s.toList) := by
  refine ⟨decodeBase32_encodeBase32 hupper, fun s bytes h => ?_⟩
  rw [← decodeBase32_accepted hupper h]
  exact and_self_iff

end

theorem asciiUpper_toUpper : AsciiUpper fun c => [c.toUpper] := fun _ _ => rfl

/-- A secret of the smallest length, in lower case and padded. -/
theorem base32_exact_spaced : Native.decodeBase32Secret " gezdgnbvgy3tqojq== " = .ok [49, 50, 51, 52, 53, 54, 55, 56, 57, 48] ∧
    Web.decodeBase32 (fun c => [c.toUpper]) (Web.encodeBase32 [0, 255, 7]) = .ok [0, 255, 7] ∧
    Web.decodeBase32 (fun c => [c.toUpper]) " gezdgnbvgy3tqojq== " = .ok [49, 50, 51, 52, 53, 54, 55, 56, 57, 48] :=
  have hdecode : Native.decodeBase32Secret " gezdgnbvgy3tqojq== " = .ok [49, 50, 51, 52, 53, 54, 55, 56, 57, 48] := by
    decide +kernel
  have hexact := base32_exact asciiUpper_toUpper
  ⟨hdecode, hexact.1 _, ((hexact.2 _ _ hdecode).mpr (by decide)).1⟩

/-- The native decoder trims U+0085, `\s` does not match it. -/
theorem base32_next_line :
    Native.decodeBase32Secret "GEZDGNBVGY3TQOJQ\u0085" = .ok [49, 50, 51, 52, 53, 54, 55, 56, 57, 48] ∧
    Web.decodeBase32 (fun c => [c.toUpper]) "GEZDGNBVGY3TQOJQ\u0085" =
      .error "Invalid base32 character: \u0085" := by
  decide +kernel

end ZeroVault

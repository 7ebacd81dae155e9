import ZeroVault.Drawing
import ZeroVault.Encodings
import ZeroVault.NativeHandles

/-!
# Random passwords

The native core and the browser draw until a value lies below the largest multiple
of the number of choices (`zone`, `generateLimit`), so every choice has the same
number of values. What the native core has drawn for the classes is permuted by
the shuffle and not lost.
-/

namespace ZeroVault

open Lib Drawing

/-! ## The native core -/

namespace Native

/-- `OsRng` gives the draws. -/
abbrev Drawn := Drawing UInt32 MobileCryptoError

/-- `u32::MAX` -/
def u32Max : UInt32 := 0xffffffff

def zone (upper : UInt32) : UInt32 := u32Max - u32Max % upper

def randomIndex (upper : Nat) : Drawn Nat :=
  if 2 ^ 32 ≤ upper then fail .invalidInput
  else
    let upper := UInt32.ofNat upper
    if upper = 0 then fail .invalidInput
    else drawUntil fun value => if value < zone upper then some (value % upper).toNat else none

def UPPER : Bytes := ascii "ABCDEFGHIJKLMNOPQRSTUVWXYZ"
def LOWER : Bytes := ascii "abcdefghijklmnopqrstuvwxyz"
def DIGITS : Bytes := ascii "0123456789"
def SYMBOLS : Bytes := ascii "!@#$%^&*()-_=+[]\x7b\x7d:,.?"

def enabledClasses (includeUpper includeLower includeDigits includeSymbols : Bool) : List Bytes :=
  [(includeUpper, UPPER), (includeLower, LOWER), (includeDigits, DIGITS), (includeSymbols, SYMBOLS)].filterMap
    fun entry => if entry.1 then some entry.2 else none

/-- An index out of bounds is a panic, which `boundary` turns into an internal error. -/
def pushFrom (output choices : Bytes) : Drawn Bytes := do
  let index ← randomIndex choices.length
  match choices[index]? with
  | some byte => pure (output ++ [byte])
  | none => fail .internal

/-- `while output.len() < length`, for the bytes that are missing. -/
def fill (alphabet : Bytes) : Nat → Bytes → Drawn Bytes
  | 0, output => pure output
  | missing + 1, output => do
    let output ← pushFrom output alphabet
    fill alphabet missing output

def swap (output : Bytes) (index other : Nat) : Drawn Bytes :=
  match output[index]?, output[other]? with
  | some a, some b => pure ((output.set index b).set other a)
  | _, _ => fail .internal

/-- `for index in (1..output.len()).rev()`, from this index down. -/
def shuffle : Nat → Bytes → Drawn Bytes
  | 0, output => pure output
  | index + 1, output => do
    let other ← randomIndex (index + 1 + 1)
    let output ← swap output (index + 1) other
    shuffle index output

def fromUtf8 (output : Bytes) : Drawn String :=
  match String.fromUTF8? output.toByteArray with
  | some text => pure text
  | none => fail .internal

def mobileGeneratePassword (length : UInt32) (includeUpper includeLower includeDigits includeSymbols : Bool) :
    Drawn String :=
  let classes := enabledClasses includeUpper includeLower includeDigits includeSymbols
  if classes.isEmpty || length < UInt32.ofNat classes.length || !(4 ≤ length && length ≤ 256) then fail .invalidInput
  else do
    let alphabet := classes.flatten
    let output ← classes.foldlM pushFrom []
    let output ← fill alphabet (length.toNat - output.length) output
    let output ← shuffle (output.length - 1) output
    fromUtf8 output

def indexOf (upper : Nat) (value : UInt32) : Option Nat :=
  match randomIndex upper [value] with
  | some (.ok (index, _)) => some index
  | _ => none

end Native

/-! ## The browser -/

namespace Browser

structure GeneratorOptions where
  length : Nat := 20
  includeUpper : Bool := true
  includeLower : Bool := true
  includeDigits : Bool := true
  includeSymbols : Bool := true
  excludeSimilar : Bool := false
  excludeAmbiguous : Bool := false
deriving DecidableEq, Repr

def buildCharset (opts : GeneratorOptions) : List Char :=
  let chars := (if opts.includeUpper then "ABCDEFGHIJKLMNOPQRSTUVWXYZ" else "") ++
    (if opts.includeLower then "abcdefghijklmnopqrstuvwxyz" else "") ++ (if opts.includeDigits then "0123456789" else "") ++
    (if opts.includeSymbols then "!@#$%^&*" else "")
  let chars := if opts.excludeSimilar then chars.toList.filter (!"il1Lo0OI".toList.contains ·) else chars.toList
  if opts.excludeAmbiguous then chars.filter (!"\x7b \x7d[ ]()/\\'\"`,;.<>~".toList.contains ·) else chars

def generateLimit (chars : List Char) : Nat := 256 - 256 % chars.length

def acceptedPosition (chars : List Char) (byte : UInt8) : Option Nat :=
  if byte.toNat < generateLimit chars then some (byte.toNat % chars.length) else none

def appendByte (chars : List Char) (length : Nat) (result : List Char) (byte : UInt8) : List Char :=
  match acceptedPosition chars byte with
  | some position => if result.length < length then result ++ chars[position]?.toList else result
  | none => result

/-- A draw is what `getRandomValues` writes into `bytes`. -/
def generateLoop (chars : List Char) (length : Nat) (result : List Char) : Drawing (List UInt8) String (List Char)
  | [] => if result.length < length then none else some (.ok (result, []))
  | bytes :: draws =>
    if result.length < length then generateLoop chars length (bytes.foldl (appendByte chars length) result) draws
    else some (.ok (result, bytes :: draws))

def generatePassword (opts : GeneratorOptions) : Drawing (List UInt8) String (List Char) :=
  let chars := buildCharset opts
  if opts.length < 8 || 128 < opts.length || chars.isEmpty then fail "invalid_generator_options"
  else generateLoop chars opts.length []

end Browser

/-! ## Choices -/

section
variable {n : Nat} {value : UInt32}

/-- A value that no number of choices turns down. -/
def small (value : UInt32) : Bool := value.toNat < 2 ^ 31

theorem toNat_ofNat_upper (hn : n < 2 ^ 32) : (UInt32.ofNat n).toNat = n := UInt32.toNat_ofNat_of_lt' hn

/-- No step of the arithmetic leaves the range. -/
theorem zone_add (upper : UInt32) : (Native.zone upper).toNat + Native.u32Max.toNat % upper.toNat = Native.u32Max.toNat := by
  have hle : Native.u32Max % upper ≤ Native.u32Max := by
    rw [UInt32.le_iff_toNat_le, UInt32.toNat_mod]
    exact Nat.mod_le _ _
  unfold Native.zone
  rw [UInt32.toNat_sub_of_le _ _ hle, UInt32.toNat_mod, Nat.sub_add_cancel (Nat.mod_le _ _)]

theorem zone_eq (hn : n < 2 ^ 32) : (Native.zone (UInt32.ofNat n)).toNat = (2 ^ 32 - 1) / n * n := by
  have hzone := zone_add (UInt32.ofNat n)
  rw [toNat_ofNat_upper hn] at hzone
  have hdiv := Nat.div_add_mod' (2 ^ 32 - 1) n
  exact Nat.add_right_cancel (hzone.trans hdiv.symm)

theorem half_le_zone (h0 : 0 < n) (hn : n < 2 ^ 32) : 2 ^ 31 ≤ (Native.zone (UInt32.ofNat n)).toNat := by
  rw [zone_eq hn]
  by_cases hhalf : n < 2 ^ 31
  · have hmod := Nat.mod_lt (2 ^ 32 - 1) h0
    have hdiv := Nat.div_add_mod' (2 ^ 32 - 1) n
    omega
  · have hone : 1 ≤ (2 ^ 32 - 1) / n := (Nat.one_le_div_iff h0).mpr (by omega)
    calc 2 ^ 31 ≤ 1 * n := by omega
      _ ≤ (2 ^ 32 - 1) / n * n := Nat.mul_le_mul_right n hone

theorem half_lt_zone (h0 : 0 < n) (hn : n < 2 ^ 32) (hhalf : n ≠ 2 ^ 31) :
    2 ^ 31 < (Native.zone (UInt32.ofNat n)).toNat := by
  rw [zone_eq hn]
  have hmod := Nat.mod_lt (2 ^ 32 - 1) h0
  have hdiv := Nat.div_add_mod' (2 ^ 32 - 1) n
  rcases Nat.lt_or_gt_of_ne hhalf with hless | hmore
  · omega
  · have hone : 1 ≤ (2 ^ 32 - 1) / n := (Nat.one_le_div_iff h0).mpr (by omega)
    calc 2 ^ 31 < 1 * n := by omega
      _ ≤ (2 ^ 32 - 1) / n * n := Nat.mul_le_mul_right n hone

theorem randomIndex_eq (h0 : 0 < n) (hn : n < 2 ^ 32) : Native.randomIndex n =
    drawUntil fun value => if value.toNat < (2 ^ 32 - 1) / n * n then some (value.toNat % n) else none := by
  have hne : UInt32.ofNat n ≠ 0 := by
    intro he
    have h := congrArg UInt32.toNat he
    rw [toNat_ofNat_upper hn] at h
    exact absurd h (Nat.ne_of_gt h0)
  unfold Native.randomIndex
  simp only [Nat.not_le.mpr hn, if_false, hne, UInt32.lt_iff_toNat_lt, zone_eq hn, UInt32.toNat_mod, toNat_ofNat_upper hn]

theorem draws_randomIndex (h0 : 0 < n) (hn : n < 2 ^ 32) : Draws small (Native.randomIndex n) 1 (· < n) := by
  rw [randomIndex_eq h0 hn]
  refine draws_drawUntil (fun d hd => ?_) (fun d a ha => ?_)
  · have hhalf := half_le_zone h0 hn
    rw [zone_eq hn] at hhalf
    rw [if_pos (Nat.lt_of_lt_of_le (of_decide_eq_true hd) hhalf)]
    rfl
  · split at ha
    · rw [← Option.some.inj ha]
      exact Nat.mod_lt _ h0
    · exact nomatch ha

theorem indexOf_eq (h0 : 0 < n) (hn : n < 2 ^ 32) : Native.indexOf n value =
    if value.toNat < (2 ^ 32 - 1) / n * n then some (value.toNat % n) else none := by
  unfold Native.indexOf
  rw [randomIndex_eq h0 hn]
  by_cases hvalue : value.toNat < (2 ^ 32 - 1) / n * n
  · simp only [drawUntil, if_pos hvalue]
  · simp only [drawUntil, if_neg hvalue]

theorem indexOf_count (h0 : 0 < n) (hn : n < 2 ^ 32) : ∀ i < n,
    Nat.count (fun v => Native.indexOf n (UInt32.ofNat v) = some i) (2 ^ 32) = (2 ^ 32 - 1) / n := by
  intro i hi
  have hmost : (2 ^ 32 - 1) / n * n ≤ 2 ^ 32 := Nat.le_trans (Nat.div_mul_le_self _ _) (Nat.sub_le _ _)
  rw [← count_residue hi hmost, Nat.count_eq_card_filter_range, Nat.count_eq_card_filter_range]
  refine congrArg _ (Finset.filter_congr fun v hv => ?_)
  rw [indexOf_eq h0 hn, toNat_ofNat_upper (Finset.mem_range.mp hv), Option.ite_none_right_eq_some, Option.some.injEq]

theorem accepted_count (h0 : 0 < n) (hn : n < 2 ^ 32) :
    Nat.count (fun v => (Native.indexOf n (UInt32.ofNat v)).isSome = true) (2 ^ 32) = (2 ^ 32 - 1) / n * n := by
  have hmost : (2 ^ 32 - 1) / n * n ≤ 2 ^ 32 := Nat.le_trans (Nat.div_mul_le_self _ _) (Nat.sub_le _ _)
  have hbelow : (Finset.range (2 ^ 32)).filter (fun v => (Native.indexOf n (UInt32.ofNat v)).isSome = true) =
      Finset.range ((2 ^ 32 - 1) / n * n) := by
    ext v
    rw [Finset.mem_filter, Finset.mem_range, Finset.mem_range]
    constructor
    · rintro ⟨hv, hsome⟩
      rw [indexOf_eq h0 hn, toNat_ofNat_upper hv] at hsome
      split at hsome
      · assumption
      · exact absurd hsome Bool.false_ne_true
    · intro hv
      have hv' := Nat.lt_of_lt_of_le hv hmost
      rw [indexOf_eq h0 hn, toNat_ofNat_upper hv', if_pos hv]
      exact ⟨hv', rfl⟩
  rw [Nat.count_eq_card_filter_range, hbelow, Finset.card_range]

end

/-! ## The password of the native core -/

section
variable {output choices alphabet : Native.Bytes}

def HasEach (classes : List Native.Bytes) (output : Native.Bytes) : Prop := ∀ choices ∈ classes, ∃ byte ∈ output, byte ∈ choices

theorem draws_pushFrom (h : choices ≠ []) (hlength : choices.length < 2 ^ 32) :
    Draws small (Native.pushFrom output choices) 1 fun output' => ∃ byte ∈ choices, output' = output ++ [byte] := by
  refine (draws_bind (k := 0) (draws_randomIndex (List.length_pos_iff.mpr h) hlength) fun index hindex => ?_)
  rw [List.getElem?_eq_getElem hindex]
  exact draws_pure ⟨_, List.getElem_mem hindex, rfl⟩

theorem draws_classes : ∀ {classes : List Native.Bytes} {output : Native.Bytes},
    (∀ choices ∈ classes, choices ≠ [] ∧ choices.length < 2 ^ 32) →
    Draws small (classes.foldlM Native.pushFrom output) classes.length fun output' =>
      ∃ added, output' = output ++ added ∧ added.length = classes.length ∧ HasEach classes added ∧
        ∀ byte ∈ added, byte ∈ classes.flatten
  | [], output, _ => draws_pure ⟨[], (List.append_nil _).symm, rfl, fun _ h => absurd h List.not_mem_nil,
      fun _ h => absurd h List.not_mem_nil⟩
  | choices :: classes, output, h => by
    obtain ⟨⟨hne, hlength⟩, hrest⟩ := List.forall_mem_cons.mp h
    rw [List.foldlM_cons, List.length_cons, Nat.add_comm]
    refine draws_bind (draws_pushFrom hne hlength) ?_
    rintro _ ⟨byte, hbyte, rfl⟩
    refine (draws_classes hrest).mono (Nat.le_refl _) ?_
    rintro _ ⟨added, rfl, hcount, hcovers, hmem⟩
    refine ⟨byte :: added, (List.append_cons ..).symm, by rw [List.length_cons, hcount, Nat.add_comm], ?_, ?_⟩
    · refine List.forall_mem_cons.mpr ⟨⟨byte, List.mem_cons_self, hbyte⟩, fun other hother => ?_⟩
      obtain ⟨b, hb, hin⟩ := hcovers other hother
      exact ⟨b, List.mem_cons_of_mem _ hb, hin⟩
    · rw [List.flatten_cons]
      refine List.forall_mem_cons.mpr ⟨List.mem_append_left _ hbyte, fun b hb => List.mem_append_right _ (hmem b hb)⟩

theorem draws_fill (h : alphabet ≠ []) (hlength : alphabet.length < 2 ^ 32) : ∀ {missing : Nat} {output : Native.Bytes},
    Draws small (Native.fill alphabet missing output) missing fun output' =>
      ∃ added, output' = output ++ added ∧ added.length = missing ∧ ∀ byte ∈ added, byte ∈ alphabet
  | 0, output => draws_pure ⟨[], (List.append_nil _).symm, rfl, fun _ h => absurd h List.not_mem_nil⟩
  | missing + 1, output => by
    have hrest : ∀ output', (∃ byte ∈ alphabet, output' = output ++ [byte]) →
        Draws small (Native.fill alphabet missing output') missing fun output'' =>
          ∃ added, output'' = output ++ added ∧ added.length = missing + 1 ∧ ∀ byte ∈ added, byte ∈ alphabet := by
      rintro _ ⟨byte, hbyte, rfl⟩
      refine (draws_fill h hlength).mono (Nat.le_refl _) ?_
      rintro _ ⟨added, rfl, hcount, hmem⟩
      exact ⟨byte :: added, (List.append_cons ..).symm, by rw [List.length_cons, hcount],
        List.forall_mem_cons.mpr ⟨hbyte, hmem⟩⟩
    exact (draws_bind (draws_pushFrom h hlength) hrest).mono (Nat.le_of_eq (Nat.add_comm ..)) fun _ h => h

theorem draws_swap {index other : Nat} (hindex : index < output.length) (hother : other < output.length) :
    Draws small (Native.swap output index other) 0 (·.Perm output) := by
  unfold Native.swap
  rw [List.getElem?_eq_getElem hindex, List.getElem?_eq_getElem hother]
  exact draws_pure (List.set_set_perm hindex hother)

theorem draws_shuffle : ∀ {index : Nat} {output : Native.Bytes}, index < output.length → output.length < 2 ^ 32 →
    Draws small (Native.shuffle index output) index (·.Perm output)
  | 0, _, _, _ => draws_pure (List.Perm.refl _)
  | index + 1, output, hindex, hlength => by
    have hrest : ∀ other, other < index + 1 + 1 →
        Draws small (Native.swap output (index + 1) other >>= Native.shuffle index) (0 + index) (·.Perm output) := by
      intro other hother
      refine draws_bind (draws_swap hindex (by omega)) fun swapped hperm => ?_
      have hsame := hperm.length_eq
      exact (draws_shuffle (by omega) (by omega)).mono (Nat.le_refl _) fun _ h => h.trans hperm
    exact (draws_bind (draws_randomIndex (Nat.succ_pos _) (by omega)) hrest).mono (by omega) fun _ h => h

theorem fromUtf8_ascii (h : ∀ byte ∈ output, byte.toNat < 128) :
    Native.fromUtf8 output = pure (String.ofList (output.map fun byte => Char.ofNat byte.toNat)) := by
  have hchar : ∀ byte : UInt8, byte.toNat < 128 → String.utf8EncodeChar (Char.ofNat byte.toNat) = [byte] := by
    intro byte hbyte
    have htoNat : (Char.ofNat byte.toNat).toNat = byte.toNat := Utf16.toNat_ofNat (.inl (by omega))
    rw [Utf16.utf8EncodeChar_ascii (by rwa [htoNat]), htoNat, UInt8.ofNat_toNat]
  have hbytes : output.toByteArray = (output.map fun byte => Char.ofNat byte.toNat).utf8Encode := by
    unfold List.utf8Encode
    rw [List.flatMap_map, List.flatMap_congr fun byte hbyte => hchar byte (h byte hbyte), List.flatMap_singleton']
  unfold Native.fromUtf8
  rw [hbytes, String.fromUTF8?, dif_pos ByteArray.isValidUTF8_utf8Encode]
  rfl

theorem classes_ascii {up lo di sy : Bool} : ∀ choices ∈ Native.enabledClasses up lo di sy,
    choices ≠ [] ∧ choices.length < 2 ^ 32 ∧ ∀ byte ∈ choices, byte.toNat < 128 := by
  have hall : ∀ up lo di sy, (Native.enabledClasses up lo di sy).all (fun choices => !choices.isEmpty &&
      choices.length < 2 ^ 32 && choices.all fun byte => byte.toNat < 128) = true := by decide +kernel
  intro choices hchoices
  have h := List.all_eq_true.mp (hall up lo di sy) choices hchoices
  simp only [Bool.and_eq_true, Bool.not_eq_true', List.isEmpty_eq_false_iff, decide_eq_true_eq, List.all_eq_true] at h
  exact ⟨h.1.1, h.1.2, h.2⟩

theorem alphabet_small {up lo di sy : Bool} : (Native.enabledClasses up lo di sy).flatten.length < 2 ^ 32 ∧
    (Native.enabledClasses up lo di sy).length ≤ 4 := by
  revert up lo di sy
  decide +kernel

theorem enabledClasses_ne_nil {up lo di sy : Bool} (h : (up || lo || di || sy) = true) :
    Native.enabledClasses up lo di sy ≠ [] := by
  revert up lo di sy
  decide +kernel

/-- Whatever is drawn, the password has its length and a character of every class. -/
theorem draws_mobileGeneratePassword {length : UInt32} {up lo di sy : Bool} (hany : (up || lo || di || sy) = true)
    (hshort : 4 ≤ length.toNat) (hlong : length.toNat ≤ 256) :
    Draws small (Native.mobileGeneratePassword length up lo di sy) (2 * length.toNat - 1) fun text =>
      text.length = length.toNat ∧ ∀ choices ∈ Native.enabledClasses up lo di sy,
        ∃ byte ∈ choices, Char.ofNat byte.toNat ∈ text.toList := by
  have hclasses : ∀ choices ∈ Native.enabledClasses up lo di sy,
      choices ≠ [] ∧ choices.length < 2 ^ 32 ∧ ∀ byte ∈ choices, byte.toNat < 128 := classes_ascii
  have hsmall : (Native.enabledClasses up lo di sy).flatten.length < 2 ^ 32 ∧
      (Native.enabledClasses up lo di sy).length ≤ 4 := alphabet_small
  have hne := enabledClasses_ne_nil hany
  unfold Native.mobileGeneratePassword
  generalize Native.enabledClasses up lo di sy = classes at hclasses hsmall hne
  have halphabet : classes.flatten ≠ [] := by
    obtain ⟨choices, hmem⟩ := List.exists_mem_of_ne_nil _ hne
    exact fun hnil => (hclasses choices hmem).1 (List.flatten_eq_nil_iff.mp hnil choices hmem)
  have hvalid : (classes.isEmpty || decide (length < UInt32.ofNat classes.length) ||
      !(decide (4 ≤ length) && decide (length ≤ 256))) = false := by
    have hcount : (UInt32.ofNat classes.length).toNat = classes.length := toNat_ofNat_upper (by omega)
    have hempty : classes.isEmpty = false := by rw [← Bool.not_eq_true, List.isEmpty_iff]; exact hne
    have h4 : (4 : UInt32) ≤ length := UInt32.le_iff_toNat_le.mpr hshort
    have h256 : length ≤ (256 : UInt32) := UInt32.le_iff_toNat_le.mpr hlong
    have henough : ¬ length < UInt32.ofNat classes.length := by
      rw [UInt32.lt_iff_toNat_lt, hcount]
      omega
    rw [hempty, decide_eq_false henough, decide_eq_true h4, decide_eq_true h256]
    rfl
  dsimp only
  rw [hvalid]
  -- one draw for each class, one for each byte that is missing, one for each turn of the shuffle
  have hfill : ∀ output, (∃ added, output = [] ++ added ∧ added.length = classes.length ∧ HasEach classes added ∧
        ∀ byte ∈ added, byte ∈ classes.flatten) →
      Draws small (Native.fill classes.flatten (length.toNat - output.length) output >>= fun output =>
        Native.shuffle (output.length - 1) output >>= Native.fromUtf8)
        (length.toNat - classes.length + (length.toNat - 1 + 0)) fun text =>
          text.length = length.toNat ∧ ∀ choices ∈ classes, ∃ byte ∈ choices, Char.ofNat byte.toNat ∈ text.toList := by
    rintro chosen ⟨_, rfl, hcount, hcovers, hchosen⟩
    rw [hcount]
    refine draws_bind (draws_fill halphabet hsmall.1) ?_
    rintro _ ⟨added, rfl, hadded, hmem⟩
    have hlength : (chosen ++ added).length = length.toNat := by
      rw [List.length_append, hcount, hadded]
      omega
    rw [hlength]
    refine draws_bind (draws_shuffle (by omega) (by omega)) fun output hperm => ?_
    have hall : ∀ byte ∈ output, byte ∈ classes.flatten := by
      intro byte hbyte
      rcases List.mem_append.mp (hperm.mem_iff.mp hbyte) with h | h
      · exact hchosen byte h
      · exact hmem byte h
    have hascii : ∀ byte ∈ output, byte.toNat < 128 := by
      intro byte hbyte
      obtain ⟨choices, hchoices, hin⟩ := List.mem_flatten.mp (hall byte hbyte)
      exact (hclasses choices hchoices).2.2 byte hin
    rw [fromUtf8_ascii hascii]
    refine draws_pure ⟨?_, fun choices hchoices => ?_⟩
    · rw [String.length_ofList, List.length_map, hperm.length_eq, hlength]
    · obtain ⟨byte, hbyte, hin⟩ := hcovers choices hchoices
      refine ⟨byte, hin, ?_⟩
      rw [String.toList_ofList]
      exact List.mem_map_of_mem (hperm.mem_iff.mpr (List.mem_append_left _ hbyte))
  refine (draws_bind (draws_classes fun choices h => ⟨(hclasses choices h).1, (hclasses choices h).2.1⟩) hfill).mono ?_
    fun _ h => h
  omega

end

/-! ## The password of the browser -/

section
variable {chars result : List Char} {length : Nat} {byte : UInt8}

theorem generateLimit_eq : Browser.generateLimit chars = 256 / chars.length * chars.length := by
  have hdiv := Nat.div_add_mod' 256 chars.length
  unfold Browser.generateLimit
  omega

theorem acceptedPosition_count : ∀ i < chars.length,
    Nat.count (fun b => Browser.acceptedPosition chars (UInt8.ofNat b) = some i) 256 = 256 / chars.length := by
  intro i hi
  rw [← count_residue hi (Nat.div_mul_le_self 256 _), Nat.count_eq_card_filter_range, Nat.count_eq_card_filter_range]
  refine congrArg _ (Finset.filter_congr fun b hb => ?_)
  unfold Browser.acceptedPosition
  rw [generateLimit_eq, UInt8.toNat_ofNat_of_lt' (Finset.mem_range.mp hb), Option.ite_none_right_eq_some, Option.some.injEq]

def Chosen (chars : List Char) (length : Nat) (result : List Char) : Prop :=
  result.length ≤ length ∧ ∀ c ∈ result, c ∈ chars

theorem appendByte_chosen (h : Chosen chars length result) :
    Chosen chars length (Browser.appendByte chars length result byte) := by
  unfold Browser.appendByte
  cases hposition : Browser.acceptedPosition chars byte with
  | none => exact h
  | some position =>
    dsimp only
    split
    · rename_i hshort
      cases hchar : chars[position]? with
      | none => simpa using h
      | some c =>
        refine ⟨?_, fun x hx => ?_⟩
        · rw [List.length_append]
          exact hshort
        · rcases List.mem_append.mp hx with hx | hx
          · exact h.2 x hx
          · rw [List.mem_singleton.mp hx]
            exact List.mem_of_getElem? hchar
    · exact h

theorem foldl_appendByte_chosen : ∀ (bytes : List UInt8) {result : List Char}, Chosen chars length result →
    Chosen chars length (bytes.foldl (Browser.appendByte chars length) result)
  | [], _, h => h
  | _ :: bytes, _, h => foldl_appendByte_chosen bytes (appendByte_chosen h)

theorem generateLoop_chosen : ∀ {draws : List (List UInt8)} {result : List Char} {r}, Chosen chars length result →
    Browser.generateLoop chars length result draws = some r →
    ∃ text rest, r = .ok (text, rest) ∧ text.length = length ∧ ∀ c ∈ text, c ∈ chars
  | [], result, r, h, hr => by
    unfold Browser.generateLoop at hr
    split at hr
    · exact nomatch hr
    · exact ⟨result, [], (Option.some.inj hr).symm, by have := h.1; omega, h.2⟩
  | bytes :: draws, result, r, h, hr => by
    unfold Browser.generateLoop at hr
    split at hr
    · exact generateLoop_chosen (foldl_appendByte_chosen bytes h) hr
    · exact ⟨result, bytes :: draws, (Option.some.inj hr).symm, by have := h.1; omega, h.2⟩

theorem generatePassword_chosen {opts : Browser.GeneratorOptions} {draws : List (List UInt8)} {text : List Char}
    {rest : List (List UInt8)} (h : Browser.generatePassword opts draws = some (.ok (text, rest))) :
    text.length = opts.length ∧ ∀ c ∈ text, c ∈ Browser.buildCharset opts := by
  unfold Browser.generatePassword at h
  split at h
  · exact nomatch h
  · have hstart : Chosen (Browser.buildCharset opts) opts.length [] :=
      ⟨Nat.zero_le _, fun _ h => absurd h List.not_mem_nil⟩
    obtain ⟨text', rest', he, hspec⟩ := generateLoop_chosen hstart h
    obtain ⟨rfl, rfl⟩ := Prod.mk.inj (Except.ok.inj he)
    exact hspec

end

/-! ## All generators -/

/-- No choice is preferred, at least half of the values are accepted, and what is returned has its length: from the
browser with characters of its set, from the native core with one of every class, as soon as enough values are below
`2 ^ 31`. -/
theorem generators_even :
    (∀ n, 0 < n → n < 2 ^ 32 → ∃ q,
      (Native.zone (UInt32.ofNat n)).toNat + Native.u32Max.toNat % n = Native.u32Max.toNat ∧
      (∀ i < n, Nat.count (fun v => Native.indexOf n (UInt32.ofNat v) = some i) (2 ^ 32) = q) ∧
      Nat.count (fun v => (Native.indexOf n (UInt32.ofNat v)).isSome = true) (2 ^ 32) = q * n ∧
      2 ^ 31 ≤ q * n ∧ (n ≠ 2 ^ 31 → 2 ^ 31 < q * n) ∧
      ∀ draws index rest, Native.randomIndex n draws = some (.ok (index, rest)) → index < n) ∧
    (∀ chars : List Char, chars ≠ [] → chars.length ≤ 256 → ∃ q, 0 < q ∧ ∀ i < chars.length,
      Nat.count (fun b => Browser.acceptedPosition chars (UInt8.ofNat b) = some i) 256 = q) ∧
    (∀ opts draws text rest, Browser.generatePassword opts draws = some (.ok (text, rest)) →
      text.length = opts.length ∧ ∀ c ∈ text, c ∈ Browser.buildCharset opts) ∧
    ∀ (length : UInt32) (up lo di sy : Bool), (up || lo || di || sy) = true → 4 ≤ length.toNat → length.toNat ≤ 256 →
      ∀ draws,
        (∀ r, Native.mobileGeneratePassword length up lo di sy draws = some r →
          ∃ text rest, r = .ok (text, rest) ∧ text.length = length.toNat ∧
            ∀ choices ∈ Native.enabledClasses up lo di sy, ∃ byte ∈ choices, Char.ofNat byte.toNat ∈ text.toList) ∧
        (2 * length.toNat - 1 ≤ draws.countP small →
          ∃ r, Native.mobileGeneratePassword length up lo di sy draws = some r) := by
  refine ⟨fun n h0 hn => ?_, fun chars hne hmost => ?_, fun _ _ _ _ h => generatePassword_chosen h,
    fun length up lo di sy hany hshort hlong draws => ?_⟩
  · have hzone := zone_add (UInt32.ofNat n)
    rw [toNat_ofNat_upper hn] at hzone
    refine ⟨(2 ^ 32 - 1) / n, hzone, indexOf_count h0 hn, accepted_count h0 hn, ?_, fun hhalf => ?_, ?_⟩
    · rw [← zone_eq hn]
      exact half_le_zone h0 hn
    · rw [← zone_eq hn]
      exact half_lt_zone h0 hn hhalf
    · intro draws index rest h
      obtain ⟨index', rest', he, hindex, _⟩ := (draws_randomIndex h0 hn).returns draws _ h
      rwa [(Prod.mk.inj (Except.ok.inj he)).1]
  · exact ⟨256 / chars.length, Nat.div_pos hmost (List.length_pos_iff.mpr hne), acceptedPosition_count⟩
  · have hdraws := draws_mobileGeneratePassword hany hshort hlong
    refine ⟨fun r hr => ?_, hdraws.enough draws⟩
    obtain ⟨text, rest, he, htext, _⟩ := hdraws.returns draws r hr
    exact ⟨text, rest, he, htext⟩

theorem generators_even_eight : ∃ text rest,
    Native.mobileGeneratePassword 8 true false true false (List.replicate 15 77) = some (.ok (text, rest)) ∧
      text.length = 8 ∧
      ∀ choices ∈ [Native.UPPER, Native.DIGITS], ∃ byte ∈ choices, Char.ofNat byte.toNat ∈ text.toList := by
  obtain ⟨hreturned, henough⟩ :=
    generators_even.2.2.2 8 true false true false rfl (by decide) (by decide) (List.replicate 15 77)
  obtain ⟨r, hr⟩ := henough (by decide)
  obtain ⟨text, rest, rfl, hlength, hclasses⟩ := hreturned r hr
  exact ⟨text, rest, hr, hlength, hclasses⟩

/-- Half of the values and no more at `2 ^ 31`, and no end while no value is accepted. -/
theorem half_at_two_pow :
    Nat.count (fun v => (Native.indexOf (2 ^ 31) (UInt32.ofNat v)).isSome = true) (2 ^ 32) = 2 ^ 31 ∧
    ∀ k, Native.mobileGeneratePassword 8 true true true true (List.replicate k 0xffffffff) = none := by
  refine ⟨accepted_count (by decide) (by decide), fun k => ?_⟩
  have hnone : Native.randomIndex Native.UPPER.length (List.replicate k 0xffffffff) = none := by
    rw [randomIndex_eq (by decide) (by decide)]
    refine drawUntil_none fun d hd => ?_
    rw [List.eq_of_mem_replicate hd]
    decide
  have hpush : Native.pushFrom [] Native.UPPER (List.replicate k 0xffffffff) = none := by
    unfold Native.pushFrom
    rw [bind_apply, hnone]
    rfl
  unfold Native.mobileGeneratePassword
  have hvalid : ((Native.enabledClasses true true true true).isEmpty ||
      decide ((8 : UInt32) < UInt32.ofNat (Native.enabledClasses true true true true).length) ||
      !(decide ((4 : UInt32) ≤ 8) && decide ((8 : UInt32) ≤ 256))) = false := by decide +kernel
  dsimp only
  rw [hvalid, if_neg Bool.false_ne_true, bind_apply]
  change Option.bind ((Native.pushFrom [] Native.UPPER >>= _) _) _ = none
  rw [bind_apply, hpush]
  rfl

end ZeroVault

import Mathlib.Algebra.GroupWithZero.Nat
import Mathlib.Data.List.Basic
import Mathlib.Tactic.Common

/-!
# Texts and frames as bytes

How an encoder reads a string of UTF-16 code units: a high and a low surrogate
are one character, a surrogate that stands alone is the replacement character.
Byte strings are put one after the other behind their lengths and can be told
apart again.
-/

namespace Lib

/-! ## UTF-16 -/

namespace Utf16

def isHigh (u : UInt16) : Bool := 0xD800 ≤ u && u < 0xDC00

def isLow (u : UInt16) : Bool := 0xDC00 ≤ u && u < 0xE000

def pair (u v : UInt16) : Char := Char.ofNat (0x10000 + (u.toNat - 0xD800) * 0x400 + (v.toNat - 0xDC00))

def single (u : UInt16) : Char := if isHigh u || isLow u then Char.ofNat 0xFFFD else Char.ofNat u.toNat

def scalars : List UInt16 → List Char
  | [] => []
  | [u] => [single u]
  | u :: v :: us => if isHigh u && isLow v then pair u v :: scalars us else single u :: scalars (v :: us)

def units (c : Char) : List UInt16 :=
  if c.toNat < 0x10000 then [UInt16.ofNat c.toNat]
  else [UInt16.ofNat (0xD800 + (c.toNat - 0x10000) / 0x400), UInt16.ofNat (0xDC00 + (c.toNat - 0x10000) % 0x400)]

def toWellFormed (us : List UInt16) : List UInt16 := (scalars us).flatMap units

section
variable {u v : UInt16} {us us' : List UInt16}

theorem isHigh_iff : isHigh u = true ↔ 0xD800 ≤ u.toNat ∧ u.toNat < 0xDC00 := by
  unfold isHigh
  rw [Bool.and_eq_true, decide_eq_true_eq, decide_eq_true_eq, UInt16.le_iff_toNat_le, UInt16.lt_iff_toNat_lt]
  rfl

theorem isLow_iff : isLow u = true ↔ 0xDC00 ≤ u.toNat ∧ u.toNat < 0xE000 := by
  unfold isLow
  rw [Bool.and_eq_true, decide_eq_true_eq, decide_eq_true_eq, UInt16.le_iff_toNat_le, UInt16.lt_iff_toNat_lt]
  rfl

theorem toNat_ofNat {n : Nat} (h : n.isValidChar) : (Char.ofNat n).toNat = n := by
  unfold Char.ofNat
  rw [dif_pos h]
  rfl

theorem scalars_cons_single (h : (isHigh u || isLow u) = false) : scalars (u :: us) = single u :: scalars us := by
  cases us with
  | nil => rfl
  | cons v us =>
    have hhigh : isHigh u = false := (Bool.or_eq_false_iff.mp h).1
    rw [scalars, hhigh, Bool.false_and, if_neg Bool.false_ne_true]

theorem toNat_ofNat16 {n : Nat} (h : n < 0x10000) : (UInt16.ofNat n).toNat = n := UInt16.toNat_ofNat_of_lt' h

/-- A character that is written out is read again, whatever follows it. -/
theorem scalars_units_append (c : Char) : scalars (units c ++ us) = c :: scalars us := by
  have hvalid : c.toNat.isValidChar := c.valid
  unfold units
  split
  · rename_i hlt
    have hsurrogate : (isHigh (UInt16.ofNat c.toNat) || isLow (UInt16.ofNat c.toNat)) = false := by
      rw [Bool.or_eq_false_iff, ← Bool.not_eq_true, ← Bool.not_eq_true, isHigh_iff, isLow_iff, toNat_ofNat16 hlt]
      unfold Nat.isValidChar at hvalid
      omega
    rw [List.singleton_append, scalars_cons_single hsurrogate]
    unfold single
    rw [hsurrogate, if_neg Bool.false_ne_true, toNat_ofNat16 hlt, Char.ofNat_toNat]
  · rename_i hge
    have hmax : c.toNat < 0x110000 := by
      unfold Nat.isValidChar at hvalid
      omega
    have hu : (UInt16.ofNat (0xD800 + (c.toNat - 0x10000) / 0x400)).toNat = 0xD800 + (c.toNat - 0x10000) / 0x400 :=
      toNat_ofNat16 (by omega)
    have hv : (UInt16.ofNat (0xDC00 + (c.toNat - 0x10000) % 0x400)).toNat = 0xDC00 + (c.toNat - 0x10000) % 0x400 :=
      toNat_ofNat16 (by omega)
    have hpair : (isHigh (UInt16.ofNat (0xD800 + (c.toNat - 0x10000) / 0x400)) &&
        isLow (UInt16.ofNat (0xDC00 + (c.toNat - 0x10000) % 0x400))) = true := by
      rw [Bool.and_eq_true, isHigh_iff, isLow_iff, hu, hv]
      omega
    rw [List.cons_append, List.singleton_append, scalars, if_pos hpair]
    unfold pair
    rw [hu, hv]
    have hback : 0x10000 + (0xD800 + (c.toNat - 0x10000) / 0x400 - 0xD800) * 0x400 +
        (0xDC00 + (c.toNat - 0x10000) % 0x400 - 0xDC00) = c.toNat := by omega
    rw [hback, Char.ofNat_toNat]

theorem scalars_flatMap_units : ∀ (cs : List Char), scalars (cs.flatMap units) = cs
  | [] => rfl
  | c :: cs => by rw [List.flatMap_cons, scalars_units_append, scalars_flatMap_units cs]

theorem toWellFormed_eq_iff : toWellFormed us = toWellFormed us' ↔ scalars us = scalars us' := by
  constructor
  · intro he
    have he := congrArg scalars he
    unfold toWellFormed at he
    rwa [scalars_flatMap_units, scalars_flatMap_units] at he
  · intro he
    unfold toWellFormed
    rw [he]

end

/-! ## UTF-8 -/

def utf8 (cs : List Char) : List UInt8 := cs.flatMap String.utf8EncodeChar

theorem utf8EncodeChar_ascii {c : Char} (h : c.toNat < 128) : String.utf8EncodeChar c = [UInt8.ofNat c.toNat] := by
  unfold String.utf8EncodeChar
  exact if_pos (Nat.le_of_lt_succ h)

theorem utf8_injective {cs cs' : List Char} (h : utf8 cs = utf8 cs') : cs = cs' := by
  apply String.ofList_injective
  rw [← String.toByteArray_inj, String.toByteArray_ofList, String.toByteArray_ofList]
  unfold List.utf8Encode
  exact congrArg List.toByteArray h

end Utf16

/-! ## Frames -/

namespace Framing

section
variable {α : Type} {header : Nat → List α} {width bound : Nat} {raws raws' : List (List α)}

/-- Byte strings, each behind the header of its length. -/
def frames (header : Nat → List α) (raws : List (List α)) : List α := raws.flatMap fun raw => header raw.length ++ raw

theorem frames_injective (hwidth : ∀ n, (header n).length = width) (hpos : 0 < width)
    (hheader : ∀ {m n}, m < bound → n < bound → header m = header n → m = n)
    (hraws : ∀ raw ∈ raws, raw.length < bound) (hraws' : ∀ raw ∈ raws', raw.length < bound)
    (he : frames header raws = frames header raws') : raws = raws' := by
  have hne {raw : List α} {rest : List α} : header raw.length ++ raw ++ rest ≠ [] := by
    intro hnil
    have hlength := congrArg List.length hnil
    rw [List.length_append, List.length_append, hwidth, List.length_nil] at hlength
    omega
  induction raws generalizing raws' with
  | nil =>
    cases raws' with
    | nil => rfl
    | cons raw' raws' => exact absurd he.symm hne
  | cons raw raws ih =>
    cases raws' with
    | nil => exact absurd he hne
    | cons raw' raws' =>
      rw [List.forall_mem_cons] at hraws hraws'
      unfold frames at he
      rw [List.flatMap_cons, List.flatMap_cons, List.append_assoc, List.append_assoc] at he
      obtain ⟨hlength, he⟩ := List.append_inj he ((hwidth _).trans (hwidth _).symm)
      obtain ⟨hraw, he⟩ := List.append_inj he (hheader hraws.1 hraws'.1 hlength)
      rw [hraw, ih hraws.2 hraws'.2 he]

theorem length_le_frames {raw : List α} (h : raw ∈ raws) : raw.length ≤ (frames header raws).length := by
  obtain ⟨before, after, rfl⟩ := List.append_of_mem h
  unfold frames
  rw [List.flatMap_append, List.flatMap_cons, List.length_append, List.length_append, List.length_append]
  omega

theorem length_frames (hwidth : ∀ n, (header n).length = width) :
    (frames header raws).length = (raws.map fun raw => width + raw.length).sum := by
  unfold frames
  rw [List.length_flatMap]
  simp only [List.length_append, hwidth]

end

end Framing

def u32be (n : Nat) : List UInt8 :=
  [UInt8.ofNat (n / 16777216), UInt8.ofNat (n / 65536), UInt8.ofNat (n / 256), UInt8.ofNat n]

theorem length_u32be (n : Nat) : (u32be n).length = 4 := rfl

theorem u32be_injective {m n : Nat} (hm : m < 4294967296) (hn : n < 4294967296) (h : u32be m = u32be n) : m = n := by
  unfold u32be at h
  simp only [List.cons.injEq, and_true, ← UInt8.toNat_inj, UInt8.toNat_ofNat'] at h
  omega

end Lib

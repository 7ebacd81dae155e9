import Mathlib.Algebra.GroupWithZero.Nat
import Mathlib.Data.List.GetD
import Mathlib.Tactic.Common

/-!
# Bytes and sextets

Three bytes are four digits of six bits. A last group of one or two bytes is
padded with zero bits to two or three digits; a digit string that ends in other
bits, or in a single digit, is not the image of any bytes.
-/

namespace Lib.Radix64

def toSextets : List Nat → List Nat
  | a :: b :: c :: bs => a / 4 :: (a % 4 * 16 + b / 16) :: (b % 16 * 4 + c / 64) :: c % 64 :: toSextets bs
  | [a, b] => [a / 4, a % 4 * 16 + b / 16, b % 16 * 4]
  | [a] => [a / 4, a % 4 * 16]
  | [] => []

def toBytes : List Nat → List Nat
  | a :: b :: c :: d :: ds => (a * 4 + b / 16) :: (b % 16 * 16 + c / 4) :: (c % 4 * 64 + d) :: toBytes ds
  | [a, b, c] => [a * 4 + b / 16, b % 16 * 16 + c / 4]
  | [a, b] => [a * 4 + b / 16]
  | _ => []

def Canonical : List Nat → Prop
  | _ :: _ :: _ :: _ :: ds => Canonical ds
  | [_, _, c] => c % 4 = 0
  | [_, b] => b % 16 = 0
  | [_] => False
  | [] => True

instance Canonical.decidable : ∀ ds : List Nat, Decidable (Canonical ds)
  | _ :: _ :: _ :: _ :: ds => Canonical.decidable ds
  | [_, _, c] => inferInstanceAs (Decidable (c % 4 = 0))
  | [_, b] => inferInstanceAs (Decidable (b % 16 = 0))
  | [_] => isFalse id
  | [] => isTrue trivial

/-- All digits are digits of base `n`. -/
def Digits (n : Nat) (ds : List Nat) : Prop := ∀ d ∈ ds, d < n

section
variable {n d : Nat} {ds bs : List Nat}

@[simp] theorem digits_nil : Digits n [] := fun _ h => absurd h List.not_mem_nil

@[simp] theorem digits_cons : Digits n (d :: ds) ↔ d < n ∧ Digits n ds := List.forall_mem_cons

theorem digits_toSextets : ∀ {bs : List Nat}, Digits 256 bs → Digits 64 (toSextets bs)
  | [], _ => digits_nil
  | [a], h => by
    simp only [digits_cons] at h
    simp only [toSextets, digits_cons, digits_nil, and_true]
    omega
  | [a, b], h => by
    simp only [digits_cons] at h
    simp only [toSextets, digits_cons, digits_nil, and_true]
    omega
  | a :: b :: c :: bs, h => by
    simp only [digits_cons] at h
    obtain ⟨ha, hb, hc, hbs⟩ := h
    simp only [toSextets, digits_cons]
    refine ⟨?_, ?_, ?_, ?_, digits_toSextets hbs⟩ <;> omega

theorem digits_toBytes : ∀ {ds : List Nat}, Digits 64 ds → Digits 256 (toBytes ds)
  | [], _ => digits_nil
  | [_], _ => digits_nil
  | [a, b], h => by
    simp only [digits_cons] at h
    simp only [toBytes, digits_cons, digits_nil, and_true]
    omega
  | [a, b, c], h => by
    simp only [digits_cons] at h
    simp only [toBytes, digits_cons, digits_nil, and_true]
    omega
  | a :: b :: c :: d :: ds, h => by
    simp only [digits_cons] at h
    obtain ⟨ha, hb, hc, hd, hds⟩ := h
    simp only [toBytes, digits_cons]
    refine ⟨?_, ?_, ?_, digits_toBytes hds⟩ <;> omega

theorem canonical_toSextets : ∀ {bs : List Nat}, Canonical (toSextets bs)
  | [] => trivial
  | [a] => by
    show a % 4 * 16 % 16 = 0
    omega
  | [a, b] => by
    show b % 16 * 4 % 4 = 0
    omega
  | _ :: _ :: _ :: bs => @canonical_toSextets bs

theorem toBytes_toSextets : ∀ {bs : List Nat}, Digits 256 bs → toBytes (toSextets bs) = bs
  | [], _ => rfl
  | [a], h => by
    simp only [digits_cons] at h
    simp only [toSextets, toBytes, List.cons.injEq, and_true]
    omega
  | [a, b], h => by
    simp only [digits_cons] at h
    simp only [toSextets, toBytes, List.cons.injEq, and_true]
    omega
  | a :: b :: c :: bs, h => by
    simp only [digits_cons] at h
    obtain ⟨ha, hb, hc, hbs⟩ := h
    simp only [toSextets, toBytes, toBytes_toSextets hbs, List.cons.injEq, and_true]
    omega

theorem toSextets_toBytes : ∀ {ds : List Nat}, Digits 64 ds → Canonical ds → toSextets (toBytes ds) = ds
  | [], _, _ => rfl
  | [_], _, hc => hc.elim
  | [a, b], h, hc => by
    have hc : b % 16 = 0 := hc
    simp only [digits_cons] at h
    simp only [toBytes, toSextets, List.cons.injEq, and_true]
    omega
  | [a, b, c], h, hc => by
    have hc : c % 4 = 0 := hc
    simp only [digits_cons] at h
    simp only [toBytes, toSextets, List.cons.injEq, and_true]
    omega
  | a :: b :: c :: d :: ds, h, hcan => by
    simp only [digits_cons] at h
    obtain ⟨ha, hb, hc, hd, hds⟩ := h
    simp only [toBytes, toSextets, toSextets_toBytes hds hcan, List.cons.injEq, and_true]
    omega

/-! ## Lengths -/

theorem length_toSextets : ∀ {bs : List Nat}, (toSextets bs).length = (bs.length * 8 + 5) / 6
  | [] => rfl
  | [_] => by simp [toSextets]
  | [_, _] => by simp [toSextets]
  | _ :: _ :: _ :: bs => by
    simp only [toSextets, List.length_cons, @length_toSextets bs]
    omega

theorem length_toBytes : ∀ {ds : List Nat}, (toBytes ds).length = ds.length * 6 / 8
  | [] => rfl
  | [_] => by simp [toBytes]
  | [_, _] => by simp [toBytes]
  | [_, _, _] => by simp [toBytes]
  | _ :: _ :: _ :: _ :: ds => by
    simp only [toBytes, List.length_cons, @length_toBytes ds]
    omega

/-- The form in which a validator checks it: the length and the last digit. -/
theorem canonical_iff : ∀ {ds : List Nat}, Canonical ds ↔ ds.length % 4 ≠ 1 ∧
    (ds.length % 4 = 2 → ds.getLast?.getD 0 % 16 = 0) ∧ (ds.length % 4 = 3 → ds.getLast?.getD 0 % 4 = 0)
  | [] => by simp [Canonical]
  | [_] => by simp [Canonical]
  | [_, _] => by simp [Canonical]
  | [_, _, _] => by simp [Canonical]
  | a :: b :: c :: d :: ds => by
    have hlength : (a :: b :: c :: d :: ds).length % 4 = ds.length % 4 := by
      simp only [List.length_cons]
      omega
    rw [hlength, Canonical, @canonical_iff ds]
    cases ds with
    | nil => simp
    | cons e ds => simp only [List.getLast?_cons_cons]

theorem canonical_of_length (h : ds.length % 4 = 0) : Canonical ds := canonical_iff.mpr (by omega)

/-! ## A bit accumulator -/

/-- Digits of `w` bits are taken in one by one, and eight bits are given out
whenever that many have come together. `bits` are left of those taken in so far,
with the value `acc`. -/
def regroup (w : Nat) : Nat → Nat → List Nat → List Nat
  | _, _, [] => []
  | acc, bits, d :: ds =>
    if 8 ≤ bits + w then
      (acc * 2 ^ w + d) / 2 ^ (bits + w - 8) % 256 ::
        regroup w ((acc * 2 ^ w + d) % 2 ^ (bits + w - 8)) (bits + w - 8) ds
    else regroup w (acc * 2 ^ w + d) (bits + w) ds

theorem regroup_six : ∀ {ds : List Nat}, Digits 64 ds → regroup 6 0 0 ds = toBytes ds
  | [], _ => rfl
  | [_], _ => rfl
  | [a, b], h => by
    simp only [digits_cons] at h
    simp only [regroup, toBytes]
    simp only [Nat.zero_mul, Nat.zero_add, Nat.reduceAdd, Nat.reduceLeDiff, if_true, if_false, Nat.reduceSub,
      Nat.reducePow, List.cons.injEq, and_true]
    omega
  | [a, b, c], h => by
    simp only [digits_cons] at h
    simp only [regroup, toBytes]
    simp only [Nat.zero_mul, Nat.zero_add, Nat.reduceAdd, Nat.reduceLeDiff, if_true, if_false, Nat.reduceSub,
      Nat.reducePow, List.cons.injEq, and_true]
    omega
  | a :: b :: c :: d :: ds, h => by
    simp only [digits_cons] at h
    obtain ⟨ha, hb, hc, hd, hds⟩ := h
    simp only [regroup, toBytes]
    simp only [Nat.zero_mul, Nat.zero_add, Nat.reduceAdd, Nat.reduceLeDiff, if_true, if_false, Nat.reduceSub,
      Nat.reducePow, Nat.mod_one, Nat.div_one, regroup_six hds, List.cons.injEq, and_true]
    omega

end

/-! ## Alphabets -/

section
variable {α : Type} [DecidableEq α] {alphabet : List α}

theorem idxOf_lt {cs : List α} (h : ∀ c ∈ cs, c ∈ alphabet) : Digits alphabet.length (cs.map (alphabet.idxOf ·)) := by
  intro d hd
  obtain ⟨c, hc, rfl⟩ := List.mem_map.mp hd
  exact List.idxOf_lt_length_of_mem (h c hc)

theorem idxOf_getD (hn : alphabet.Nodup) (default : α) {d : Nat} (h : d < alphabet.length) :
    alphabet.idxOf (alphabet.getD d default) = d := by
  rw [List.getD_eq_getElem _ _ h]
  exact hn.idxOf_getElem d h

theorem map_idxOf_getD (hn : alphabet.Nodup) (default : α) {ds : List Nat} (h : Digits alphabet.length ds) :
    (ds.map (alphabet.getD · default)).map (alphabet.idxOf ·) = ds := by
  rw [List.map_map]
  exact (List.map_congr_left fun d hd => idxOf_getD hn default (h d hd)).trans (List.map_id _)

theorem getD_idxOf (default : α) {c : α} (h : c ∈ alphabet) : alphabet.getD (alphabet.idxOf c) default = c := by
  rw [List.getD_eq_getElem _ _ (List.idxOf_lt_length_of_mem h)]
  exact List.getElem_idxOf (List.idxOf_lt_length_of_mem h)

theorem map_getD_idxOf (default : α) {cs : List α} (h : ∀ c ∈ cs, c ∈ alphabet) :
    (cs.map (alphabet.idxOf ·)).map (alphabet.getD · default) = cs := by
  rw [List.map_map]
  exact (List.map_congr_left fun c hc => getD_idxOf default (h c hc)).trans (List.map_id _)

omit [DecidableEq α] in
theorem getD_mem (default : α) {d : Nat} (h : d < alphabet.length) : alphabet.getD d default ∈ alphabet := by
  rw [List.getD_eq_getElem _ _ h]
  exact List.getElem_mem h

end

end Lib.Radix64

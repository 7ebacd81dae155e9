import Mathlib.Data.List.Induction
import Mathlib.Tactic.Common
import Mathlib.Tactic.Ring
import ZeroVault.Radix64

/-!
# Bits taken in and given out

A loop takes in digits of one width and gives out digits of another. What it has
given out and the bits it has left are always the number that it has taken in
(`Taken`), so two loops that took in the same bits gave out the same digits.
-/

namespace Lib

open Radix64

def value (b : Nat) (ds : List Nat) : Nat := ds.foldl (fun n d => n * b + d) 0

section
variable {b d : Nat} {ds ds' : List Nat}

@[simp] theorem value_nil : value b [] = 0 := rfl

theorem value_snoc : value b (ds ++ [d]) = value b ds * b + d := by
  unfold value
  rw [List.foldl_append]
  rfl

theorem value_injective (h : Digits b ds) (h' : Digits b ds') (hlength : ds.length = ds'.length)
    (he : value b ds = value b ds') : ds = ds' := by
  induction ds using List.reverseRecOn generalizing ds' with
  | nil => exact (List.eq_nil_of_length_eq_zero hlength.symm).symm
  | append_singleton ds d ih =>
    rcases List.eq_nil_or_concat ds' with rfl | ⟨rest, d', hds'⟩
    · simp at hlength
    · rw [List.concat_eq_append] at hds'
      subst hds'
      have hd : d < b := h d (List.mem_append_right _ (List.mem_singleton_self d))
      have hd' : d' < b := h' d' (List.mem_append_right _ (List.mem_singleton_self d'))
      rw [value_snoc, value_snoc] at he
      have hlast : d = d' := by
        have hmod := congrArg (· % b) he
        simpa [Nat.mul_add_mod_self_right, Nat.mod_eq_of_lt hd, Nat.mod_eq_of_lt hd'] using hmod
      subst hlast
      have hfront : value b ds = value b rest :=
        Nat.eq_of_mul_eq_mul_right (Nat.zero_lt_of_lt hd) (Nat.add_right_cancel he)
      rw [ih (fun x hx => h x (List.mem_append_left _ hx)) (fun x hx => h' x (List.mem_append_left _ hx))
        (by simpa using hlength) hfront]

end

structure Groups where
  out : List Nat := []
  acc : Nat := 0
  bits : Nat := 0

namespace Groups

def take (w d : Nat) (s : Groups) : Groups := { s with acc := s.acc * 2 ^ w + d, bits := s.bits + w }

def give (v : Nat) (s : Groups) : Groups where
  out := s.out ++ [s.acc / 2 ^ (s.bits - v)]
  acc := s.acc % 2 ^ (s.bits - v)
  bits := s.bits - v

/-- The number `n` of `bits` bits was taken in, and digits of `v` bits are given out. -/
structure Taken (v : Nat) (s : Groups) (bits n : Nat) : Prop where
  digits : Digits (2 ^ v) s.out
  bits : v * s.out.length + s.bits = bits
  value : value (2 ^ v) s.out * 2 ^ s.bits + s.acc = n
  left : s.acc < 2 ^ s.bits

section
variable {v w d bits n : Nat} {s s' : Groups}

theorem taken_nothing : Taken v {} 0 0 :=
  ⟨fun _ h => absurd h List.not_mem_nil, rfl, rfl, Nat.one_pos⟩

theorem Taken.take (h : Taken v s bits n) (hd : d < 2 ^ w) : Taken v (s.take w d) (bits + w) (n * 2 ^ w + d) where
  digits := h.digits
  bits := by
    change v * s.out.length + (s.bits + w) = bits + w
    rw [← h.bits, Nat.add_assoc]
  value := by
    change Lib.value (2 ^ v) s.out * 2 ^ (s.bits + w) + (s.acc * 2 ^ w + d) = n * 2 ^ w + d
    rw [← h.value, Nat.pow_add]
    ring
  left := by
    change s.acc * 2 ^ w + d < 2 ^ (s.bits + w)
    rw [Nat.pow_add]
    calc s.acc * 2 ^ w + d < s.acc * 2 ^ w + 2 ^ w := Nat.add_lt_add_left hd _
      _ = (s.acc + 1) * 2 ^ w := by ring
      _ ≤ 2 ^ s.bits * 2 ^ w := Nat.mul_le_mul_right _ h.left

theorem Taken.give (h : Taken v s bits n) (hv : v ≤ s.bits) : Taken v (s.give v) bits n := by
  have hsplit : 2 ^ s.bits = 2 ^ v * 2 ^ (s.bits - v) := by rw [← Nat.pow_add, Nat.add_sub_cancel' hv]
  constructor
  · intro x hx
    rcases List.mem_append.mp hx with hx | hx
    · exact h.digits x hx
    · rw [List.mem_singleton.mp hx]
      exact Nat.div_lt_of_lt_mul (by rw [Nat.mul_comm, ← hsplit]; exact h.left)
  · change v * (s.out ++ [s.acc / 2 ^ (s.bits - v)]).length + (s.bits - v) = bits
    rw [List.length_append, List.length_singleton, Nat.mul_succ, ← h.bits]
    omega
  · change Lib.value (2 ^ v) (s.out ++ [s.acc / 2 ^ (s.bits - v)]) * 2 ^ (s.bits - v) + s.acc % 2 ^ (s.bits - v) = n
    calc Lib.value (2 ^ v) (s.out ++ [s.acc / 2 ^ (s.bits - v)]) * 2 ^ (s.bits - v) + s.acc % 2 ^ (s.bits - v)
        = Lib.value (2 ^ v) s.out * (2 ^ v * 2 ^ (s.bits - v)) +
            (2 ^ (s.bits - v) * (s.acc / 2 ^ (s.bits - v)) + s.acc % 2 ^ (s.bits - v)) := by
          rw [value_snoc]
          ring
      _ = n := by rw [← hsplit, Nat.div_add_mod, h.value]
  · exact Nat.mod_lt _ (Nat.two_pow_pos _)

theorem Taken.all (h : Taken v s bits n) (hnone : s.bits = 0) : v * s.out.length = bits ∧ Lib.value (2 ^ v) s.out = n := by
  have hacc := h.left
  have hbits := h.bits
  have hvalue := h.value
  rw [hnone] at hacc hbits hvalue
  refine ⟨hbits, ?_⟩
  rwa [Nat.lt_one_iff.mp hacc, Nat.pow_zero, Nat.mul_one] at hvalue

/-- When less than a digit is left, what was given out is determined. -/
theorem Taken.unique (h : Taken v s bits n) (h' : Taken v s' bits n) (hbits : s.bits < v) (hbits' : s'.bits < v) :
    s = s' := by
  have hlength : s.out.length = s'.out.length := by
    have hmod := h.bits.trans h'.bits.symm
    have hdiv : (v * s.out.length + s.bits) / v = (v * s'.out.length + s'.bits) / v := by rw [hmod]
    rwa [Nat.mul_add_div (Nat.zero_lt_of_lt hbits), Nat.mul_add_div (Nat.zero_lt_of_lt hbits), Nat.div_eq_of_lt hbits,
      Nat.div_eq_of_lt hbits'] at hdiv
  have hleft : s.bits = s'.bits := by
    have hsum := h.bits.trans h'.bits.symm
    rw [hlength] at hsum
    exact Nat.add_left_cancel hsum
  have hvalues : Lib.value (2 ^ v) s.out * 2 ^ s.bits + s.acc = Lib.value (2 ^ v) s'.out * 2 ^ s.bits + s'.acc := by
    rw [h.value, hleft, h'.value]
  have hacc' : s'.acc < 2 ^ s.bits := hleft ▸ h'.left
  have hacc : s.acc = s'.acc := by
    have hmod := congrArg (· % 2 ^ s.bits) hvalues
    simpa [Nat.mul_add_mod_self_right, Nat.mod_eq_of_lt h.left, Nat.mod_eq_of_lt hacc'] using hmod
  have hout : Lib.value (2 ^ v) s.out = Lib.value (2 ^ v) s'.out := by
    rw [hacc] at hvalues
    exact Nat.eq_of_mul_eq_mul_right (Nat.two_pow_pos _) (Nat.add_right_cancel hvalues)
  have houts := value_injective h.digits h'.digits hlength hout
  cases s
  cases s'
  simp_all

end

end Groups

end Lib

import Mathlib.Data.Int.CardIntervalMod
import Mathlib.Tactic.Common

/-!
# Programs that draw

A program takes draws from a list until it has one that it accepts. It can run
out of draws (`none`), and it can fail. `Draws` says of a program that it never
fails and how many good draws are enough for it.
-/

namespace Lib

abbrev Drawing (δ ε α : Type) := StateT (List δ) (ExceptT ε Option) α

namespace Drawing

section
variable {δ ε α β : Type} {good : δ → Bool} {n k : Nat} {P : α → Prop} {Q : β → Prop} {m : Drawing δ ε α}
  {f : α → Drawing δ ε β} {a : α}

def drawUntil (accept : δ → Option α) : Drawing δ ε α
  | [] => none
  | d :: draws =>
    match accept d with
    | some a => some (.ok (a, draws))
    | none => drawUntil accept draws

def fail (e : ε) : Drawing δ ε α := fun _ => some (.error e)

/-- What the program and the rest of it do with the draws. -/
def andThen (f : α → Drawing δ ε β) : Except ε (α × List δ) → Option (Except ε (β × List δ))
  | .ok (a, rest) => f a rest
  | .error e => some (.error e)

theorem bind_apply {draws : List δ} : (m >>= f) draws = Option.bind (m draws) (andThen f) := by
  change Option.bind _ _ = _
  refine congrArg _ (funext fun r => ?_)
  cases r <;> rfl

/-- Whatever is drawn, the program returns what `P` holds of and uses up at most `n` good draws more
than it needs; with `n` good draws it returns. -/
structure Draws (good : δ → Bool) (m : Drawing δ ε α) (n : Nat) (P : α → Prop) : Prop where
  returns : ∀ draws (r : Except ε (α × List δ)), m draws = some r → ∃ a rest, r = .ok (a, rest) ∧ P a ∧ draws.countP good ≤ rest.countP good + n
  enough : ∀ draws, n ≤ draws.countP good → ∃ r, m draws = some r

theorem draws_pure (h : P a) : Draws good (pure a : Drawing δ ε α) 0 P where
  returns draws _ hr := ⟨a, draws, (Option.some.inj hr).symm, h, Nat.le_refl _⟩
  enough draws _ := ⟨Except.ok (a, draws), rfl⟩

theorem draws_bind (hm : Draws good m n P) (hf : ∀ a, P a → Draws good (f a) k Q) : Draws good (m >>= f) (n + k) Q where
  returns draws r hr := by
    rw [bind_apply] at hr
    obtain ⟨r', hr', hr⟩ := Option.bind_eq_some_iff.mp hr
    obtain ⟨a, rest, rfl, ha, hrest⟩ := hm.returns draws r' hr'
    obtain ⟨b, last, rfl, hb, hlast⟩ := (hf a ha).returns rest r hr
    exact ⟨b, last, rfl, hb, by omega⟩
  enough draws henough := by
    obtain ⟨r, hr⟩ := hm.enough draws (by omega)
    obtain ⟨a, rest, rfl, ha, hrest⟩ := hm.returns draws r hr
    obtain ⟨r', hr'⟩ := (hf a ha).enough rest (by omega)
    refine ⟨r', ?_⟩
    rw [bind_apply, hr]
    exact hr'

theorem draws_drawUntil {accept : δ → Option α} (hgood : ∀ d, good d = true → (accept d).isSome = true)
    (hP : ∀ d a, accept d = some a → P a) : Draws good (drawUntil accept : Drawing δ ε α) 1 P := by
  constructor
  · intro draws r hr
    induction draws with
    | nil => exact nomatch hr
    | cons d draws ih =>
      have hcount : (d :: draws).countP good ≤ draws.countP good + 1 := by
        rw [List.countP_cons]
        split <;> omega
      unfold drawUntil at hr
      cases haccept : accept d with
      | some a =>
        rw [haccept] at hr
        exact ⟨a, draws, (Option.some.inj hr).symm, hP d a haccept, hcount⟩
      | none =>
        rw [haccept] at hr
        obtain ⟨a, rest, he, ha, hrest⟩ := ih hr
        have hbad : ¬ good d = true := fun h => absurd (hgood d h) (by rw [haccept]; exact Bool.false_ne_true)
        exact ⟨a, rest, he, ha, by rwa [List.countP_cons_of_neg hbad]⟩
  · intro draws henough
    induction draws with
    | nil => exact absurd henough (Nat.not_succ_le_zero 0)
    | cons d draws ih =>
      unfold drawUntil
      cases haccept : accept d with
      | some a => exact ⟨_, rfl⟩
      | none =>
        have hbad : ¬ good d = true := fun h => absurd (hgood d h) (by rw [haccept]; exact Bool.false_ne_true)
        rw [List.countP_cons_of_neg hbad] at henough
        exact ih henough

theorem drawUntil_none {accept : δ → Option α} : ∀ {draws : List δ}, (∀ d ∈ draws, accept d = none) →
    (drawUntil accept : Drawing δ ε α) draws = none
  | [], _ => rfl
  | d :: draws, h => by
    unfold drawUntil
    rw [h d List.mem_cons_self]
    exact drawUntil_none fun d' hd' => h d' (List.mem_cons_of_mem _ hd')

theorem Draws.mono {P' : α → Prop} (h : Draws good m n P) (hn : n ≤ k) (hP : ∀ a, P a → P' a) : Draws good m k P' where
  returns draws r hr := by
    obtain ⟨a, rest, he, ha, hrest⟩ := h.returns draws r hr
    exact ⟨a, rest, he, hP a ha, by omega⟩
  enough draws henough := h.enough draws (Nat.le_trans hn henough)

end

end Drawing

/-- Below a multiple of `n`, every residue is taken equally often. -/
theorem count_residue {n q i total : Nat} (hi : i < n) (hq : q * n ≤ total) :
    Nat.count (fun v => v < q * n ∧ v % n = i) total = q := by
  obtain ⟨r, rfl⟩ := Nat.exists_eq_add_of_le hq
  have hn : 0 < n := Nat.zero_lt_of_lt hi
  have hbelow : Nat.count (fun v => v < q * n ∧ v % n = i) (q * n) = Nat.count (· ≡ i [MOD n]) (q * n) := by
    rw [Nat.count_eq_card_filter_range, Nat.count_eq_card_filter_range]
    refine congrArg _ (Finset.filter_congr fun v hv => ?_)
    unfold Nat.ModEq
    rw [Nat.mod_eq_of_lt hi]
    exact and_iff_right (Finset.mem_range.mp hv)
  have habove : Nat.count (fun k => q * n + k < q * n ∧ (q * n + k) % n = i) r = 0 := by
    rw [Nat.count_eq_card_filter_range, Finset.card_eq_zero, Finset.filter_eq_empty_iff]
    exact fun k _ h => Nat.not_lt.mpr (Nat.le_add_right _ k) h.1
  rw [Nat.count_add, hbelow, habove, Nat.count_modEq_card _ hn, Nat.mul_div_cancel q hn, Nat.mul_mod_left]
  rfl

end Lib

import ZeroVault.Interleave

/-!
# What has held since a step

A property of the store that holds in the end has held from the start, or from
the last step that brought it about.
-/

namespace Lib

section
variable {ι σ ℓ α : Type} {code : ι → Prog σ ℓ α} {ok : ι → Prop} {s₀ s : σ} {h h' : History ι σ ℓ}
  {ps : List (Proc ι σ ℓ α)} {p : σ → Prop}

/-- `p` holds at every store of these events. -/
def Throughout (p : σ → Prop) (h : History ι σ ℓ) : Prop := ∀ i c e, .step i c e ∈ h → p e.before ∧ p e.after

theorem Throughout.nil : Throughout p ([] : History ι σ ℓ) := fun _ _ _ he => absurd he List.not_mem_nil

theorem Throughout.issue (hp : Throughout p h) (i : Nat) (c : ι) : Throughout p (h ++ [.issue i c]) := by
  intro j c' e he
  rcases List.mem_append.mp he with he | he
  · exact hp j c' e he
  · exact nomatch List.mem_singleton.mp he

theorem Throughout.step (hp : Throughout p h) {i : Nat} {c : ι} {e : Step σ ℓ} (hb : p e.before) (ha : p e.after) :
    Throughout p (h ++ [.step i c e]) := by
  intro j c' e' he
  rcases List.mem_append.mp he with he | he
  · exact hp j c' e' he
  · cases List.mem_singleton.mp he
    exact ⟨hb, ha⟩

theorem reach_since (hr : Reach code ok s₀ h s ps) (hp : p s) : p s₀ ∧ Throughout p h ∨
    ∃ h₁ i c e h₂, h = h₁ ++ .step i c e :: h₂ ∧ ¬ p e.before ∧ p e.after ∧ Throughout p h₂ := by
  induction hr with
  | start => exact .inl ⟨hp, .nil⟩
  | issue c _ _ ih =>
    rcases ih hp with ⟨h0, hall⟩ | ⟨h₁, i, c', e, h₂, rfl, hb, ha, hall⟩
    · exact .inl ⟨h0, hall.issue _ c⟩
    · exact .inr ⟨h₁, i, c', e, _, List.append_assoc .., hb, ha, hall.issue _ c⟩
  | @step h s ps i c f k _ _ ih =>
    by_cases hs : p s
    · rcases ih hs with ⟨h0, hall⟩ | ⟨h₁, j, c', e, h₂, rfl, hb, ha, hall⟩
      · exact .inl ⟨h0, hall.step hs hp⟩
      · exact .inr ⟨h₁, j, c', e, _, List.append_assoc .., hb, ha, hall.step hs hp⟩
    · exact .inr ⟨h, i, c, ⟨(f s).1, s, (f s).2⟩, [], rfl, hs, hp, .nil⟩

variable {G : ι → List (Step σ ℓ) → Step σ ℓ → Prop} {Q : ι → List (Step σ ℓ) → α → Prop}

/-- Where only a grant brings `p` about, `p` has held since a grant or all along. -/
theorem reach_granted (hsat : ∀ c, ok c → Sat (G c) (Q c) (code c) [])
    {good grants : List (Step σ ℓ) → Step σ ℓ → Prop}
    (hstep : ∀ c tr e, G c tr e → good tr e → ¬ p e.before → p e.after → grants tr e)
    (hr : Reach code ok s₀ h s ps) (hgood : ∀ h₁ i c e h₂, h = h₁ ++ .step i c e :: h₂ → good (own i h₁) e)
    (hp : p s) :
    p s₀ ∧ Throughout p h ∨
      ∃ h₁ i c e h₂, h = h₁ ++ .step i c e :: h₂ ∧ grants (own i h₁) e ∧ p e.after ∧ Throughout p h₂ := by
  rcases reach_since hr hp with hall | ⟨h₁, i, c, e, h₂, rfl, hb, ha, hall⟩
  · exact .inl hall
  · obtain ⟨-, -, hg⟩ := reach_step hsat hr
    exact .inr ⟨h₁, i, c, e, h₂, rfl, hstep c _ e hg (hgood h₁ i c e h₂ rfl) hb ha, ha, hall⟩

/-- Where `p` did not hold after a step, it has held since a grant that came later. -/
theorem reach_regranted (hsat : ∀ c, ok c → Sat (G c) (Q c) (code c) [])
    {good grants : List (Step σ ℓ) → Step σ ℓ → Prop}
    (hstep : ∀ c tr e, G c tr e → good tr e → ¬ p e.before → p e.after → grants tr e)
    (hr : Reach code ok s₀ h s ps) (hgood : ∀ h₁ i c e h₂, h = h₁ ++ .step i c e :: h₂ → good (own i h₁) e)
    (hp : p s) {h₁ h₂ : History ι σ ℓ} {i : Nat} {c : ι} {e : Step σ ℓ} (hh : h = h₁ ++ .step i c e :: h₂)
    (he : ¬ p e.after) :
    ∃ h₃ j c' e' h₄, h₂ = h₃ ++ .step j c' e' :: h₄ ∧ grants (own j (h₁ ++ .step i c e :: h₃)) e' ∧ p e'.after ∧
      Throughout p h₄ := by
  rcases reach_granted hsat hstep hr hgood hp with ⟨-, hall⟩ | ⟨a, j, c', e', b, hsplit, hgrants, ha, hall⟩
  · exact absurd (hall i c e (by rw [hh]; exact List.mem_append_right _ List.mem_cons_self)).2 he
  rcases List.append_eq_append_iff.mp (hh.symm.trans hsplit) with ⟨mid, rfl, hmid⟩ | ⟨mid, rfl, hmid⟩
  · cases mid with
    | nil =>
      cases (List.cons.inj hmid).1
      exact absurd ha he
    | cons v mid =>
      obtain ⟨rfl, rfl⟩ := List.cons.inj hmid
      exact ⟨mid, j, c', e', b, rfl, hgrants, ha, hall⟩
  · cases mid with
    | nil =>
      cases (List.cons.inj hmid).1
      exact absurd ha he
    | cons v mid =>
      obtain ⟨-, rfl⟩ := List.cons.inj hmid
      exact absurd (hall i c e (List.mem_append_right _ List.mem_cons_self)).2 he

end

end Lib

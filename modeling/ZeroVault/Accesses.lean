import ZeroVault.Interleave

/-!
# The accesses of a program

What every access of a program is labelled with, whatever stores the program
meets (`Labels`), and programs that only read and do not throw as long as the
stores they meet are of one kind (`Settles`): where such a program throws, it
met a store of another kind first (`Settles.sat`).
-/

namespace Lib

namespace Prog

variable {σ ℓ ℓ' α β : Type}

def mapLabel (g : ℓ → ℓ') : Prog σ ℓ α → Prog σ ℓ' α
  | ret a => ret a
  | act f k => act (fun s => (g (f s).1, (f s).2)) fun s => (k s).mapLabel g

theorem mapLabel_bind {g : ℓ → ℓ'} (p : Prog σ ℓ β) (k : β → Prog σ ℓ α) :
    (p >>= k).mapLabel g = p.mapLabel g >>= fun b => (k b).mapLabel g := by
  induction p with
  | ret b => rfl
  | act f k' ih => exact congrArg (act _) (funext ih)

theorem mapLabel_query {g : ℓ → ℓ'} {l : ℓ} {f : σ → β} {k : β → Prog σ ℓ α} :
    (query l f >>= k).mapLabel g = query (g l) f >>= fun b => (k b).mapLabel g := rfl

theorem mapLabel_ite {g : ℓ → ℓ'} {c : Prop} [Decidable c] {p q : Prog σ ℓ α} :
    (if c then p else q).mapLabel g = if c then p.mapLabel g else q.mapLabel g := apply_ite _ c p q

theorem query_congr {l : ℓ} {f : σ → β} {k k' : β → Prog σ ℓ α} (h : ∀ b, k b = k' b) :
    query l f >>= k = query l f >>= k' := congrArg (query l f >>= ·) (funext h)

theorem mapLabel_inverse {g : ℓ → ℓ'} {g' : ℓ' → ℓ} (h : ∀ l, g' (g l) = l) (p : Prog σ ℓ α) :
    (p.mapLabel g).mapLabel g' = p := by
  induction p with
  | ret a => rfl
  | act f k ih =>
    rw [mapLabel, mapLabel, funext ih]
    exact congrArg (act · k) (funext fun s => congrArg (·, (f s).2) (h _))

/-- Whatever stores it meets, the program labels its accesses within `P`. -/
def Labels (P : ℓ → Prop) : Prog σ ℓ α → Prop
  | ret _ => True
  | act f k => ∀ s, P (f s).1 ∧ (k s).Labels P

theorem Labels.bind {P : ℓ → Prop} {p : Prog σ ℓ β} {k : β → Prog σ ℓ α} (hp : p.Labels P)
    (hk : ∀ b, (k b).Labels P) : (p >>= k).Labels P := by
  induction p with
  | ret b => exact hk b
  | act f k' ih => exact fun s => ⟨(hp s).1, ih s (hp s).2⟩

theorem Labels.of_bind {P : ℓ → Prop} {p : Prog σ ℓ β} {k : β → Prog σ ℓ α} (h : (p >>= k).Labels P) :
    p.Labels P := by
  induction p with
  | ret b => trivial
  | act f k' ih => exact fun s => ⟨(h s).1, ih s (h s).2⟩

theorem Labels.tryBind {ε : Type} {P : ℓ → Prop} {p : TryProg σ ℓ ε β} {k : β → TryProg σ ℓ ε α} (hp : Labels P p)
    (hk : ∀ b, Labels P (k b)) : Labels P (p >>= k : TryProg σ ℓ ε α) :=
  Labels.bind hp fun r => match r with
    | .error _ => trivial
    | .ok b => hk b

theorem Labels.query {P : ℓ → Prop} {l : ℓ} {f : σ → β} {k : β → Prog σ ℓ α} (hl : P l) (hk : ∀ b, (k b).Labels P) :
    (query l f >>= k).Labels P := fun s => ⟨hl, hk (f s)⟩

theorem Labels.sat {P : ℓ → Prop} {p : Prog σ ℓ α} (h : p.Labels P) {tr₀ tr : List (Step σ ℓ)}
    (htr : ∃ t, tr = tr₀ ++ t ∧ ∀ x ∈ t, P x.label) :
    Sat (fun _ _ => True) (fun tr' _ => ∃ t, tr' = tr₀ ++ t ∧ ∀ x ∈ t, P x.label) p tr := by
  induction p generalizing tr with
  | ret a => exact htr
  | act f k ih =>
    obtain ⟨t, rfl, ht⟩ := htr
    refine fun s => ⟨trivial, ih s (h s).2 ⟨t ++ [⟨(f s).1, s, (f s).2⟩], List.append_assoc .., fun x hx => ?_⟩⟩
    rcases List.mem_append.mp hx with hx | hx
    · exact ht x hx
    · rw [List.mem_singleton.mp hx]
      exact (h s).1

end Prog

/-! ## Programs that only read -/

section
variable {σ stmt ε α β : Type}

/-- As long as the stores it meets are in `S`, the program only reads and does not throw. -/
def Settles (S : σ → Prop) : Prog σ (Access stmt) (Except ε α) → Prop
  | .ret r => ∃ a, r = .ok a
  | .act f k => ∀ s, S s → f s = (.query, s) ∧ Settles S (k s)

/-- After `tr` and accesses that changed nothing there was one to a store outside of `S`. -/
def Misses (S : σ → Prop) (tr tr' : List (Step σ (Access stmt))) : Prop :=
  ∃ t₁ d t₂, tr' = tr ++ (t₁ ++ d :: t₂) ∧ ¬ S d.before ∧ ∀ x ∈ t₁, x.after = x.before

variable {S : σ → Prop}

theorem Settles.ret (a : α) : Settles S (.ret (.ok a) : Prog σ (Access stmt) (Except ε α)) := ⟨a, rfl⟩

theorem Settles.read {g : σ → β} {k : β → TryProg σ (Access stmt) ε α} (h : ∀ s, S s → Settles S (k (g s))) :
    Settles S (TryProg.read g >>= k : TryProg σ (Access stmt) ε α) := fun s hs => ⟨rfl, h s hs⟩

/-- Whatever the program does, its accesses come after those of `tr`. -/
theorem Sat.any {ℓ : Type} {Q : List (Step σ ℓ) → α → Prop} {p : Prog σ ℓ α} {tr : List (Step σ ℓ)}
    (h : ∀ t a, Q (tr ++ t) a) : Sat (fun _ _ => True) Q p tr := by
  induction p generalizing tr with
  | ret a => exact List.append_nil tr ▸ h [] a
  | act f k ih =>
    refine fun s => ⟨trivial, ih s fun t a => ?_⟩
    rw [List.append_assoc]
    exact h _ a

theorem Settles.sat {p : Prog σ (Access stmt) (Except ε α)} (h : Settles S p) {tr₀ tr : List (Step σ (Access stmt))}
    (htr : ∃ t, tr = tr₀ ++ t ∧ ∀ x ∈ t, x.after = x.before) :
    Sat (fun _ _ => True) (fun tr' r => ∀ e, r = .error e → Misses S tr₀ tr') p tr := by
  induction p generalizing tr with
  | ret r =>
    obtain ⟨a, rfl⟩ := h
    exact fun e he => nomatch he
  | act f k ih =>
    obtain ⟨t, rfl, ht⟩ := htr
    intro s
    refine ⟨trivial, ?_⟩
    by_cases hs : S s
    · obtain ⟨hf, hk⟩ := h s hs
      refine ih s hk ⟨t ++ [⟨(f s).1, s, (f s).2⟩], List.append_assoc .., fun x hx => ?_⟩
      rcases List.mem_append.mp hx with hx | hx
      · exact ht x hx
      · rw [List.mem_singleton.mp hx, hf]
    · refine Sat.any fun t₂ r e _ => ⟨t, ⟨(f s).1, s, (f s).2⟩, t₂, ?_, hs, ht⟩
      simp only [List.append_assoc, List.singleton_append]

end

end Lib

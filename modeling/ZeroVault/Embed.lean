import ZeroVault.Interleave
import Mathlib.Data.List.Forall2

/-!
# Programs of a part of the store

A store may have parts with programs of their own. `Prog.embed` runs a part's
program at the whole store, and `Sat.embed` carries what it guarantees along.
-/

namespace Lib

/-- A store `σ` inside a store `τ`, and what its accesses are called there. -/
structure Part (σ τ ℓ ℓ' : Type) where
  get : τ → σ
  put : τ → σ → τ
  label : ℓ → ℓ'
  put_get : ∀ t, put t (get t) = t
  get_put : ∀ t s, get (put t s) = s

section
variable {σ τ ℓ ℓ' α β : Type} (v : Part σ τ ℓ ℓ')

def Prog.embed : Prog σ ℓ α → Prog τ ℓ' α
  | ret a => ret a
  | act f k => act (fun t => (v.label (f (v.get t)).1, v.put t (f (v.get t)).2)) fun t => (k (v.get t)).embed

/-- The access `e` of the part, seen at the whole store. -/
structure Embeds (e : Step σ ℓ) (e' : Step τ ℓ') : Prop where
  label : e'.label = v.label e.label
  before : v.get e'.before = e.before
  after : e'.after = v.put e'.before e.after

variable {v}

/-- What a guarantee of the part says at the whole store. -/
def Embedded (v : Part σ τ ℓ ℓ') (G : List (Step σ ℓ) → Step σ ℓ → Prop) (tr' : List (Step τ ℓ')) (e' : Step τ ℓ') :
    Prop :=
  ∃ tr e, List.Forall₂ (Embeds v) tr tr' ∧ Embeds v e e' ∧ G tr e

def EmbeddedPost (v : Part σ τ ℓ ℓ') (Q : List (Step σ ℓ) → α → Prop) (tr' : List (Step τ ℓ')) (a : α) : Prop :=
  ∃ tr, List.Forall₂ (Embeds v) tr tr' ∧ Q tr a

variable {G : List (Step σ ℓ) → Step σ ℓ → Prop} {Q : List (Step σ ℓ) → α → Prop}

theorem Sat.embed {p : Prog σ ℓ α} {tr : List (Step σ ℓ)} {tr' : List (Step τ ℓ')} (hp : Sat G Q p tr)
    (ht : List.Forall₂ (Embeds v) tr tr') : Sat (Embedded v G) (EmbeddedPost v Q) (p.embed v) tr' := by
  induction p generalizing tr tr' with
  | ret a => exact ⟨tr, ht, hp⟩
  | act f k ih =>
    intro t
    have he : Embeds v ⟨(f (v.get t)).1, v.get t, (f (v.get t)).2⟩
        ⟨v.label (f (v.get t)).1, t, v.put t (f (v.get t)).2⟩ := ⟨rfl, rfl, rfl⟩
    obtain ⟨hg, hk⟩ := hp (v.get t)
    exact ⟨⟨tr, _, ht, he, hg⟩, ih (v.get t) hk (List.rel_append ht (.cons he .nil))⟩

theorem Sat.imp {G' : List (Step σ ℓ) → Step σ ℓ → Prop} {p : Prog σ ℓ α} {tr : List (Step σ ℓ)} (hp : Sat G Q p tr)
    (h : ∀ tr e, G tr e → G' tr e) : Sat G' Q p tr := by
  induction p generalizing tr with
  | ret a => exact hp
  | act f k ih => exact fun s => ⟨h _ _ (hp s).1, ih s (hp s).2⟩

/-! ## Programs that may fail, at any labels -/

/-- What holds of the values a program returns; of a throw nothing is said. -/
def Ends {ε : Type} (Q : List (Step σ ℓ) → α → Prop) (tr : List (Step σ ℓ)) : Except ε α → Prop
  | .error _ => True
  | .ok a => Q tr a

theorem Sat.tryBind {ε : Type} {R : List (Step σ ℓ) → β → Prop} {p : TryProg σ ℓ ε β} {k : β → TryProg σ ℓ ε α}
    {tr : List (Step σ ℓ)} (hp : Sat G (Ends R) p tr)
    (hk : ∀ tr' b, tr <+: tr' → R tr' b → Sat G (Ends Q) (k b) tr') :
    Sat G (Ends Q) (p >>= k : TryProg σ ℓ ε α) tr := by
  refine Sat.bind hp fun tr' r hpre hr => ?_
  cases r with
  | error e => exact trivial
  | ok b => exact hk tr' b hpre hr

theorem Sat.tryThrow {ε : Type} {e : ε} {tr : List (Step σ ℓ)} :
    Sat G (Ends Q) (TryProg.throw e : TryProg σ ℓ ε α) tr := trivial

theorem Sat.tryPure {ε : Type} {a : α} {tr : List (Step σ ℓ)} (h : Q tr a) :
    Sat G (Ends Q) (pure a : TryProg σ ℓ ε α) tr := h

theorem Sat.tryMapError {ε : Type} {p : TryProg σ ℓ ε α} {g : ε → ε} {tr : List (Step σ ℓ)}
    (hp : Sat G (Ends Q) p tr) : Sat G (Ends Q) (p.mapError g) tr := by
  refine Sat.bind hp fun tr' r _ hr => ?_
  cases r with
  | error e => exact trivial
  | ok a => exact hr

end

end Lib

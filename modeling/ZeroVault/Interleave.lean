import Mathlib.Data.List.Basic
import Mathlib.Data.List.Induction

/-!
# Interleaved programs over a shared store

A program is a tree of atomic accesses to a store. Any number of calls run
interleaved, one access at a time, and every access is recorded in a history.
`reach_step` tells of each step what its call's code guarantees, given the
accesses the call made before; `reach_rel` is the rely-guarantee rule: a
relation that every step keeps as long as the earlier ones did relates all
stores of a history.
-/

namespace Lib

/-- `act f k` is one atomic access: it labels and updates the store by `f` and
goes on with what `k` makes of the store it found. -/
inductive Prog (σ ℓ α : Type) : Type where
  | ret (a : α) : Prog σ ℓ α
  | act (f : σ → ℓ × σ) (k : σ → Prog σ ℓ α) : Prog σ ℓ α

namespace Prog

variable {σ ℓ α β : Type}

def bind : Prog σ ℓ α → (α → Prog σ ℓ β) → Prog σ ℓ β
  | ret a, g => g a
  | act f k, g => act f fun s => (k s).bind g

instance : Monad (Prog σ ℓ) where
  pure := ret
  bind := bind

/-- An access that reads `g` and changes nothing. -/
def query (l : ℓ) (g : σ → β) : Prog σ ℓ β := act (fun s => (l, s)) fun s => ret (g s)

def access (g : σ → (ℓ × σ) × β) : Prog σ ℓ β := act (fun s => (g s).1) fun s => ret (g s).2

def run : Prog σ ℓ α → σ → σ × α
  | ret a, s => (s, a)
  | act f k, s => (k s).run (f s).2

@[simp] theorem pure_eq (a : α) : (pure a : Prog σ ℓ α) = ret a := rfl
@[simp] theorem ret_bind (a : α) (g : α → Prog σ ℓ β) : (ret a >>= g) = g a := rfl
@[simp] theorem act_bind (f : σ → ℓ × σ) (k : σ → Prog σ ℓ α) (g : α → Prog σ ℓ β) :
    (act f k >>= g) = act f fun s => k s >>= g := rfl
@[simp] theorem query_bind (l : ℓ) (g : σ → α) (k : α → Prog σ ℓ β) :
    (query l g >>= k) = act (fun s => (l, s)) fun s => k (g s) := rfl
@[simp] theorem access_bind (g : σ → (ℓ × σ) × α) (k : α → Prog σ ℓ β) :
    (access g >>= k) = act (fun s => (g s).1) fun s => k (g s).2 := rfl

@[simp] theorem run_ret (a : α) (s : σ) : (ret a : Prog σ ℓ α).run s = (s, a) := rfl
@[simp] theorem run_act (f : σ → ℓ × σ) (k : σ → Prog σ ℓ α) (s : σ) :
    (act f k).run s = (k s).run (f s).2 := rfl

theorem run_bind (p : Prog σ ℓ α) (g : α → Prog σ ℓ β) (s : σ) :
    (p >>= g).run s = (g (p.run s).2).run (p.run s).1 := by
  induction p generalizing s with
  | ret a => rfl
  | act f k ih => rw [act_bind, run_act, ih, run_act]

end Prog

/-! ## Transactions -/

/-- What an access to a transactional store was: a read, or a batch of
statements that was committed or rolled back as a whole. -/
inductive Access (stmt : Type) : Type where
  | query
  | commit (stmts : List stmt)
  | abort (stmts : List stmt)

section
variable {σ stmt : Type} (exec : stmt → σ → Option σ)

/-- The statements of a batch in order; `none` once a constraint is violated. -/
def execAll : List stmt → σ → Option σ
  | [], s => some s
  | q :: qs, s => (exec q s).bind (execAll qs)

@[simp] theorem execAll_nil (s : σ) : execAll exec [] s = some s := rfl

theorem execAll_cons {q : stmt} {qs : List stmt} {s s' : σ} :
    execAll exec (q :: qs) s = some s' ↔ ∃ t, exec q s = some t ∧ execAll exec qs t = some s' := by
  rw [execAll, Option.bind_eq_some_iff]

theorem execAll_append {qs rs : List stmt} {s s' : σ} :
    execAll exec (qs ++ rs) s = some s' ↔ ∃ t, execAll exec qs s = some t ∧ execAll exec rs t = some s' := by
  induction qs generalizing s with
  | nil => simp
  | cons q qs ih =>
    simp only [List.cons_append, execAll_cons, ih]
    constructor
    · rintro ⟨t, hq, u, hqs, hrs⟩; exact ⟨u, ⟨t, hq, hqs⟩, hrs⟩
    · rintro ⟨u, ⟨t, hq, hqs⟩, hrs⟩; exact ⟨t, hq, u, hqs, hrs⟩

theorem execAll_fixed {qs : List stmt} {s : σ} (h : ∀ q ∈ qs, exec q s = some s) : execAll exec qs s = some s := by
  induction qs with
  | nil => rfl
  | cons q qs ih =>
    exact (execAll_cons exec).mpr ⟨s, h q List.mem_cons_self, ih fun q' hq' => h q' (List.mem_cons_of_mem _ hq')⟩

theorem execAll_keeps {P : σ → Prop} {qs : List stmt} (hP : ∀ q ∈ qs, ∀ s s', exec q s = some s' → P s → P s')
    {s s' : σ} (h : execAll exec qs s = some s') (hs : P s) : P s' := by
  induction qs generalizing s with
  | nil => cases h; exact hs
  | cons q qs ih =>
    obtain ⟨t, hq, hqs⟩ := (execAll_cons exec).mp h
    exact ih (fun q' hq' => hP q' (List.mem_cons_of_mem _ hq')) hqs (hP q List.mem_cons_self s t hq hs)

theorem execAll_appears {P : σ → Prop} {qs : List stmt} {s s' : σ} (h : execAll exec qs s = some s') (h0 : ¬ P s)
    (hP : P s') : ∃ pre q post m m', qs = pre ++ q :: post ∧ execAll exec pre s = some m ∧ exec q m = some m' ∧
      ¬ P m ∧ P m' := by
  induction qs generalizing s with
  | nil => cases h; exact absurd hP h0
  | cons q qs ih =>
    obtain ⟨t, hq, hqs⟩ := (execAll_cons exec).mp h
    by_cases ht : P t
    · exact ⟨[], q, qs, s, t, rfl, rfl, hq, h0, ht⟩
    · obtain ⟨pre, q', post, m, m', rfl, hpre, hx⟩ := ih hqs ht
      exact ⟨q :: pre, q', post, m, m', rfl, (execAll_cons exec).mpr ⟨t, hq, hpre⟩, hx⟩

theorem execAll_rel {R : σ → σ → Prop} (hr : ∀ s, R s s) (ht : ∀ s₁ s₂ s₃, R s₁ s₂ → R s₂ s₃ → R s₁ s₃)
    {qs : List stmt} (hR : ∀ q ∈ qs, ∀ s s', exec q s = some s' → R s s') {s s' : σ}
    (h : execAll exec qs s = some s') : R s s' := by
  induction qs generalizing s with
  | nil => cases h; exact hr _
  | cons q qs ih =>
    obtain ⟨t, hq, hqs⟩ := (execAll_cons exec).mp h
    exact ht _ _ _ (hR q List.mem_cons_self _ t hq) (ih (fun q' hq' => hR q' (List.mem_cons_of_mem _ hq')) hqs)

/-- Statements that take related stores to related stores, or fail on both, make
batches that do. -/
theorem execAll_related {R : σ → σ → Prop} {qs : List stmt}
    (hR : ∀ q ∈ qs, ∀ s s', R s s' → Option.Rel R (exec q s) (exec q s')) {s s' : σ} (h : R s s') :
    Option.Rel R (execAll exec qs s) (execAll exec qs s') := by
  induction qs generalizing s s' with
  | nil => exact .some h
  | cons q qs ih =>
    have ih := fun s s' h => @ih (fun q' hq' => hR q' (List.mem_cons_of_mem _ hq')) s s' h
    have hq := hR q List.mem_cons_self s s' h
    unfold execAll
    cases hs : exec q s with
    | none =>
      cases hs' : exec q s' with
      | none => exact .none
      | some t' =>
        rw [hs, hs'] at hq
        cases hq
    | some t =>
      cases hs' : exec q s' with
      | none =>
        rw [hs, hs'] at hq
        cases hq
      | some t' =>
        rw [hs, hs'] at hq
        cases hq with
        | some ht => exact ih t t' ht

def batch (stmts : List stmt) : Prog σ (Access stmt) Bool :=
  Prog.access fun s =>
    match execAll exec stmts s with
    | some s' => ((.commit stmts, s'), true)
    | none => ((.abort stmts, s), false)

variable (count : stmt → σ → Nat)

def counts : List stmt → σ → List Nat
  | [], _ => []
  | q :: qs, s => count q s :: ((exec q s).map (counts qs)).getD []

end

/-! ## Two runs -/

section
variable {σ ℓ α β : Type} {R : σ → σ → Prop}

/-- Alone at related stores the programs return the same and leave related
stores. -/
def Alike (R : σ → σ → Prop) (p p' : Prog σ ℓ α) : Prop :=
  ∀ s s', R s s' → (p.run s).2 = (p'.run s').2 ∧ R (p.run s).1 (p'.run s').1

theorem Alike.ret (a : α) : Alike R (Prog.ret a : Prog σ ℓ α) (Prog.ret a) := fun _ _ h => ⟨rfl, h⟩

theorem Alike.query {l : ℓ} {g g' : σ → β} {k k' : β → Prog σ ℓ α} (V : β → β → Prop)
    (hg : ∀ s s', R s s' → V (g s) (g' s')) (hk : ∀ v v', V v v' → Alike R (k v) (k' v')) :
    Alike R (Prog.query l g >>= k) (Prog.query l g' >>= k') := by
  intro s s' h
  rw [Prog.query_bind, Prog.query_bind, Prog.run_act, Prog.run_act]
  exact hk _ _ (hg s s' h) s s' h

theorem Alike.bind {p p' : Prog σ ℓ β} {k k' : β → Prog σ ℓ α} (hp : Alike R p p') (hk : ∀ b, Alike R (k b) (k' b)) :
    Alike R (p >>= k) (p' >>= k') := by
  intro s s' h
  obtain ⟨heq, hrel⟩ := hp s s' h
  rw [Prog.run_bind, Prog.run_bind, ← heq]
  exact hk _ _ _ hrel

theorem Alike.batch {stmt : Type} {exec : stmt → σ → Option σ} {stmts : List stmt}
    (hR : ∀ q ∈ stmts, ∀ s s', R s s' → Option.Rel R (exec q s) (exec q s')) :
    Alike R (batch exec stmts) (batch exec stmts) := by
  intro s s' h
  have hx := execAll_related exec hR h
  simp only [Lib.batch, Prog.access, Prog.run_act, Prog.run_ret]
  cases hs : execAll exec stmts s with
  | none =>
    cases hs' : execAll exec stmts s' with
    | none => exact ⟨rfl, h⟩
    | some t' =>
      rw [hs, hs'] at hx
      cases hx
  | some t =>
    cases hs' : execAll exec stmts s' with
    | none =>
      rw [hs, hs'] at hx
      cases hx
    | some t' =>
      rw [hs, hs'] at hx
      cases hx with
      | some ht => exact ⟨rfl, ht⟩

end

/-! ## Programs that may fail -/

/-- A program that ends in a value or throws. -/
def TryProg (σ ℓ ε α : Type) : Type := Prog σ ℓ (Except ε α)

namespace TryProg

variable {σ ℓ ε α β : Type}

def throw (e : ε) : TryProg σ ℓ ε α := Prog.ret (.error e)

def bind (p : TryProg σ ℓ ε α) (k : α → TryProg σ ℓ ε β) : TryProg σ ℓ ε β :=
  Prog.bind p fun
    | .error e => Prog.ret (.error e)
    | .ok a => k a

instance : Monad (TryProg σ ℓ ε) where
  pure a := Prog.ret (.ok a)
  bind := bind

def run (p : TryProg σ ℓ ε α) (s : σ) : σ × Except ε α := Prog.run p s

/-- Throws `h e` where the program throws `e`. -/
def mapError (p : TryProg σ ℓ ε α) (h : ε → ε) : TryProg σ ℓ ε α :=
  Prog.bind p fun
    | .error e => Prog.ret (.error (h e))
    | .ok a => Prog.ret (.ok a)

def read {stmt : Type} (g : σ → α) : TryProg σ (Access stmt) ε α :=
  Prog.act (fun s => (.query, s)) fun s => Prog.ret (.ok (g s))

/-- Runs the statements as one transaction; `none` when it was rolled back,
else the rows each statement changed. -/
def transact {stmt : Type} (exec : stmt → σ → Option σ) (count : stmt → σ → Nat) (stmts : List stmt) :
    TryProg σ (Access stmt) ε (Option (List Nat)) :=
  Prog.access fun s =>
    match execAll exec stmts s with
    | some s' => ((.commit stmts, s'), .ok (some (counts exec count stmts s)))
    | none => ((.abort stmts, s), .ok none)

theorem run_read_bind {stmt : Type} (g : σ → α) (k : α → TryProg σ (Access stmt) ε β) (s : σ) :
    (read g >>= k).run s = (k (g s)).run s := rfl

theorem run_bind (p : TryProg σ ℓ ε α) (k : α → TryProg σ ℓ ε β) (s : σ) :
    (p >>= k).run s = match p.run s with
      | (s', .error e) => (s', .error e)
      | (s', .ok a) => (k a).run s' := by
  have h := Prog.run_bind p (fun r => match r with
    | .error e => Prog.ret (.error e)
    | .ok a => k a) s
  refine Eq.trans (show (p >>= k).run s = _ from h) ?_
  unfold run
  cases hp : Prog.run p s with
  | mk s' r => cases r <;> rfl

theorem run_mapError (p : TryProg σ ℓ ε α) (g : ε → ε) (s : σ) :
    (p.mapError g).run s = ((p.run s).1, (p.run s).2.mapError g) := by
  refine Eq.trans (Prog.run_bind p _ s) ?_
  unfold run
  cases hp : Prog.run p s with
  | mk s' r => cases r <;> rfl

theorem mapError_ok {p : TryProg σ ℓ ε α} {g : ε → ε} {s s' : σ} {a : α}
    (h : (p.mapError g).run s = (s', .ok a)) : p.run s = (s', .ok a) := by
  rw [run_mapError] at h
  cases hp : p.run s with
  | mk m r =>
    rw [hp] at h
    cases r with
    | error e => cases h
    | ok b => exact h

theorem bind_ok {p : TryProg σ ℓ ε β} {k : β → TryProg σ ℓ ε α} {s s' : σ} {a : α}
    (h : (p >>= k).run s = (s', .ok a)) : ∃ m b, p.run s = (m, .ok b) ∧ (k b).run m = (s', .ok a) := by
  rw [run_bind] at h
  cases hp : p.run s with
  | mk m r =>
    rw [hp] at h
    cases r with
    | error e => cases h
    | ok b => exact ⟨m, b, rfl, h⟩

end TryProg

/-! ## Calls and their history -/

structure Step (σ ℓ : Type) where
  label : ℓ
  before : σ
  after : σ

inductive Event (ι σ ℓ : Type) : Type where
  | issue (pid : Nat) (call : ι)
  | step (pid : Nat) (call : ι) (step : Step σ ℓ)

abbrev History (ι σ ℓ : Type) := List (Event ι σ ℓ)

structure Proc (ι σ ℓ α : Type) where
  call : ι
  prog : Prog σ ℓ α

section
variable {ι σ ℓ α : Type}

def Event.pid : Event ι σ ℓ → Nat
  | .issue pid _ => pid
  | .step pid .. => pid

def Event.call : Event ι σ ℓ → ι
  | .issue _ c => c
  | .step _ c _ => c

def Event.own? (i : Nat) : Event ι σ ℓ → Option (Step σ ℓ)
  | .issue .. => none
  | .step pid _ e => if pid = i then some e else none

def own (i : Nat) (h : History ι σ ℓ) : List (Step σ ℓ) := h.filterMap (Event.own? i)

def Event.store : Event ι σ ℓ → σ → σ
  | .issue .., s => s
  | .step _ _ e, _ => e.after

def storeAfter (s₀ : σ) (h : History ι σ ℓ) : σ := h.foldl (fun s e => e.store s) s₀

@[simp] theorem own_nil (i : Nat) : own i ([] : History ι σ ℓ) = [] := rfl

@[simp] theorem own_append (i : Nat) (h₁ h₂ : History ι σ ℓ) : own i (h₁ ++ h₂) = own i h₁ ++ own i h₂ :=
  List.filterMap_append

@[simp] theorem own_issue (i j : Nat) (c : ι) : own i ([.issue j c] : History ι σ ℓ) = [] := rfl

theorem own_step (i j : Nat) (c : ι) (e : Step σ ℓ) : own i [.step j c e] = if j = i then [e] else [] := by
  unfold own
  simp only [List.filterMap_cons, List.filterMap_nil, Event.own?]
  split <;> simp_all

theorem mem_own {i : Nat} {h : History ι σ ℓ} {e : Step σ ℓ} : e ∈ own i h ↔ ∃ c, .step i c e ∈ h := by
  unfold own
  rw [List.mem_filterMap]
  constructor
  · rintro ⟨v, hv, he⟩
    cases v with
    | issue j c => cases he
    | step j c e' =>
      simp only [Event.own?] at he
      split at he
      · rename_i hj; subst hj; cases he; exact ⟨c, hv⟩
      · cases he
  · rintro ⟨c, hc⟩; exact ⟨_, hc, by simp [Event.own?]⟩

theorem own_split {i : Nat} {h : History ι σ ℓ} {t₁ t₂ : List (Step σ ℓ)} {e : Step σ ℓ}
    (ho : own i h = t₁ ++ e :: t₂) : ∃ h₁ c h₂, h = h₁ ++ .step i c e :: h₂ ∧ own i h₁ = t₁ := by
  obtain ⟨a, b, rfl, ha, hb⟩ := List.filterMap_eq_append_iff.mp ho
  obtain ⟨b₁, v, b₂, rfl, hnone, hv, -⟩ := List.filterMap_eq_cons_iff.mp hb
  cases v with
  | issue j c => cases hv
  | step j c e' =>
    simp only [Event.own?] at hv
    split at hv
    · rename_i hj; subst hj; cases hv
      refine ⟨a ++ b₁, c, b₂, by simp, ?_⟩
      rw [own_append, show own j a = t₁ from ha, show own j b₁ = [] from List.filterMap_eq_nil_iff.mpr hnone,
        List.append_nil]
    · cases hv

@[simp] theorem storeAfter_nil (s₀ : σ) : storeAfter s₀ ([] : History ι σ ℓ) = s₀ := rfl

@[simp] theorem storeAfter_append (s₀ : σ) (h₁ h₂ : History ι σ ℓ) :
    storeAfter s₀ (h₁ ++ h₂) = storeAfter (storeAfter s₀ h₁) h₂ := List.foldl_append

@[simp] theorem storeAfter_issue (s₀ : σ) (i : Nat) (c : ι) (h : History ι σ ℓ) :
    storeAfter s₀ (.issue i c :: h) = storeAfter s₀ h := rfl

@[simp] theorem storeAfter_step (s₀ : σ) (i : Nat) (c : ι) (e : Step σ ℓ) (h : History ι σ ℓ) :
    storeAfter s₀ (.step i c e :: h) = storeAfter e.after h := rfl

theorem storeAfter_snoc (s₀ : σ) (i : Nat) (c : ι) (e : Step σ ℓ) (h : History ι σ ℓ) :
    storeAfter s₀ (h ++ [.step i c e]) = e.after := by
  rw [storeAfter_append]; rfl

end

/-! ## Reachable histories -/

section
variable {ι σ ℓ α : Type} (code : ι → Prog σ ℓ α) (ok : ι → Prop) (s₀ : σ)

/-- The histories, stores and processes that interleavings of calls reach from
`s₀`. A call that satisfies `ok` may be issued at any time. -/
inductive Reach : History ι σ ℓ → σ → List (Proc ι σ ℓ α) → Prop
  | start : Reach [] s₀ []
  | issue {h s ps} (c : ι) : Reach h s ps → ok c →
      Reach (h ++ [.issue ps.length c]) s (ps ++ [⟨c, code c⟩])
  | step {h s ps} (i : Nat) (c : ι) (f : σ → ℓ × σ) (k : σ → Prog σ ℓ α) : Reach h s ps →
      ps[i]? = some ⟨c, .act f k⟩ →
      Reach (h ++ [.step i c ⟨(f s).1, s, (f s).2⟩]) (f s).2 (ps.set i ⟨c, k s⟩)

variable {code ok s₀} {h h₁ h₂ : History ι σ ℓ} {s : σ} {ps : List (Proc ι σ ℓ α)}

theorem reach_store (hr : Reach code ok s₀ h s ps) : storeAfter s₀ h = s := by
  induction hr with
  | start => rfl
  | issue c _ _ ih => rw [storeAfter_append, ih]; rfl
  | step i c f k _ _ _ => exact storeAfter_snoc ..

theorem reach_prefix (hr : Reach code ok s₀ (h₁ ++ h₂) s ps) :
    ∃ ps₁, Reach code ok s₀ h₁ (storeAfter s₀ h₁) ps₁ := by
  generalize hh : h₁ ++ h₂ = h at hr
  induction hr generalizing h₂ with
  | start =>
    rw [List.append_eq_nil_iff] at hh
    rw [hh.1]; exact ⟨_, .start⟩
  | @issue h s ps c hr hc ih =>
    rcases List.eq_nil_or_concat h₂ with rfl | ⟨h₃, e, rfl⟩
    · rw [List.append_nil] at hh
      subst hh
      rw [storeAfter_append, reach_store hr]
      exact ⟨_, .issue c hr hc⟩
    · rw [List.concat_eq_append, ← List.append_assoc] at hh
      exact ih (List.append_inj' hh rfl).1
  | @step h s ps i c f k hr hi ih =>
    rcases List.eq_nil_or_concat h₂ with rfl | ⟨h₃, e, rfl⟩
    · rw [List.append_nil] at hh
      subst hh
      rw [storeAfter_append, reach_store hr]
      exact ⟨_, .step i c f k hr hi⟩
    · rw [List.concat_eq_append, ← List.append_assoc] at hh
      exact ih (List.append_inj' hh rfl).1

theorem reach_ok (hr : Reach code ok s₀ h s ps) : ∀ p ∈ ps, ok p.call := by
  induction hr with
  | start => exact fun p hp => absurd hp List.not_mem_nil
  | issue c _ hc ih =>
    intro p hp
    rcases List.mem_append.mp hp with hp | hp
    · exact ih p hp
    · rw [List.mem_singleton.mp hp]; exact hc
  | step i c f k _ hi ih =>
    intro p hp
    rcases List.mem_or_eq_of_mem_set hp with hp | rfl
    · exact ih p hp
    · exact ih ⟨c, .act f k⟩ (List.mem_of_getElem? hi)

/-- What holds in the end and not at the start was brought about by a step. -/
theorem reach_appears {p : σ → Prop} (hr : Reach code ok s₀ h s ps) (h0 : ¬ p s₀) (hp : p s) :
    ∃ h₁ i c e h₂, h = h₁ ++ .step i c e :: h₂ ∧ ¬ p e.before ∧ p e.after := by
  induction hr with
  | start => exact absurd hp h0
  | issue c _ _ ih =>
    obtain ⟨h₁, i, c', e, h₂, rfl, hb, ha⟩ := ih hp
    exact ⟨h₁, i, c', e, h₂ ++ [_], List.append_assoc .., hb, ha⟩
  | @step h s ps i c f k _ _ ih =>
    by_cases hs : p s
    · obtain ⟨h₁, j, c', e, h₂, rfl, hb, ha⟩ := ih hs
      exact ⟨h₁, j, c', e, h₂ ++ [_], List.append_assoc .., hb, ha⟩
    · exact ⟨h, i, c, ⟨(f s).1, s, (f s).2⟩, [], rfl, hs, hp⟩

theorem reach_call (hr : Reach code ok s₀ h s ps) :
    ∀ v ∈ h, ∃ p, ps[v.pid]? = some p ∧ p.call = v.call := by
  induction hr with
  | start => exact fun v hv => absurd hv List.not_mem_nil
  | @issue h s ps c _ _ ih =>
    intro v hv
    rcases List.mem_append.mp hv with hv | hv
    · obtain ⟨p, hp, hc⟩ := ih v hv
      exact ⟨p, by rw [List.getElem?_append_left (List.getElem?_eq_some_iff.mp hp).1, hp], hc⟩
    · rw [List.mem_singleton.mp hv]
      exact ⟨⟨c, code c⟩, by simp [Event.pid], rfl⟩
  | @step h s ps i c f k _ hi ih =>
    intro v hv
    have hlt : i < ps.length := (List.getElem?_eq_some_iff.mp hi).1
    rcases List.mem_append.mp hv with hv | hv
    · obtain ⟨p, hp, hc⟩ := ih v hv
      by_cases he : i = v.pid
      · refine ⟨⟨c, k s⟩, by rw [← he, List.getElem?_set_self hlt], ?_⟩
        rw [← hc]
        rw [← he, hi] at hp
        cases hp; rfl
      · exact ⟨p, by rw [List.getElem?_set_ne he, hp], hc⟩
    · rw [List.mem_singleton.mp hv]
      exact ⟨⟨c, k s⟩, by simp [Event.pid, hlt], rfl⟩

theorem reach_own (hr : Reach code ok s₀ h s ps) {i : Nat} (hi : ps.length ≤ i) : own i h = [] := by
  rw [List.eq_nil_iff_forall_not_mem]
  intro e he
  obtain ⟨c, hc⟩ := mem_own.mp he
  obtain ⟨p, hp, -⟩ := reach_call hr _ hc
  rw [show Event.pid (.step i c e) = i from rfl, List.getElem?_eq_none hi] at hp
  cases hp

theorem reach_before {i : Nat} {c : ι} {e : Step σ ℓ} (hr : Reach code ok s₀ (h₁ ++ .step i c e :: h₂) s ps) :
    e.before = storeAfter s₀ h₁ := by
  rw [show h₁ ++ .step i c e :: h₂ = (h₁ ++ [.step i c e]) ++ h₂ by simp] at hr
  obtain ⟨ps₁, h1⟩ := reach_prefix hr
  generalize storeAfter s₀ (h₁ ++ [.step i c e]) = s₁ at h1
  generalize hh : h₁ ++ [.step i c e] = h' at h1
  cases h1 with
  | start => simp at hh
  | issue c' h1 _ => cases (List.append_inj' hh rfl).2
  | step j c' f k h1 hj =>
    obtain ⟨rfl, he⟩ := List.append_inj' hh rfl
    cases he
    exact (reach_store h1).symm

theorem reach_issued {i : Nat} {c : ι} (hr : Reach code ok s₀ (h₁ ++ .issue i c :: h₂) s ps) :
    ok c ∧ own i h₁ = [] ∧ ∀ c' e, .step i c' e ∈ h₁ ++ .issue i c :: h₂ → c' = c := by
  have hcalls := reach_call hr
  have hone : h₁ ++ .issue i c :: h₂ = (h₁ ++ [.issue i c]) ++ h₂ := by simp
  rw [hone] at hr
  obtain ⟨ps₁, h1⟩ := reach_prefix hr
  refine ⟨?_, ?_, fun c' e he => ?_⟩
  · obtain ⟨p, hp, hc⟩ := reach_call h1 (.issue i c) (by simp)
    have := reach_ok h1 p (List.mem_of_getElem? hp)
    rwa [hc] at this
  · generalize hs : storeAfter s₀ (h₁ ++ [.issue i c]) = s₁ at h1
    generalize hh : h₁ ++ [.issue i c] = h' at h1
    cases h1 with
    | start => simp at hh
    | issue c' h1 _ =>
      obtain ⟨rfl, he⟩ := List.append_inj' hh rfl
      cases he
      exact reach_own h1 (Nat.le_refl _)
    | step j c' f k h1 _ =>
      have := (List.append_inj' hh rfl).2
      cases this
  · obtain ⟨p, hp, hc⟩ := hcalls _ he
    obtain ⟨p', hp', hc'⟩ := hcalls (.issue i c) (by simp)
    rw [show Event.pid (.issue i c : Event ι σ ℓ) = i from rfl] at hp'
    rw [show Event.pid (.step i c' e) = i from rfl, hp'] at hp
    cases hp
    exact hc.symm.trans hc'

end

/-! ## Schedules -/

inductive Move (ι : Type) : Type where
  | issue (call : ι)
  | step (pid : Nat)

section
variable {ι σ ℓ α : Type} (code : ι → Prog σ ℓ α)

abbrev Play (ι σ ℓ α : Type) := History ι σ ℓ × σ × List (Proc ι σ ℓ α)

def move : Play ι σ ℓ α → Move ι → Play ι σ ℓ α
  | (h, s, ps), .issue c => (h ++ [.issue ps.length c], s, ps ++ [⟨c, code c⟩])
  | (h, s, ps), .step i =>
    match ps[i]? with
    | some ⟨c, .act f k⟩ => (h ++ [.step i c ⟨(f s).1, s, (f s).2⟩], (f s).2, ps.set i ⟨c, k s⟩)
    | _ => (h, s, ps)

/-- The history that a schedule makes from `s₀`. -/
def play (s₀ : σ) (moves : List (Move ι)) : Play ι σ ℓ α := moves.foldl (move code) ([], s₀, [])

variable {code} {ok : ι → Prop} {s₀ : σ}

theorem foldl_move_reach {p : Play ι σ ℓ α} (hp : Reach code ok s₀ p.1 p.2.1 p.2.2) {moves : List (Move ι)}
    (hok : ∀ c, .issue c ∈ moves → ok c) :
    Reach code ok s₀ (moves.foldl (move code) p).1 (moves.foldl (move code) p).2.1
      (moves.foldl (move code) p).2.2 := by
  induction moves generalizing p with
  | nil => exact hp
  | cons m moves ih =>
    refine ih ?_ fun c hc => hok c (List.mem_cons_of_mem _ hc)
    obtain ⟨h, s, ps⟩ := p
    cases m with
    | issue c => exact .issue c hp (hok c List.mem_cons_self)
    | step i =>
      simp only [move]
      split
      · rename_i c f k hi
        exact .step i c f k hp hi
      · exact hp

theorem foldl_move_call {p : Play ι σ ℓ α} {i : Nat} {c : ι} (hp : p.2.2[i]?.map (·.call) = some c)
    (moves : List (Move ι)) : (moves.foldl (move code) p).2.2[i]?.map (·.call) = some c := by
  induction moves generalizing p with
  | nil => exact hp
  | cons m moves ih =>
    refine ih ?_
    obtain ⟨h, s, ps⟩ := p
    obtain ⟨q, hq, hc⟩ := Option.map_eq_some_iff.mp hp
    have hlt : i < ps.length := (List.getElem?_eq_some_iff.mp hq).1
    cases m with
    | issue c' =>
      have hkept : (ps ++ [⟨c', code c'⟩])[i]? = some q := by rw [List.getElem?_append_left hlt]; exact hq
      simp only [move, hkept, Option.map_some, hc]
    | step j =>
      simp only [move]
      split
      · rename_i c' f k hj
        by_cases he : j = i
        · subst he
          cases hj.symm.trans hq
          simp only [List.getElem?_set_self hlt, Option.map_some, ← hc]
        · simp only [List.getElem?_set_ne he]
          exact hp
      · exact hp

theorem play_call (c : ι) (moves : List (Move ι)) :
    (play code s₀ (.issue c :: moves)).2.2[0]?.map (·.call) = some c :=
  foldl_move_call (p := ([.issue 0 c], s₀, [⟨c, code c⟩])) rfl moves

theorem play_reach {moves : List (Move ι)} (hok : ∀ c, .issue c ∈ moves → ok c) :
    Reach code ok s₀ (play code s₀ moves).1 (play code s₀ moves).2.1 (play code s₀ moves).2.2 :=
  foldl_move_reach (p := ([], s₀, [])) .start hok

end

/-! ## What a program guarantees -/

section
variable {σ ℓ α β : Type} (G : List (Step σ ℓ) → Step σ ℓ → Prop)

/-- Whatever stores it meets, each access of the program satisfies `G` after the
accesses it made before, and it ends in `Q`. -/
def Sat (Q : List (Step σ ℓ) → α → Prop) : Prog σ ℓ α → List (Step σ ℓ) → Prop
  | .ret a, tr => Q tr a
  | .act f k, tr => ∀ s, G tr ⟨(f s).1, s, (f s).2⟩ ∧ Sat Q (k s) (tr ++ [⟨(f s).1, s, (f s).2⟩])

variable {G} {Q : List (Step σ ℓ) → α → Prop} {R : List (Step σ ℓ) → β → Prop}

/-- What the rest of a program may assume: what its first part returned, and
that the accesses up to there are still the first ones. -/
theorem Sat.bind {p : Prog σ ℓ β} {k : β → Prog σ ℓ α} {tr : List (Step σ ℓ)} (hp : Sat G R p tr)
    (hk : ∀ tr' a, tr <+: tr' → R tr' a → Sat G Q (k a) tr') : Sat G Q (p >>= k) tr := by
  induction p generalizing tr with
  | ret a => exact hk tr a List.prefix_rfl hp
  | act f g ih =>
    exact fun s => ⟨(hp s).1, ih s (hp s).2 fun tr' a hpre => hk tr' a ((List.prefix_append _ _).trans hpre)⟩

theorem Sat.mono {P : List (Step σ ℓ) → α → Prop} {p : Prog σ ℓ α} {tr : List (Step σ ℓ)} (hp : Sat G P p tr)
    (hQ : ∀ tr' a, P tr' a → Q tr' a) : Sat G Q p tr := by
  induction p generalizing tr with
  | ret a => exact hQ tr a hp
  | act f g ih => exact fun s => ⟨(hp s).1, ih s (hp s).2⟩

theorem Sat.both {G' : List (Step σ ℓ) → Step σ ℓ → Prop} {Q' : List (Step σ ℓ) → α → Prop} {p : Prog σ ℓ α}
    {tr : List (Step σ ℓ)} (hp : Sat G Q p tr) (hp' : Sat G' Q' p tr) :
    Sat (fun tr e => G tr e ∧ G' tr e) (fun tr a => Q tr a ∧ Q' tr a) p tr := by
  induction p generalizing tr with
  | ret a => exact ⟨hp, hp'⟩
  | act f g ih => exact fun s => ⟨⟨(hp s).1, (hp' s).1⟩, ih s (hp s).2 (hp' s).2⟩

theorem Sat.extends {p : Prog σ ℓ α} {tr : List (Step σ ℓ)} (hp : Sat G Q p tr) :
    Sat G (fun tr' a => Q tr' a ∧ tr <+: tr') p tr := by
  induction p generalizing tr with
  | ret a => exact ⟨hp, List.prefix_rfl⟩
  | act f g ih =>
    intro s
    refine ⟨(hp s).1, (ih s (hp s).2).mono ?_⟩
    rintro tr' a ⟨hq, hpre⟩
    exact ⟨hq, (List.prefix_append _ _).trans hpre⟩

end

/-! ## Guarantees of transactional programs -/

section
variable {σ stmt ε α β : Type} (exec : stmt → σ → Option σ)
variable (P : List (Step σ (Access stmt)) → List stmt → Prop)

/-- A batch satisfies `P` after the call's earlier accesses; nothing but a
committed batch changes the store. -/
def Guar (tr : List (Step σ (Access stmt))) (e : Step σ (Access stmt)) : Prop :=
  match e.label with
  | .commit stmts => execAll exec stmts e.before = some e.after ∧ P tr stmts
  | .abort stmts => e.after = e.before ∧ P tr stmts
  | .query => e.after = e.before

variable {exec P} in
theorem Guar.cases {tr : List (Step σ (Access stmt))} {e : Step σ (Access stmt)} (h : Guar exec P tr e) :
    (∃ stmts, e.label = .commit stmts ∧ execAll exec stmts e.before = some e.after ∧ P tr stmts) ∨
      ((∀ stmts, e.label ≠ .commit stmts) ∧ e.after = e.before) := by
  obtain ⟨label, b, a⟩ := e
  cases label with
  | query => exact .inr ⟨nofun, h⟩
  | abort stmts => exact .inr ⟨nofun, h.1⟩
  | commit stmts => exact .inl ⟨stmts, rfl, h.1, h.2⟩

variable {exec P} in
theorem Guar.ran {tr : List (Step σ (Access stmt))} {e : Step σ (Access stmt)} (h : Guar exec P tr e)
    {stmts : List stmt} (hl : e.label = .commit stmts ∨ e.label = .abort stmts) : P tr stmts := by
  unfold Guar at h
  rcases hl with hl | hl <;> rw [hl] at h <;> exact h.2

variable {exec P} in
theorem Guar.unchanged {tr : List (Step σ (Access stmt))} {e : Step σ (Access stmt)} (h : Guar exec P tr e)
    (hl : ∀ stmts, e.label ≠ .commit stmts) : e.after = e.before := by
  rcases h.cases with ⟨stmts, he, -⟩ | ⟨-, he⟩
  · exact absurd he (hl stmts)
  · exact he

def readStep (s : σ) : Step σ (Access stmt) := ⟨.query, s, s⟩

/-- Some read of the trace found `p`. -/
def Saw (p : σ → Prop) (tr : List (Step σ (Access stmt))) : Prop := ∃ s, readStep s ∈ tr ∧ p s

def ReadsOnly (tr : List (Step σ (Access stmt))) : Prop := ∀ x ∈ tr, x.label = .query

/-- What holds of the values a program returns; of a throw nothing is said. -/
def Returns (Q : List (Step σ (Access stmt)) → α → Prop) (tr : List (Step σ (Access stmt))) : Except ε α → Prop
  | .error _ => True
  | .ok a => Q tr a

/-- The committed batches of a program that may throw satisfy `P`, and what it
returns satisfies `Q`. -/
def TrySat (Q : List (Step σ (Access stmt)) → α → Prop) (p : TryProg σ (Access stmt) ε α)
    (tr : List (Step σ (Access stmt))) : Prop :=
  Sat (Guar exec P) (Returns Q) p tr

variable {exec P}
variable {Q : List (Step σ (Access stmt)) → α → Prop} {R : List (Step σ (Access stmt)) → β → Prop}
variable {tr tr' : List (Step σ (Access stmt))}

theorem Saw.now {p : σ → Prop} {s : σ} (h : p s) : Saw p (tr ++ [readStep s]) := ⟨s, by simp, h⟩

theorem Saw.later {p : σ → Prop} (h : Saw p tr) (hpre : tr <+: tr') : Saw p tr' := by
  obtain ⟨s, hs, hp⟩ := h
  exact ⟨s, hpre.subset hs, hp⟩

/-- A program whose batches satisfy `P` satisfies what `P` implies. -/
theorem TrySat.weaken {P' : List (Step σ (Access stmt)) → List stmt → Prop} {p : TryProg σ (Access stmt) ε α}
    (hp : TrySat exec P Q p tr) (h : ∀ tr stmts, P tr stmts → P' tr stmts) : TrySat exec P' Q p tr := by
  unfold TrySat at hp ⊢
  induction p generalizing tr with
  | ret a => exact hp
  | act f k ih =>
    intro s
    refine ⟨?_, ih s (hp s).2⟩
    have hg := (hp s).1
    unfold Guar at hg ⊢
    split at hg
    · exact ⟨hg.1, h _ _ hg.2⟩
    · exact ⟨hg.1, h _ _ hg.2⟩
    · exact hg

theorem TrySat.both {P' : List (Step σ (Access stmt)) → List stmt → Prop}
    {Q' : List (Step σ (Access stmt)) → α → Prop} {p : TryProg σ (Access stmt) ε α} (hp : TrySat exec P Q p tr)
    (hp' : TrySat exec P' Q' p tr) : TrySat exec (fun tr stmts => P tr stmts ∧ P' tr stmts) Q p tr := by
  unfold TrySat at hp hp' ⊢
  induction p generalizing tr with
  | ret a => exact hp
  | act f k ih =>
    intro s
    refine ⟨?_, ih s (hp s).2 (hp' s).2⟩
    have hg := (hp s).1
    have hg' := (hp' s).1
    unfold Guar at hg hg' ⊢
    split at hg
    · simp_all
    · simp_all
    · exact hg

theorem TrySat.throw {e : ε} : TrySat exec P Q (TryProg.throw e) tr := trivial

theorem TrySat.pure {a : α} (h : Q tr a) : TrySat exec P Q (pure a : TryProg σ (Access stmt) ε α) tr := h

theorem TrySat.bind {p : TryProg σ (Access stmt) ε β} {k : β → TryProg σ (Access stmt) ε α}
    (hp : TrySat exec P R p tr) (hk : ∀ tr' a, tr <+: tr' → R tr' a → TrySat exec P Q (k a) tr') :
    TrySat exec P Q (p >>= k) tr := by
  refine Sat.bind hp fun tr' r hpre hr => ?_
  cases r with
  | error e => exact trivial
  | ok a => exact hk tr' a hpre hr

theorem TrySat.mapError {p : TryProg σ (Access stmt) ε α} {h : ε → ε} (hp : TrySat exec P Q p tr) :
    TrySat exec P Q (p.mapError h) tr := by
  refine Sat.bind hp fun tr' r _ hr => ?_
  cases r with
  | error e => exact trivial
  | ok a => exact hr

theorem TrySat.read {g : σ → α} (h : ∀ s, Q (tr ++ [readStep s]) (g s)) :
    TrySat exec P Q (TryProg.read g : TryProg σ (Access stmt) ε α) tr :=
  fun s => ⟨rfl, h s⟩

theorem TrySat.transact {count : stmt → σ → Nat} {stmts : List stmt}
    {Q : List (Step σ (Access stmt)) → Option (List Nat) → Prop} (hP : P tr stmts)
    (hc : ∀ s s', execAll exec stmts s = some s' →
      Q (tr ++ [⟨.commit stmts, s, s'⟩]) (some (counts exec count stmts s)))
    (ha : ∀ s, execAll exec stmts s = none → Q (tr ++ [⟨.abort stmts, s, s⟩]) none) :
    TrySat exec P Q (TryProg.transact exec count stmts : TryProg σ (Access stmt) ε _) tr := by
  intro s
  cases hx : execAll exec stmts s with
  | some s' => simp only [hx]; exact ⟨⟨hx, hP⟩, hc s s' hx⟩
  | none => simp only [hx]; exact ⟨⟨rfl, hP⟩, ha s hx⟩

theorem TrySat.readOnly {p : TryProg σ (Access stmt) ε α} (hp : TrySat exec (fun _ _ => False) Q p tr)
    (htr : ReadsOnly tr) : TrySat exec P (fun tr' a => Q tr' a ∧ ReadsOnly tr') p tr := by
  unfold TrySat at *
  induction p generalizing tr with
  | ret r =>
    cases r with
    | error e => exact trivial
    | ok a => exact ⟨hp, htr⟩
  | act f g ih =>
    intro s
    obtain ⟨hg, hp⟩ := hp s
    have hq : (f s).1 = .query := by
      unfold Guar at hg
      split at hg
      · exact hg.2.elim
      · exact hg.2.elim
      · assumption
    refine ⟨?_, ih s hp fun x hx => ?_⟩
    · simpa only [Guar, hq] using hg
    · rcases List.mem_append.mp hx with hx | hx
      · exact htr x hx
      · rw [List.mem_singleton.mp hx]; exact hq

end

section
variable {ι σ ℓ α : Type} {code : ι → Prog σ ℓ α} {ok : ι → Prop} {s₀ : σ}
variable {G : ι → List (Step σ ℓ) → Step σ ℓ → Prop} {Q : ι → List (Step σ ℓ) → α → Prop}
variable (hsat : ∀ c, ok c → Sat (G c) (Q c) (code c) [])
variable {h : History ι σ ℓ} {s : σ} {ps : List (Proc ι σ ℓ α)}
include hsat

theorem reach_sat (hr : Reach code ok s₀ h s ps) :
    ∀ i p, ps[i]? = some p → Sat (G p.call) (Q p.call) p.prog (own i h) := by
  induction hr with
  | start => exact fun i p hp => by cases hp
  | @issue h s ps c hr hc ih =>
    intro i p hp
    rw [own_append, own_issue, List.append_nil]
    rcases Nat.lt_trichotomy i ps.length with hi | rfl | hi
    · rw [List.getElem?_append_left hi] at hp
      exact ih i p hp
    · simp only [List.getElem?_concat_length, Option.some.injEq] at hp
      subst hp
      rw [reach_own hr (Nat.le_refl _)]
      exact hsat c hc
    · rw [List.getElem?_eq_none (by simp; omega)] at hp; cases hp
  | @step h s ps j c f k _ hj ih =>
    intro i p hp
    rw [own_append, own_step]
    by_cases hi : j = i
    · subst hi
      rw [List.getElem?_set_self (List.getElem?_eq_some_iff.mp hj).1] at hp
      cases hp
      simpa using (ih j _ hj s).2
    · rw [List.getElem?_set_ne hi] at hp
      simpa [hi] using ih i p hp

theorem reach_step {h₁ h₂ : History ι σ ℓ} {i : Nat} {c : ι} {e : Step σ ℓ}
    (hr : Reach code ok s₀ (h₁ ++ .step i c e :: h₂) s ps) :
    ok c ∧ e.before = storeAfter s₀ h₁ ∧ G c (own i h₁) e := by
  rw [show h₁ ++ .step i c e :: h₂ = (h₁ ++ [.step i c e]) ++ h₂ by simp] at hr
  obtain ⟨ps₁, h1⟩ := reach_prefix hr
  generalize storeAfter s₀ (h₁ ++ [.step i c e]) = s₁ at h1
  generalize hh : h₁ ++ [.step i c e] = h' at h1
  cases h1 with
  | start => simp at hh
  | issue c' h1 _ =>
    have := (List.append_inj' hh rfl).2
    cases this
  | step j c' f k h1 hj =>
    obtain ⟨rfl, he⟩ := List.append_inj' hh rfl
    cases he
    exact ⟨reach_ok h1 _ (List.mem_of_getElem? hj), (reach_store h1).symm, (reach_sat hsat h1 i _ hj _).1⟩

/-- What every step that meets its guarantee, and `P` where the history is
assumed to, keeps holds wherever a history leads. -/
theorem reach_invariant {I : σ → Prop} {P : List (Step σ ℓ) → Step σ ℓ → Prop} (h0 : I s₀)
    (hstep : ∀ c tr e, ok c → I e.before → G c tr e → P tr e → I e.after) (hr : Reach code ok s₀ h s ps)
    (hgood : ∀ h₁ i c e h₂, h = h₁ ++ .step i c e :: h₂ → P (own i h₁) e) : I s := by
  induction hr with
  | start => exact h0
  | issue c _ _ ih => exact ih fun h₁ i c' e h₂ hh => hgood h₁ i c' e (h₂ ++ [_]) (by rw [hh, List.append_assoc, List.cons_append])
  | @step h s ps i c f k hr hi ih =>
    have hs := ih fun h₁ j c' e h₂ hh => hgood h₁ j c' e (h₂ ++ [_]) (by rw [hh, List.append_assoc, List.cons_append])
    exact hstep c _ ⟨(f s).1, s, (f s).2⟩ (reach_ok hr _ (List.mem_of_getElem? hi)) hs (reach_sat hsat hr i _ hi s).1
      (hgood h i c _ [] rfl)

/-- What holds at some point of a history, and is kept from there on. -/
theorem reach_keeps {I : σ → Prop} {P : ι → Step σ ℓ → Prop} {h₁ h₂ : History ι σ ℓ}
    (hstep : ∀ c tr e, ok c → I e.before → G c tr e → P c e → I e.after)
    (hr : Reach code ok s₀ (h₁ ++ h₂) s ps) (h0 : I (storeAfter s₀ h₁))
    (hgood : ∀ i c e, .step i c e ∈ h₂ → P c e) : I s := by
  induction h₂ using List.reverseRecOn generalizing s ps with
  | nil =>
    rw [List.append_nil] at hr
    rwa [reach_store hr] at h0
  | append_singleton h₂ v ih =>
    have hs := reach_store hr
    rw [← List.append_assoc] at hr hs
    obtain ⟨ps₁, hr₁⟩ := reach_prefix hr
    have hb := ih hr₁ fun i c e he => hgood i c e (List.mem_append_left _ he)
    cases v with
    | issue i c =>
      rw [storeAfter_append] at hs
      exact hs ▸ hb
    | step i c e =>
      rw [storeAfter_snoc] at hs
      obtain ⟨hc, hbefore, hg⟩ := reach_step hsat hr
      exact hs ▸ hstep c _ e hc (hbefore ▸ hb) hg (hgood i c e (by simp))

theorem reach_own_step {i : Nat} {e : Step σ ℓ} {t₁ t₂ : List (Step σ ℓ)} (hr : Reach code ok s₀ h s ps)
    (ho : own i h = t₁ ++ e :: t₂) : ∃ p, ps[i]? = some p ∧ G p.call t₁ e := by
  obtain ⟨h₁, c, h₂, rfl, rfl⟩ := own_split ho
  obtain ⟨p, hp, hc⟩ := reach_call hr (.step i c e) (by simp)
  exact ⟨p, hp, hc ▸ (reach_step hsat hr).2.2⟩

theorem reach_result {i : Nat} {c : ι} {a : α} (hr : Reach code ok s₀ h s ps)
    (hp : ps[i]? = some ⟨c, .ret a⟩) : Q c (own i h) a :=
  reach_sat hsat hr i _ hp

end

/-! ## Relations along a history -/

section
variable {ι σ ℓ : Type} (R : σ → σ → Prop)

/-- The accesses of `tr` happened in this order and before `s`, and what others
did between them stays within `R`. -/
structure Before (tr : List (Step σ ℓ)) (s : σ) : Prop where
  pairwise : tr.Pairwise fun d e => R d.after e.before
  now : ∀ d ∈ tr, R d.after s

theorem Before.mono {R R' : σ → σ → Prop} {tr : List (Step σ ℓ)} {s : σ} (hb : Before R tr s)
    (hR : ∀ s s', R s s' → R' s s') : Before R' tr s :=
  ⟨hb.pairwise.imp fun h => hR _ _ h, fun d hd => hR _ _ (hb.now d hd)⟩

/-- `R` relates the stores of the history in their order. -/
def Along (s₀ : σ) (h : History ι σ ℓ) : Prop :=
  ∀ h₁ h₂ h₃, h = h₁ ++ h₂ ++ h₃ → R (storeAfter s₀ h₁) (storeAfter s₀ (h₁ ++ h₂))

variable {R} {s₀ : σ} {h t : History ι σ ℓ}

theorem Along.init (ha : Along R s₀ (h ++ t)) : Along R s₀ h :=
  fun h₁ h₂ h₃ hh => ha h₁ h₂ (h₃ ++ t) (by rw [hh, List.append_assoc])

theorem Along.last (ha : Along R s₀ (h ++ t)) : R (storeAfter s₀ h) (storeAfter s₀ (h ++ t)) :=
  ha h t [] (List.append_nil _).symm

theorem Along.since {i : Nat} {c : ι} {e : Step σ ℓ} {h₁ h₂ : History ι σ ℓ}
    (ha : Along R s₀ (h₁ ++ .step i c e :: h₂ ++ t)) : R e.after (storeAfter s₀ (h₁ ++ .step i c e :: h₂)) := by
  have := ha (h₁ ++ [.step i c e]) h₂ t (by simp)
  rwa [storeAfter_snoc, List.append_assoc] at this

theorem Along.snoc (hrefl : ∀ s, R s s) (htrans : ∀ s₁ s₂ s₃, R s₁ s₂ → R s₂ s₃ → R s₁ s₃)
    (ha : Along R s₀ h) {v : Event ι σ ℓ} (hv : R (storeAfter s₀ h) (storeAfter s₀ (h ++ [v]))) :
    Along R s₀ (h ++ [v]) := by
  intro h₁ h₂ h₃ hh
  rcases List.eq_nil_or_concat h₃ with rfl | ⟨h₃, w, rfl⟩
  · rw [List.append_nil] at hh
    rcases List.eq_nil_or_concat h₂ with rfl | ⟨h₂, w, rfl⟩
    · rw [List.append_nil]; exact hrefl _
    · rw [← hh]
      rw [List.concat_eq_append, ← List.append_assoc] at hh
      obtain ⟨rfl, -⟩ := List.append_inj' hh rfl
      exact htrans _ _ _ ha.last hv
  · rw [List.concat_eq_append, ← List.append_assoc] at hh
    exact ha h₁ h₂ h₃ (List.append_inj' hh rfl).1

end

section
variable {ι σ ℓ α : Type} {code : ι → Prog σ ℓ α} {ok : ι → Prop} {s₀ : σ}
variable {G : ι → List (Step σ ℓ) → Step σ ℓ → Prop} {Q : ι → List (Step σ ℓ) → α → Prop}
variable {R : σ → σ → Prop} {h : History ι σ ℓ} {s : σ} {ps : List (Proc ι σ ℓ α)}

theorem Along.before (ha : Along R s₀ h) (hr : Reach code ok s₀ h s ps) (i : Nat) : Before R (own i h) s := by
  induction hr with
  | start => exact ⟨List.Pairwise.nil, fun d hd => absurd hd List.not_mem_nil⟩
  | issue c hr hc ih =>
    rw [own_append, own_issue, List.append_nil]
    exact ih ha.init
  | @step h s ps j c f k hr hj ih =>
    have hb := ih ha.init
    have hlast : ∀ d ∈ own i h, R d.after (f s).2 := by
      intro d hd
      obtain ⟨c', hc'⟩ := mem_own.mp hd
      obtain ⟨h₁, h₂, rfl⟩ := List.append_of_mem hc'
      have := ha (h₁ ++ [.step i c' d]) (h₂ ++ [.step j c ⟨(f s).1, s, (f s).2⟩]) [] (by simp)
      rwa [← List.append_assoc, storeAfter_snoc, storeAfter_snoc] at this
    rw [own_append, own_step]
    split
    · refine ⟨List.pairwise_append.mpr ⟨hb.pairwise, List.pairwise_singleton _ _, fun d hd e he => ?_⟩, ?_⟩
      · rw [List.mem_singleton.mp he]; exact hb.now d hd
      · intro d hd
        rcases List.mem_append.mp hd with hd | hd
        · exact hlast d hd
        · rw [List.mem_singleton.mp hd]
          have := ha (h ++ [.step j c ⟨(f s).1, s, (f s).2⟩]) [] [] (by simp)
          rwa [List.append_nil, storeAfter_snoc] at this
    · rw [List.append_nil]; exact ⟨hb.pairwise, hlast⟩

theorem Along.start (ha : Along R s₀ h) (hr : Reach code ok s₀ h s ps) {i : Nat} {d : Step σ ℓ} (hd : d ∈ own i h) :
    R s₀ d.before := by
  obtain ⟨c, hc⟩ := mem_own.mp hd
  obtain ⟨h₁, h₂, rfl⟩ := List.append_of_mem hc
  have hfrom := ha [] h₁ _ rfl
  rwa [List.nil_append, ← reach_before hr] at hfrom

/-- The accesses of a call come after the store it was issued in. -/
theorem Along.issued {h₁ h₂ : History ι σ ℓ} {i : Nat} {c : ι} (ha : Along R s₀ (h₁ ++ .issue i c :: h₂))
    (hr : Reach code ok s₀ (h₁ ++ .issue i c :: h₂) s ps) :
    ∀ d ∈ own i (h₁ ++ .issue i c :: h₂), R (storeAfter s₀ h₁) d.before := by
  intro d hd
  obtain ⟨c', hc'⟩ := mem_own.mp hd
  have hno : .step i c' d ∉ h₁ := by
    intro hm
    have := mem_own.mpr ⟨c', hm⟩
    rw [(reach_issued hr).2.1] at this; cases this
  rcases List.mem_append.mp hc' with hm | hm
  · exact absurd hm hno
  rcases List.mem_cons.mp hm with he | hm
  · cases he
  obtain ⟨h₃, h₄, rfl⟩ := List.append_of_mem hm
  have hsplit : h₁ ++ .issue i c :: (h₃ ++ .step i c' d :: h₄) =
      h₁ ++ (.issue i c :: h₃) ++ (.step i c' d :: h₄) := by simp
  have hstep := ha h₁ (.issue i c :: h₃) _ hsplit
  rw [hsplit] at hr
  rwa [← reach_before hr] at hstep

/-- The rely-guarantee rule: if each step that meets its guarantee, and `P`
where the history is assumed to, stays within `R` as long as all earlier ones
did, then `R` relates the stores of a history in their order. -/
theorem reach_rel_of {P : ι → Step σ ℓ → Prop} (hsat : ∀ c, ok c → Sat (G c) (Q c) (code c) [])
    (hrefl : ∀ s, R s s) (htrans : ∀ s₁ s₂ s₃, R s₁ s₂ → R s₂ s₃ → R s₁ s₃)
    (hstep : ∀ c tr e, ok c → R s₀ e.before → Before R tr e.before → G c tr e → P c e →
      R e.before e.after)
    (hr : Reach code ok s₀ h s ps) (hgood : ∀ i c e, .step i c e ∈ h → P c e) : Along R s₀ h := by
  induction hr with
  | start =>
    intro h₁ h₂ h₃ hh
    rw [List.nil_eq, List.append_assoc, List.append_eq_nil_iff, List.append_eq_nil_iff] at hh
    rw [hh.1, hh.2.1]; exact hrefl _
  | @issue h s ps c hr hc ih =>
    have ha := ih fun i c e he => hgood i c e (List.mem_append_left _ he)
    exact ha.snoc hrefl htrans (by rw [storeAfter_append]; exact hrefl _)
  | @step h s ps i c f k hr hi ih =>
    have ha := ih fun i c e he => hgood i c e (List.mem_append_left _ he)
    have h0 := (show Along R s₀ ([] ++ h) from ha).last
    refine ha.snoc hrefl htrans ?_
    rw [List.nil_append, reach_store hr] at h0
    rw [storeAfter_append, reach_store hr]
    exact hstep c _ ⟨(f s).1, s, (f s).2⟩ (reach_ok hr _ (List.mem_of_getElem? hi)) h0 (ha.before hr i)
      (reach_sat hsat hr i _ hi s).1 (hgood i c _ (by simp))

theorem reach_rel (hsat : ∀ c, ok c → Sat (G c) (Q c) (code c) [])
    (hrefl : ∀ s, R s s) (htrans : ∀ s₁ s₂ s₃, R s₁ s₂ → R s₂ s₃ → R s₁ s₃)
    (hstep : ∀ c tr e, ok c → R s₀ e.before → Before R tr e.before → G c tr e →
      R e.before e.after)
    (hr : Reach code ok s₀ h s ps) : Along R s₀ h :=
  reach_rel_of hsat hrefl htrans (fun c tr e hc h0 hb hg _ => hstep c tr e hc h0 hb hg) hr
    fun _ _ _ _ => (trivial : True)

end

end Lib

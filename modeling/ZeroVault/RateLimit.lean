import ZeroVault.Interleave
import ZeroVault.Table
import Mathlib.Data.Finset.Max

/-!
# The rate limiter

A request inserts its clock reading, counts the readings of its key and deletes
the old ones, in three statements of their own. What is counted are stored
readings: the limit holds as long as no insertion is ignored and no reading is
deleted that a later count would have counted (`admissions_bounded`).
-/

namespace ZeroVault.RateLimit

open Lib

/-! ## The middleware -/

/-- Rows of `rate_limits`; both columns are the primary key. -/
abbrev RateLimits := Table (String × Int) Unit

inductive RateStmt
  | insert
  | count
  | cleanup
deriving DecidableEq, Repr

inductive RateAccess
  | insert (key : String) (timestamp : Int)
  | count (key : String) (cutoff : Int)
  | cleanup (key : String) (cutoff : Int)
deriving DecidableEq, Repr

/-- A request at a limiter: its options, its key, its clock reading, and the statement at which D1 fails. -/
structure RateCall where
  max : Nat
  windowMs : Int
  key : String
  now : Int
  failsAt : Option RateStmt
deriving DecidableEq, Repr

/-- What the middleware answers with, beside `X-RateLimit-Limit`. -/
structure RateAnswer where
  remaining : Nat
  limited : Bool
deriving DecidableEq, Repr

def cutoff (c : RateCall) : Int := c.now - c.windowMs

/-- `INSERT OR IGNORE`. -/
def insertOrIgnore (t : RateLimits) (key : String) (timestamp : Int) : RateLimits :=
  (t.insert (key, timestamp) ()).getD t

def counted (t : RateLimits) (key : String) (cutoff : Int) : Nat :=
  (t.select fun k _ => k.1 = key && cutoff < k.2).length

def cleanedUp (t : RateLimits) (key : String) (cutoff : Int) : RateLimits :=
  t.deleteWhere fun k _ => k.1 = key && k.2 ≤ cutoff

def d1 {α : Type} (c : RateCall) (q : RateStmt) (l : RateAccess) (g : RateLimits → RateLimits × α) :
    TryProg RateLimits RateAccess Unit α :=
  if c.failsAt = some q then TryProg.throw ()
  else Prog.access fun t => ((l, (g t).1), .ok (g t).2)

def countRequest (c : RateCall) : TryProg RateLimits RateAccess Unit Nat := do
  d1 c .insert (.insert c.key c.now) fun t => (insertOrIgnore t c.key c.now, ())
  let count ← d1 c .count (.count c.key (cutoff c)) fun t => (t, counted t c.key (cutoff c))
  d1 c .cleanup (.cleanup c.key (cutoff c)) fun t => (cleanedUp t c.key (cutoff c), ())
  pure count

/-- Fails open. -/
def increment (c : RateCall) : Prog RateLimits RateAccess Nat :=
  Prog.bind (countRequest c) fun
    | .ok count => Prog.ret count
    | .error _ => Prog.ret 0

def answer (c : RateCall) (count : Nat) : RateAnswer := ⟨c.max - count, c.max < count⟩

def rateLimit (c : RateCall) : Prog RateLimits RateAccess RateAnswer := do
  let count ← increment c
  pure (answer c count)

/-! ## The steps of a request -/

abbrev RateStep := Step RateLimits RateAccess
abbrev RateHistory := History RateCall RateLimits RateAccess
abbrev RateProcs := List (Proc RateCall RateLimits RateAccess RateAnswer)

inductive RateEffect (c : RateCall) : RateStep → Prop
  | insert {t : RateLimits} : RateEffect c ⟨.insert c.key c.now, t, insertOrIgnore t c.key c.now⟩
  | count {t : RateLimits} : RateEffect c ⟨.count c.key (cutoff c), t, t⟩
  | cleanup {t : RateLimits} : RateEffect c ⟨.cleanup c.key (cutoff c), t, cleanedUp t c.key (cutoff c)⟩

def Answered (c : RateCall) (tr : List RateStep) (a : RateAnswer) : Prop :=
  ∃ x₁ x₂ x₃, tr = [x₁, x₂, x₃] ∧ x₁.label = .insert c.key c.now ∧ x₂.label = .count c.key (cutoff c) ∧
    a = answer c (counted x₂.before c.key (cutoff c))

theorem rateLimit_sat {c : RateCall} (h : c.failsAt = none) :
    Sat (fun _ e => RateEffect c e) (Answered c) (rateLimit c) [] := by
  have hcode : rateLimit c =
      Prog.act (fun t => (.insert c.key c.now, insertOrIgnore t c.key c.now)) fun _ =>
        Prog.act (fun t => (.count c.key (cutoff c), t)) fun t =>
          Prog.act (fun t => (.cleanup c.key (cutoff c), cleanedUp t c.key (cutoff c))) fun _ =>
            Prog.ret (answer c (counted t c.key (cutoff c))) := by
    unfold rateLimit increment countRequest d1
    rw [h]
    rfl
  rw [hcode]
  exact fun t₁ => ⟨.insert, fun t₂ => ⟨.count, fun t₃ => ⟨.cleanup, _, _, _, rfl, rfl, rfl, rfl⟩⟩⟩

theorem insertOrIgnore_contains {t : RateLimits} {key : String} {timestamp : Int} :
    (insertOrIgnore t key timestamp).contains (key, timestamp) = true := by
  unfold insertOrIgnore
  cases hinsert : t.insert (key, timestamp) () with
  | some t' => exact Table.contains_eq_true.mpr ⟨(), by simp [Table.get?_insert hinsert]⟩
  | none => exact Table.insert_eq_none.mp hinsert

/-! ## Readings that stay -/

/-- The step inserts a reading that is not stored yet, or counts when no reading that it would count has been deleted. -/
def Orderly (key : String) (h : RateHistory) (e : RateStep) : Prop :=
  match e.label with
  | .insert k timestamp => k = key → e.before.contains (key, timestamp) = false
  | .count k cutoff => k = key → ∀ h₁ i c d h₂ timestamp, h = h₁ ++ .step i c d :: h₂ → d.label = .insert key timestamp →
      cutoff < timestamp → ∀ j c' d', .step j c' d' ∈ h₂ → d'.after.contains (key, timestamp) = true
  | .cleanup .. => True

section
variable {s₀ s : RateLimits} {h : RateHistory} {ps : RateProcs} {key : String}

theorem storeAfter_holds {P : RateLimits → Prop} {i : Nat} {c : RateCall} {e : RateStep} {h₁ h₂ : RateHistory}
    (he : P e.after) (hall : ∀ j c' d, .step j c' d ∈ h₂ → P d.after) : P (storeAfter s₀ (h₁ ++ .step i c e :: h₂)) := by
  rw [storeAfter_append, storeAfter_step]
  induction h₂ using List.reverseRecOn with
  | nil => exact he
  | append_singleton h₂ v ih =>
    have hrest := ih fun j c' d hd => hall j c' d (List.mem_append_left _ hd)
    cases v with
    | issue j c' =>
      rw [storeAfter_append]
      exact hrest
    | step j c' d =>
      rw [storeAfter_snoc]
      exact hall j c' d (by simp)

variable (hr : Reach rateLimit (fun c => c.failsAt = none) s₀ h s ps)
include hr

theorem reach_effect {h₁ h₂ : RateHistory} {i : Nat} {c : RateCall} {e : RateStep} (hh : h = h₁ ++ .step i c e :: h₂) :
    e.before = storeAfter s₀ h₁ ∧ RateEffect c e := by
  subst hh
  obtain ⟨-, hbefore, heffect⟩ := reach_step (fun c hc => rateLimit_sat hc) hr
  exact ⟨hbefore, heffect⟩

/-- A reading that was inserted is stored when an orderly count comes. -/
theorem stored_at_count {pre h₁ h₂ post : RateHistory} {i j : Nat} {c c' : RateCall} {d e : RateStep} {cut timestamp : Int}
    (hh : h = pre ++ .step i c e :: post) (hpre : pre = h₁ ++ .step j c' d :: h₂) (he : e.label = .count key cut)
    (hd : d.label = .insert key timestamp) (hlt : cut < timestamp) (horderly : Orderly key pre e) :
    d.after.contains (key, timestamp) = true ∧ ∀ k c'' d', .step k c'' d' ∈ h₂ → d'.after.contains (key, timestamp) = true := by
  constructor
  · have hsplit : h = h₁ ++ .step j c' d :: (h₂ ++ .step i c e :: post) := by
      rw [hh, hpre, List.append_assoc, List.cons_append]
    cases (reach_effect hr hsplit).2 with
    | insert =>
      cases hd
      exact insertOrIgnore_contains
    | count | cleanup => cases hd
  · unfold Orderly at horderly
    rw [he] at horderly
    exact horderly rfl h₁ j c' d h₂ timestamp hpre hd hlt

/-- Before an orderly count no reading that it counts was inserted twice. -/
theorem not_inserted_twice {pre h₁ h₂ h₃ post : RateHistory} {i j k : Nat} {c c' c'' : RateCall} {d d' e : RateStep}
    {cut timestamp : Int} (hh : h = pre ++ .step i c e :: post)
    (hpre : pre = h₁ ++ .step j c' d :: (h₂ ++ .step k c'' d' :: h₃)) (he : e.label = .count key cut)
    (hd : d.label = .insert key timestamp) (hd' : d'.label = .insert key timestamp) (hlt : cut < timestamp)
    (horderly : ∀ h₁ i c e h₂, h = h₁ ++ .step i c e :: h₂ → Orderly key h₁ e) : False := by
  obtain ⟨hafter, hall⟩ := stored_at_count hr hh hpre he hd hlt (horderly _ _ _ _ _ hh)
  have hsplit : h = (h₁ ++ .step j c' d :: h₂) ++ .step k c'' d' :: (h₃ ++ .step i c e :: post) := by
    rw [hh, hpre]
    simp
  have hfresh := horderly _ _ _ _ _ hsplit
  unfold Orderly at hfresh
  rw [hd', (reach_effect hr hsplit).1] at hfresh
  have hstored : (storeAfter s₀ (h₁ ++ .step j c' d :: h₂)).contains (key, timestamp) = true :=
    storeAfter_holds (P := fun t => t.contains (key, timestamp) = true) hafter
      fun l c₁ d₁ hm => hall l c₁ d₁ (List.mem_append_left _ hm)
  exact absurd ((hfresh rfl).symm.trans hstored) Bool.false_ne_true

end

/-! ## Admissions -/

/-- The process is an admitted request for the key, of a limiter that lets at most `max` requests in a window of at least
`windowMs`, and it read its clock in the window that ends at `last`. -/
def AdmittedIn (key : String) (max : Nat) (windowMs last : Int)
    (p : Proc RateCall RateLimits RateAccess RateAnswer) : Prop :=
  p.call.key = key ∧ p.call.max ≤ max ∧ windowMs ≤ p.call.windowMs ∧ last - windowMs < p.call.now ∧ p.call.now ≤ last ∧
    ∃ a, p.prog = .ret a ∧ a.limited = false

/-- `pre` ends where the admitted request counts; its reading is `now`. -/
def CountsAfter (h : RateHistory) (key : String) (max : Nat) (windowMs last : Int) (i : Nat) (pre : RateHistory)
    (now : Int) : Prop :=
  ∃ c e post, h = pre ++ .step i c e :: post ∧ e.label = .count key (cutoff c) ∧ c.max ≤ max ∧ cutoff c ≤ last - windowMs ∧
    last - windowMs < now ∧ counted e.before key (cutoff c) ≤ c.max ∧
    ∃ c' d, .step i c' d ∈ pre ∧ d.label = .insert key now

section
variable {s₀ s : RateLimits} {h : RateHistory} {ps : RateProcs} {key : String} {max : Nat} {windowMs last : Int}
  (hr : Reach rateLimit (fun c => c.failsAt = none) s₀ h s ps)
include hr

theorem admitted_counts {i : Nat} {p : Proc RateCall RateLimits RateAccess RateAnswer} (hp : ps[i]? = some p)
    (hadmitted : AdmittedIn key max windowMs last p) : ∃ pre now, CountsAfter h key max windowMs last i pre now := by
  obtain ⟨c, prog⟩ := p
  obtain ⟨rfl, hmax, hwindow, hfirst, hlast, a, rfl, hfree⟩ := hadmitted
  obtain ⟨x₁, x₂, x₃, hown, hinsert, hcount, rfl⟩ := reach_result (fun c hc => rateLimit_sat hc) hr hp
  obtain ⟨pre, c', post, hh, hpre⟩ := own_split (show own i h = [x₁] ++ x₂ :: [x₃] from hown)
  obtain ⟨q, hq, hcall⟩ := reach_call hr (.step i c' x₂) (by rw [hh]; simp)
  have hc : c' = c := by
    rw [show Event.pid (.step i c' x₂) = i from rfl, hp] at hq
    cases hq
    exact hcall.symm
  subst hc
  obtain ⟨c₁, hm⟩ := mem_own.mp (hpre ▸ List.mem_singleton_self x₁ : x₁ ∈ own i pre)
  refine ⟨pre, c'.now, c', x₂, post, hh, hcount, hmax, ?_, hfirst, ?_, c₁, x₁, hm, hinsert⟩
  · have hcut : cutoff c' = c'.now - c'.windowMs := rfl
    dsimp only at hwindow hlast
    omega
  · exact Nat.not_lt.mp (of_decide_eq_false hfree)

/-- Of the requests whose clocks are read within one window, a limiter admits no more than it says, in every run whose
steps are orderly for the key. -/
theorem admissions_bounded (horderly : ∀ h₁ i c e h₂, h = h₁ ++ .step i c e :: h₂ → Orderly key h₁ e) {pids : Finset Nat}
    (hpids : ∀ i ∈ pids, ∃ p, ps[i]? = some p ∧ AdmittedIn key max windowMs last p) : pids.card ≤ max := by
  have hcounts : ∀ i ∈ pids, ∃ pre now, CountsAfter h key max windowMs last i pre now := by
    intro i hi
    obtain ⟨p, hp, hadmitted⟩ := hpids i hi
    exact admitted_counts hr hp hadmitted
  choose! pre now hcounts using hcounts
  rcases pids.eq_empty_or_nonempty with rfl | hne
  · exact Nat.zero_le _
  -- The request that counts last sees the readings of all.
  obtain ⟨r, hrp, hlongest⟩ := Finset.exists_max_image pids (fun i => (pre i).length) hne
  obtain ⟨c, e, post, hh, hlabel, hmax, hcut, -, hcount, -⟩ := hcounts r hrp
  have hinserted : ∀ i ∈ pids, ∃ h₁ c' d h₂, pre r = h₁ ++ .step i c' d :: h₂ ∧ d.label = .insert key (now i) ∧
      cutoff c < now i := by
    intro i hi
    obtain ⟨ci, ei, posti, hhi, -, -, -, hnow, -, c', d, hd, hdl⟩ := hcounts i hi
    have hpre : pre i <+: pre r :=
      List.prefix_of_prefix_length_le ⟨_, hhi.symm⟩ ⟨_, hh.symm⟩ (hlongest i hi)
    obtain ⟨h₁, h₂, hsplit⟩ := List.append_of_mem (hpre.subset hd)
    exact ⟨h₁, c', d, h₂, hsplit, hdl, by omega⟩
  have hinj : Set.InjOn (fun i => (key, now i)) pids := by
    intro i hi j hj hsame
    obtain ⟨a, ci, di, b, hpi, hdi, hlt⟩ := hinserted i hi
    obtain ⟨a', cj, dj, b', hpj, hdj, -⟩ := hinserted j hj
    have hnow : now i = now j := congrArg Prod.snd hsame
    rw [← hnow] at hdj
    by_contra hij
    have hmem : .step j cj dj ∈ a ++ .step i ci di :: b := hpi ▸ hpj ▸ List.mem_append_right _ List.mem_cons_self
    rcases List.mem_append.mp hmem with hbefore | hafter
    · obtain ⟨a₁, a₂, rfl⟩ := List.append_of_mem hbefore
      have hsplit : pre r = a₁ ++ .step j cj dj :: (a₂ ++ .step i ci di :: b) := by
        rw [hpi, List.append_assoc, List.cons_append]
      exact not_inserted_twice hr hh hsplit hlabel hdj hdi hlt horderly
    · rcases List.mem_cons.mp hafter with heq | hafter
      · exact hij (by cases heq; rfl)
      · obtain ⟨b₁, b₂, rfl⟩ := List.append_of_mem hafter
        exact not_inserted_twice hr hh hpi hlabel hdi hdj hlt horderly
  have hrows : ∀ i ∈ pids, (key, now i) ∈ ((e.before.select fun k _ => k.1 = key && cutoff c < k.2).map Prod.fst).toFinset := by
    intro i hi
    obtain ⟨a, ci, di, b, hpi, hdi, hlt⟩ := hinserted i hi
    obtain ⟨hafter, hall⟩ := stored_at_count hr hh hpi hlabel hdi hlt (horderly _ _ _ _ _ hh)
    have hstored : (storeAfter s₀ (a ++ .step i ci di :: b)).contains (key, now i) = true :=
      storeAfter_holds (P := fun t => t.contains (key, now i) = true) hafter hall
    rw [← hpi, ← (reach_effect hr hh).1] at hstored
    obtain ⟨v, hv⟩ := Table.contains_eq_true.mp hstored
    exact List.mem_toFinset.mpr (List.mem_map.mpr ⟨_, Table.mem_select.mpr ⟨hv, by simp [hlt]⟩, rfl⟩)
  calc pids.card
      ≤ ((e.before.select fun k _ => k.1 = key && cutoff c < k.2).map Prod.fst).toFinset.card :=
        Finset.card_le_card_of_injOn _ hrows hinj
    _ ≤ ((e.before.select fun k _ => k.1 = key && cutoff c < k.2).map Prod.fst).length := List.toFinset_card_le _
    _ = counted e.before key (cutoff c) := List.length_map _
    _ ≤ max := Nat.le_trans hcount hmax

end

/-! ## Runs -/

def keeps : Event RateCall RateLimits RateAccess → Bool
  | .issue .. => true
  | .step _ _ e => (e.before.rows.all fun r => e.after.contains r.1) &&
    match e.label with
    | .insert key timestamp => !e.before.contains (key, timestamp)
    | _ => true

section
variable {s₀ s : RateLimits} {h : RateHistory} {ps : RateProcs}

theorem orderly_of_keeps (hr : Reach rateLimit (fun c => c.failsAt = none) s₀ h s ps) (hkeeps : h.all keeps = true)
    {key : String} : ∀ h₁ i c e h₂, h = h₁ ++ .step i c e :: h₂ → Orderly key h₁ e := by
  have hstep : ∀ a i c e b, h = a ++ .step i c e :: b → (∀ k, (storeAfter s₀ a).contains k = true → e.after.contains k = true) ∧
      (∀ key timestamp, e.label = .insert key timestamp → e.before.contains (key, timestamp) = false) := by
    intro a i c e b hh
    have hall := List.all_eq_true.mp hkeeps (.step i c e) (by rw [hh]; simp)
    unfold keeps at hall
    obtain ⟨hrows, hlabel⟩ := Bool.and_eq_true_iff.mp hall
    constructor
    · intro k hk
      rw [← (reach_effect hr hh).1] at hk
      obtain ⟨v, hv⟩ := Table.contains_eq_true.mp hk
      exact List.all_eq_true.mp hrows _ (Table.mem_rows.mpr hv)
    · intro key timestamp hl
      rw [hl] at hlabel
      exact Bool.not_eq_true' _ |>.mp hlabel
  intro h₁ i c e h₂ hh
  unfold Orderly
  split
  · rename_i k timestamp hl
    rintro rfl
    exact (hstep h₁ i c e h₂ hh).2 k timestamp hl
  · rename_i k cut hl
    rintro rfl a j c' d b timestamp hsplit hd - j' c'' d' hd'
    -- What was inserted is stored from then on.
    have hstored : ∀ b₁ b₂, b = b₁ ++ b₂ → (storeAfter s₀ (a ++ .step j c' d :: b₁)).contains (k, timestamp) = true := by
      intro b₁
      induction b₁ using List.reverseRecOn with
      | nil =>
        intro b₂ _
        have hdh : h = a ++ .step j c' d :: (b ++ .step i c e :: h₂) := by rw [hh, hsplit, List.append_assoc, List.cons_append]
        rw [storeAfter_append, storeAfter_step]
        cases (reach_effect hr hdh).2 with
        | insert =>
          cases hd
          exact insertOrIgnore_contains
        | count | cleanup => cases hd
      | append_singleton b₁ v ih =>
        intro b₂ hb
        have hprev := ih (v :: b₂) (by rw [hb, List.append_assoc]; rfl)
        cases v with
        | issue l c₁ =>
          rw [← List.cons_append, ← List.append_assoc, storeAfter_append]
          exact hprev
        | step l c₁ d₁ =>
          have hdh : h = (a ++ .step j c' d :: b₁) ++ .step l c₁ d₁ :: (b₂ ++ .step i c e :: h₂) := by
            rw [hh, hsplit, hb]
            simp
          rw [← List.cons_append, ← List.append_assoc, storeAfter_snoc]
          exact (hstep _ _ _ _ _ hdh).1 _ hprev
    obtain ⟨b₁, b₂, rfl⟩ := List.append_of_mem hd'
    have hlast := hstored (b₁ ++ [.step j' c'' d']) b₂ (by simp)
    rwa [← List.cons_append, ← List.append_assoc, storeAfter_snoc] at hlast
  · exact trivial

end

def guesses (max : Nat) (nows : List Int) : Play RateCall RateLimits RateAccess RateAnswer :=
  play rateLimit ∅ (nows.map (fun now => .issue ⟨max, 60000, "10.0.0.1", now, none⟩) ++
    (List.range nows.length).flatMap fun i => List.replicate 3 (.step i))

theorem guesses_reach (max : Nat) (nows : List Int) : Reach rateLimit (fun c => c.failsAt = none) ∅ (guesses max nows).1
    (guesses max nows).2.1 (guesses max nows).2.2 := by
  unfold guesses
  refine play_reach fun c hc => ?_
  simp only [List.mem_append, List.mem_map, Move.issue.injEq, List.mem_flatMap, List.mem_replicate, reduceCtorEq, and_false,
    exists_false, or_false] at hc
  obtain ⟨now, -, rfl⟩ := hc
  rfl

/-- `AdmittedIn`, as a test. -/
def admittedIn (key : String) (max : Nat) (windowMs last : Int) (p : Proc RateCall RateLimits RateAccess RateAnswer) :
    Bool :=
  p.call.key = key && p.call.max ≤ max && windowMs ≤ p.call.windowMs && last - windowMs < p.call.now &&
    p.call.now ≤ last &&
    match p.prog with
    | .ret a => !a.limited
    | .act .. => false

theorem admittedIn_of {key : String} {max : Nat} {windowMs last : Int} {ps : RateProcs} {pids : List Nat}
    (h : pids.all (fun i => ps[i]?.any (admittedIn key max windowMs last)) = true) :
    ∀ i ∈ pids.toFinset, ∃ p, ps[i]? = some p ∧ AdmittedIn key max windowMs last p := by
  intro i hi
  have hany := List.all_eq_true.mp h i (List.mem_toFinset.mp hi)
  cases hp : ps[i]? with
  | none =>
    rw [hp] at hany
    exact nomatch hany
  | some p =>
    rw [hp, Option.any_some] at hany
    unfold admittedIn at hany
    simp only [Bool.and_eq_true, decide_eq_true_eq] at hany
    obtain ⟨⟨⟨⟨⟨hkey, hmax⟩, hwindow⟩, hfirst⟩, hlast⟩, hfree⟩ := hany
    refine ⟨p, rfl, hkey, hmax, hwindow, hfirst, hlast, ?_⟩
    split at hfree
    · rename_i a ha
      exact ⟨a, ha, Bool.not_eq_true' _ |>.mp hfree⟩
    · exact nomatch hfree

/-- `admissions_bounded` where two of three requests are let through. -/
theorem admissions_bounded_guesses : [0, 1].toFinset.card ≤ 2 ∧
    ((guesses 2 [1000, 1001, 1002]).2.2[2]?.any (admittedIn "10.0.0.1" 2 60000 1002)) = false := by
  have hran : (guesses 2 [1000, 1001, 1002]).1.all keeps = true ∧
      [0, 1].all (fun i => (guesses 2 [1000, 1001, 1002]).2.2[i]?.any (admittedIn "10.0.0.1" 2 60000 1002)) = true := by
    decide +kernel
  have hreach := guesses_reach 2 [1000, 1001, 1002]
  exact ⟨admissions_bounded hreach (orderly_of_keeps hreach hran.1) (admittedIn_of hran.2), by decide +kernel⟩

/-- Two requests of one millisecond leave one row: both are let through where one may be. -/
theorem burst_admitted : ¬ ∀ h s ps, Reach rateLimit (fun c => c.failsAt = none) ∅ h s ps →
    ∀ key max windowMs last (pids : Finset Nat),
      (∀ i ∈ pids, ∃ p, ps[i]? = some p ∧ AdmittedIn key max windowMs last p) → pids.card ≤ max := by
  intro hall
  have hran : [0, 1].all (fun i => (guesses 1 [1000, 1000]).2.2[i]?.any (admittedIn "10.0.0.1" 1 60000 1000)) = true := by
    decide +kernel
  exact absurd (hall _ _ _ (guesses_reach 1 [1000, 1000]) _ _ _ _ _ (admittedIn_of hran)) (by decide)

end ZeroVault.RateLimit

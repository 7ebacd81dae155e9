import ZeroVault.Table

/-!
# A lazy pipeline that can fail

`takeMapped` maps the elements of a list with a stage that can fail, keeps the
values and stops after a number of them: an element behind the last one kept is
never looked at. Its values are those that a specification gives exactly if no
element that is looked at is spoiled (`takeMapped_iff`).
-/

namespace Lib

section
variable {ρ γ ε ι : Type} (stage : ρ → Except ε (Option γ)) (spec : ρ → Option γ)

/-- `mapNotNull(stage).take(n).toList()` of a sequence. -/
def takeMapped : Nat → List ρ → Except ε (List γ)
  | 0, _ => .ok []
  | _ + 1, [] => .ok []
  | n + 1, r :: rs =>
    match stage r with
    | .error e => .error e
    | .ok none => takeMapped (n + 1) rs
    | .ok (some c) => (takeMapped n rs).map (c :: ·)

/-- The elements in front of the `n`-th value. -/
def Reached (n : Nat) (rs : List ρ) (r : ρ) : Prop :=
  ∃ before after, rs = before ++ r :: after ∧ (before.filterMap spec).length < n

variable {stage spec}

theorem takeMapped_filter (p : ρ → Bool) : ∀ (n : Nat) (rs : List ρ),
    takeMapped stage n (rs.filter p) = takeMapped (fun r => if p r then stage r else .ok none) n rs
  | 0, _ => by
    unfold takeMapped
    rfl
  | _ + 1, [] => rfl
  | n + 1, r :: rs => by
    rw [List.filter_cons]
    cases hp : p r with
    | false =>
      simp only [takeMapped, hp, Bool.false_eq_true, if_false]
      exact takeMapped_filter p (n + 1) rs
    | true =>
      simp only [takeMapped, hp, if_true]
      rw [takeMapped_filter p (n + 1) rs, takeMapped_filter p n rs]

theorem reached_head {n : Nat} {r : ρ} {rs : List ρ} : Reached spec (n + 1) (r :: rs) r :=
  ⟨[], rs, rfl, Nat.succ_pos n⟩

theorem reached_cons_none {n : Nat} {r r' : ρ} {rs : List ρ} (hr : spec r = none) :
    Reached spec (n + 1) (r :: rs) r' ↔ r' = r ∨ Reached spec (n + 1) rs r' := by
  constructor
  · rintro ⟨before, after, heq, hlt⟩
    cases before with
    | nil =>
      cases heq
      exact .inl rfl
    | cons b before =>
      cases heq
      rw [List.filterMap_cons_none hr] at hlt
      exact .inr ⟨before, after, rfl, hlt⟩
  · rintro (rfl | ⟨before, after, rfl, hlt⟩)
    · exact reached_head
    · exact ⟨r :: before, after, rfl, by rwa [List.filterMap_cons_none hr]⟩

theorem reached_cons_some {n : Nat} {r r' : ρ} {c : γ} {rs : List ρ} (hr : spec r = some c) :
    Reached spec (n + 1) (r :: rs) r' ↔ r' = r ∨ Reached spec n rs r' := by
  constructor
  · rintro ⟨before, after, heq, hlt⟩
    cases before with
    | nil =>
      cases heq
      exact .inl rfl
    | cons b before =>
      cases heq
      rw [List.filterMap_cons_some hr, List.length_cons] at hlt
      exact .inr ⟨before, after, rfl, Nat.lt_of_succ_lt_succ hlt⟩
  · rintro (rfl | ⟨before, after, rfl, hlt⟩)
    · exact reached_head
    · refine ⟨r :: before, after, rfl, ?_⟩
      rw [List.filterMap_cons_some hr, List.length_cons]
      exact Nat.succ_lt_succ hlt

theorem not_reached_zero {r : ρ} {rs : List ρ} : ¬ Reached spec 0 rs r := fun ⟨_, _, _, hlt⟩ => Nat.not_lt_zero _ hlt

theorem not_reached_nil {n : Nat} {r : ρ} : ¬ Reached spec n [] r := fun ⟨before, _, heq, _⟩ => by
  cases before <;> cases heq

theorem map_cons_ok {x : Except ε (List γ)} {c c' : γ} {cs : List γ} (h : x.map (c :: ·) = .ok (c' :: cs)) :
    c = c' ∧ x = .ok cs := by
  cases x with
  | error e => cases h
  | ok rest =>
    obtain ⟨rfl, rfl⟩ := List.cons.inj (Except.ok.inj h)
    exact ⟨rfl, rfl⟩

theorem takeMapped_mem : ∀ {n : Nat} {rs : List ρ} {cs : List γ}, takeMapped stage n rs = .ok cs →
    ∀ c ∈ cs, ∃ r ∈ rs, stage r = .ok (some c)
  | 0, _, _, h => by
    unfold takeMapped at h
    cases h
    exact fun c hc => absurd hc List.not_mem_nil
  | _ + 1, [], _, h => by
    cases h
    exact fun c hc => absurd hc List.not_mem_nil
  | n + 1, r :: rs, cs, h => by
    intro c hc
    unfold takeMapped at h
    split at h
    · cases h
    · obtain ⟨r', hr', hstage⟩ := takeMapped_mem h c hc
      exact ⟨r', List.mem_cons_of_mem _ hr', hstage⟩
    · rename_i c' hstage
      cases hrest : takeMapped stage n rs with
      | error e =>
        rw [hrest] at h
        cases h
      | ok rest =>
        rw [hrest] at h
        cases h
        rcases List.mem_cons.mp hc with rfl | hc
        · exact ⟨r, List.mem_cons_self, hstage⟩
        · obtain ⟨r', hr', hstage'⟩ := takeMapped_mem hrest c hc
          exact ⟨r', List.mem_cons_of_mem _ hr', hstage'⟩

theorem takeMapped_eq : ∀ {n : Nat} {rs : List ρ}, (∀ r, Reached spec n rs r → stage r = .ok (spec r)) →
    takeMapped stage n rs = .ok ((rs.filterMap spec).take n)
  | 0, _, _ => by
    unfold takeMapped
    rw [List.take_zero]
  | _ + 1, [], _ => rfl
  | n + 1, r :: rs, h => by
    have hstage := h r reached_head
    unfold takeMapped
    rw [hstage]
    cases hspec : spec r with
    | none =>
      rw [List.filterMap_cons_none hspec]
      exact takeMapped_eq fun r' hr' => h r' ((reached_cons_none hspec).mpr (.inr hr'))
    | some c =>
      have hrest : takeMapped stage n rs = .ok ((rs.filterMap spec).take n) :=
        takeMapped_eq fun r' hr' => h r' ((reached_cons_some hspec).mpr (.inr hr'))
      rw [List.filterMap_cons_some hspec, List.take_succ_cons]
      dsimp only
      rw [hrest]
      rfl

/-- Elements and values are named, no two elements alike, and the stage drops or
fails where it does not give the value of the specification. -/
theorem takeMapped_iff (key : ρ → ι) (name : γ → ι) (hstage : ∀ r c, stage r = .ok (some c) → name c = key r)
    (hspec : ∀ r c, spec r = some c → name c = key r)
    (hdrops : ∀ r c, spec r = none → stage r ≠ .ok (some c)) : ∀ {n : Nat} {rs : List ρ}, (rs.map key).Nodup →
    (takeMapped stage n rs = .ok ((rs.filterMap spec).take n) ↔ ∀ r, Reached spec n rs r → stage r = .ok (spec r)) := by
  intro n rs hn
  refine ⟨fun h => ?_, takeMapped_eq⟩
  -- by the first row, which counts only if the stage keeps it
  induction rs generalizing n with
  | nil => exact fun r hr => absurd hr not_reached_nil
  | cons r rs ih =>
    cases n with
    | zero => exact fun r hr => absurd hr not_reached_zero
    | succ n =>
      obtain ⟨hfresh, hn⟩ := List.nodup_cons.mp hn
      unfold takeMapped at h
      cases hs : spec r with
      | none =>
        rw [List.filterMap_cons_none hs] at h
        have hok : stage r = .ok none := by
          split at h
          · cases h
          · assumption
          · rename_i c hc
            exact absurd hc (hdrops r c hs)
        rw [hok] at h
        intro r' hr'
        rcases (reached_cons_none hs).mp hr' with rfl | hr'
        · rw [hok, hs]
        · exact ih hn h r' hr'
      | some c =>
        rw [List.filterMap_cons_some hs, List.take_succ_cons] at h
        have hok : stage r = .ok (some c) := by
          split at h
          · cases h
          · -- a dropped value does not come from the rest
            obtain ⟨r', hr', hc⟩ := takeMapped_mem h c List.mem_cons_self
            have hmem : key r' ∈ rs.map key := List.mem_map_of_mem hr'
            rw [← hstage r' c hc, hspec r c hs] at hmem
            exact absurd hmem hfresh
          · rename_i c' hc
            rw [(map_cons_ok h).1] at hc
            exact hc
        rw [hok] at h
        have hrest := (map_cons_ok h).2
        intro r' hr'
        rcases (reached_cons_some hs).mp hr' with rfl | hr'
        · rw [hok, hs]
        · exact ih hn hrest r' hr'

end

end Lib

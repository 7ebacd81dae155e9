import ZeroVault.Table

/-!
# One representative for each key

A pass over a list that keeps, of the elements with one key, the first that no
later one beats. Every element is represented by one of at least its rank.
-/

namespace Lib

section
variable {κ α : Type} [DecidableEq κ] (key : α → κ) (beats : α → α → Bool)

def represent (t : Table κ α) (a : α) : Table κ α :=
  match t.get? (key a) with
  | none => t.set (key a) a
  | some b => if beats a b then t.set (key a) a else t

/-- The entries are elements that were seen, under their own keys, and no element seen ranks before its entry. -/
structure Represented (rank : α → Nat) (seen : α → Prop) (t : Table κ α) : Prop where
  mem : ∀ k a, t.get? k = some a → seen a ∧ key a = k
  best : ∀ a, seen a → ∃ b, t.get? (key a) = some b ∧ rank b ≤ rank a

variable {key beats} {rank : α → Nat} (hbeats : ∀ a b, beats a b = true → rank a ≤ rank b)
  (hstays : ∀ a b, beats a b = false → rank b ≤ rank a) {seen : α → Prop} {t : Table κ α}

theorem represented_set {a : α} (h : Represented key rank seen t)
    (ha : ∀ b, t.get? (key a) = some b → rank a ≤ rank b) :
    Represented key rank (fun x => x = a ∨ seen x) (t.set (key a) a) where
  mem k b hb := by
    rw [Table.get?_set] at hb
    split at hb
    · rename_i hk
      cases hb
      exact ⟨.inl rfl, hk.symm⟩
    · exact ⟨.inr (h.mem k b hb).1, (h.mem k b hb).2⟩
  best b hb := by
    rw [Table.get?_set]
    by_cases hk : key b = key a
    · rw [if_pos hk]
      refine ⟨a, rfl, ?_⟩
      rcases hb with rfl | hb
      · exact Nat.le_refl _
      · obtain ⟨c, hc, hle⟩ := h.best b hb
        rw [hk] at hc
        exact Nat.le_trans (ha c hc) hle
    · rw [if_neg hk]
      exact h.best b (hb.resolve_left fun he => hk (congrArg key he))

include hbeats hstays in
theorem represented_step {a : α} (h : Represented key rank seen t) :
    Represented key rank (fun x => x = a ∨ seen x) (represent key beats t a) := by
  unfold represent
  cases hget : t.get? (key a) with
  | none => exact represented_set h fun b hb => nomatch hget.symm.trans hb
  | some b =>
    dsimp only
    cases hb : beats a b with
    | true =>
      refine represented_set h fun c hc => ?_
      cases hget.symm.trans hc
      exact hbeats a b hb
    | false =>
      refine ⟨fun k c hc => ⟨.inr (h.mem k c hc).1, (h.mem k c hc).2⟩, fun c hc => ?_⟩
      rcases hc with rfl | hc
      · exact ⟨b, hget, hstays c b hb⟩
      · exact h.best c hc

include hbeats hstays in
theorem represented_foldl : ∀ {l : List α} {t : Table κ α} {seen : α → Prop}, Represented key rank seen t →
    Represented key rank (fun x => x ∈ l ∨ seen x) (l.foldl (represent key beats) t)
  | [], t, seen, h => by simpa using h
  | a :: l, t, seen, h => by
    have hrest := represented_foldl (l := l) (represented_step hbeats hstays (a := a) h)
    rw [List.foldl_cons]
    refine ⟨fun k b hb => ?_, fun b hb => hrest.best b ?_⟩
    · obtain ⟨hseen, hkey⟩ := hrest.mem k b hb
      refine ⟨?_, hkey⟩
      rcases hseen with hl | rfl | hs
      · exact .inl (List.mem_cons_of_mem _ hl)
      · exact .inl List.mem_cons_self
      · exact .inr hs
    · rcases hb with hl | hs
      · rcases List.mem_cons.mp hl with rfl | hl
        · exact .inr (.inl rfl)
        · exact .inl hl
      · exact .inr (.inr hs)

include hbeats hstays in
theorem represented_list (l : List α) : Represented key rank (· ∈ l) (l.foldl (represent key beats) ∅) := by
  have hempty : Represented key rank (fun _ => False) (∅ : Table κ α) := ⟨fun _ _ h => (nomatch h), fun _ h => h.elim⟩
  simpa using represented_foldl hbeats hstays (l := l) hempty

end

end Lib

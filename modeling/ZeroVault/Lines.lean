import Mathlib.Algebra.GroupWithZero.Nat
import Mathlib.Data.List.Basic
import Mathlib.Tactic.Common

/-!
# The lines of a text

A text is cut at its line feeds, and a carriage return right before one goes with
it. Joined lines are found again when none of them has a line feed; the number of
lines with a given kind of character only grows when one has.
-/

namespace Lib.Lines

def split : List Char → List (List Char)
  | [] => [[]]
  | c :: cs =>
    if c = '\n' then [] :: split cs
    else if c = '\r' ∧ cs.head? = some '\n' then split cs
    else (split cs).modifyHead (c :: ·)

section
variable {a b text sep line : List Char} {ts : List (List Char)} {c : Char} {p : Char → Bool}

theorem split_cons {cs : List Char} : split (c :: cs) =
    if c = '\n' then [] :: split cs
    else if c = '\r' ∧ cs.head? = some '\n' then split cs
    else (split cs).modifyHead (c :: ·) := rfl

theorem split_ne_nil : ∀ {text : List Char}, split text ≠ []
  | [] => List.cons_ne_nil _ _
  | c :: cs => by
    rw [split_cons]
    split
    · exact List.cons_ne_nil _ _
    · split
      · exact split_ne_nil
      · cases hlines : Lines.split cs with
        | nil => exact absurd hlines split_ne_nil
        | cons line lines => exact List.cons_ne_nil _ _

theorem split_single : ∀ {a : List Char}, '\n' ∉ a → split a = [a]
  | [], _ => rfl
  | c :: a, h => by
    rw [List.mem_cons, not_or] at h
    have hhead : ¬ (c = '\r' ∧ a.head? = some '\n') := fun hc => h.2 (List.mem_of_head? hc.2)
    rw [split_cons, if_neg (Ne.symm h.1), if_neg hhead, split_single h.2]
    rfl

/-- A line feed, or a carriage return and a line feed. -/
def Break (sep : List Char) : Prop := sep = ['\n'] ∨ sep = ['\r', '\n']

theorem split_append (hsep : Break sep) : ∀ {a : List Char}, '\n' ∉ a → a.getLast? ≠ some '\r' →
    split (a ++ (sep ++ b)) = a :: split b
  | [], _, _ => by rcases hsep with rfl | rfl <;> rfl
  | c :: a, h, hlast => by
    rw [List.mem_cons, not_or] at h
    have hhead : ¬ (c = '\r' ∧ (a ++ (sep ++ b)).head? = some '\n') := by
      rintro ⟨rfl, hhead⟩
      cases a with
      | nil => exact hlast rfl
      | cons d a => exact h.2 (List.mem_of_head? (by simpa using hhead))
    have hlast' : a.getLast? ≠ some '\r' := by
      cases a with
      | nil => exact nofun
      | cons d a => rwa [List.getLast?_cons_cons] at hlast
    rw [List.cons_append, split_cons, if_neg (Ne.symm h.1), if_neg hhead, split_append hsep h.2 hlast']
    rfl

theorem split_join (hsep : Break sep) : ∀ {ts : List (List Char)}, ts ≠ [] →
    (∀ t ∈ ts, '\n' ∉ t ∧ t.getLast? ≠ some '\r') → split (List.intercalate sep ts) = ts
  | [], hne, _ => absurd rfl hne
  | [t], _, h => by
    rw [List.intercalate_singleton]
    exact split_single (h t List.mem_cons_self).1
  | t :: t' :: ts, _, h => by
    obtain ⟨ht, hts⟩ := List.forall_mem_cons.mp h
    rw [List.intercalate_cons_cons, List.append_assoc, split_append hsep ht.1 ht.2,
      split_join hsep (List.cons_ne_nil _ _) hts]

/-! ## How many lines -/

/-- The lines before a line feed are those of the text before it, but for a carriage return at the end. -/
theorem split_append_any (hp : p '\r' = false) : ∀ {a : List Char}, ∃ before,
    split (a ++ '\n' :: b) = before ++ split b ∧ before.map (·.any p) = (split a).map (·.any p)
  | [] => ⟨[[]], rfl, rfl⟩
  | c :: a => by
    obtain ⟨before, hsplit, hany⟩ := split_append_any hp (a := a)
    rw [List.cons_append, split_cons, split_cons]
    by_cases hc : c = '\n'
    · rw [if_pos hc, if_pos hc, hsplit]
      exact ⟨[] :: before, rfl, by rw [List.map_cons, List.map_cons, hany]⟩
    · rw [if_neg hc, if_neg hc]
      by_cases hreturn : c = '\r' ∧ a.head? = some '\n'
      · have hhead : (a ++ '\n' :: b).head? = some '\n' := by
          rw [List.head?_append, hreturn.2]
          rfl
        rw [if_pos hreturn, if_pos ⟨hreturn.1, hhead⟩]
        exact ⟨before, hsplit, hany⟩
      · rw [if_neg hreturn]
        cases hlines : split a with
        | nil => exact absurd hlines split_ne_nil
        | cons line lines =>
          rw [hlines] at hany
          cases before with
          | nil => exact nomatch hany
          | cons line' before =>
            rw [List.map_cons, List.map_cons, List.cons_eq_cons] at hany
            by_cases hend : c = '\r' ∧ (a ++ '\n' :: b).head? = some '\n'
            · -- the carriage return stood at the end of the text before
              have hnil : a = [] := by
                cases a with
                | nil => rfl
                | cons d a => exact absurd ⟨hend.1, by simpa using hend.2⟩ hreturn
              subst hnil
              rw [if_pos hend]
              refine ⟨line' :: before, hsplit, ?_⟩
              rw [List.map_cons, List.modifyHead_cons, List.map_cons, hany.1, hany.2, List.any_cons, hend.1, hp, Bool.false_or]
            · rw [if_neg hend, hsplit, List.cons_append, List.modifyHead_cons, List.modifyHead_cons]
              refine ⟨(c :: line') :: before, rfl, ?_⟩
              rw [List.map_cons, List.map_cons, List.any_cons, List.any_cons, hany.1, hany.2]

def count (p : Char → Bool) (text : List Char) : Nat := ((split text).map (·.any p)).count true

theorem count_append (hp : p '\r' = false) : count p (a ++ '\n' :: b) = count p a + count p b := by
  obtain ⟨before, hsplit, hany⟩ := split_append_any (a := a) (b := b) hp
  unfold count
  rw [hsplit, List.map_append, List.count_append, hany]

theorem map_any_return (hp : p '\r' = false) : ∀ {a : List Char},
    (split (a ++ ['\r'])).map (·.any p) = (split a).map (·.any p)
  | [] => by
    rw [List.nil_append, split_single (by decide), split_single List.not_mem_nil]
    simp [hp]
  | c :: a => by
    have ha := map_any_return hp (a := a)
    rw [List.cons_append, split_cons, split_cons]
    have hhead : (c = '\r' ∧ (a ++ ['\r']).head? = some '\n') ↔ (c = '\r' ∧ a.head? = some '\n') := by
      cases a with
      | nil => simp
      | cons d a => rfl
    by_cases hc : c = '\n'
    · rw [if_pos hc, if_pos hc, List.map_cons, List.map_cons, ha]
    · rw [if_neg hc, if_neg hc]
      by_cases hreturn : c = '\r' ∧ a.head? = some '\n'
      · rw [if_pos hreturn, if_pos (hhead.mpr hreturn), ha]
      · rw [if_neg hreturn, if_neg (mt hhead.mp hreturn)]
        cases hlines : split a with
        | nil => exact absurd hlines split_ne_nil
        | cons line lines =>
          cases hlines' : split (a ++ ['\r']) with
          | nil => exact absurd hlines' split_ne_nil
          | cons line' lines' =>
            rw [hlines, hlines', List.map_cons, List.map_cons, List.cons_eq_cons] at ha
            rw [List.modifyHead_cons, List.modifyHead_cons, List.map_cons, List.map_cons, List.any_cons, List.any_cons,
              ha.1, ha.2]

theorem count_return (hp : p '\r' = false) : count p (a ++ ['\r']) = count p a := by
  unfold count
  rw [map_any_return hp]

theorem split_any (hfeed : p '\n' = false) (hreturn : p '\r' = false) : ∀ {text : List Char},
    (split text).any (·.any p) = text.any p
  | [] => rfl
  | c :: cs => by
    rw [split_cons, List.any_cons]
    split
    · rename_i hc
      rw [List.any_cons, split_any hfeed hreturn, hc, hfeed]
      rfl
    · split
      · rename_i hc
        rw [split_any hfeed hreturn, hc.1, hreturn, Bool.false_or]
      · have hcs : (split cs).any (·.any p) = cs.any p := split_any hfeed hreturn
        cases hlines : split cs with
        | nil => exact absurd hlines split_ne_nil
        | cons line lines =>
          rw [hlines, List.any_cons] at hcs
          rw [List.modifyHead_cons, List.any_cons, List.any_cons, Bool.or_assoc, hcs]

theorem count_pos (hfeed : p '\n' = false) (hreturn : p '\r' = false) (h : ∃ c ∈ text, p c = true) : 1 ≤ count p text := by
  have hany := List.any_eq_true.mpr h
  rw [← split_any hfeed hreturn] at hany
  obtain ⟨line, hline, hp⟩ := List.any_eq_true.mp hany
  exact List.count_pos_iff.mpr (List.mem_map.mpr ⟨line, hline, hp⟩)

theorem count_join (hsep : Break sep) (hreturn : p '\r' = false) : ∀ {ts : List (List Char)}, ts ≠ [] →
    count p (List.intercalate sep ts) = (ts.map (count p)).sum
  | [], hne => absurd rfl hne
  | [t], _ => by
    rw [List.intercalate_singleton]
    simp
  | t :: t' :: ts, _ => by
    rw [List.intercalate_cons_cons, List.map_cons, List.sum_cons, ← count_join hsep hreturn (List.cons_ne_nil _ _)]
    rcases hsep with rfl | rfl
    · rw [List.append_assoc]
      exact count_append hreturn
    · rw [← count_return hreturn (a := t), ← count_append hreturn, List.append_assoc, List.append_assoc]
      rfl

end

end Lib.Lines

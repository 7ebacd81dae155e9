import Mathlib.Data.List.Infix
import ZeroVault.Table

/-!
# Texts with quoted parts

`pieces` are what stands between the quotes of a text. Of a key and a value in
quotes, with a colon between them, the search in a text is a search for three
pieces in a row (`pieces_of_member`): where the quotes stand, only the pieces say.
-/

namespace Lib

def pieces (text : List Char) : List (List Char) := text.splitOnP (· == '"')

def quoted (ps : List (List Char)) (text : List Char) : List Char := ps.foldr (fun p rest => p ++ '"' :: rest) text

/-- `"key":"value"`. -/
def member (key value : List Char) : List Char := '"' :: quoted [key, [':'], value] []

section
variable {text before after key value : List Char} {ps : List (List Char)}

theorem quoted_append : quoted ps text ++ after = quoted ps (text ++ after) := by
  induction ps with
  | nil => rfl
  | cons p ps ih =>
    show p ++ '"' :: quoted ps text ++ after = p ++ '"' :: quoted ps (text ++ after)
    rw [← ih, List.append_assoc, List.cons_append]

theorem quoted_quoted (ps qs : List (List Char)) (text : List Char) : quoted (ps ++ qs) text = quoted ps (quoted qs text) :=
  List.foldr_append

theorem member_quoted (ps qs : List (List Char)) (p key value text : List Char) :
    member key value <:+: quoted (ps ++ p :: key :: [':'] :: value :: qs) text := by
  refine ⟨quoted ps p, quoted qs text, ?_⟩
  rw [quoted_append, quoted_quoted, quoted_append]
  simp [member, quoted]

theorem pieces_plain (h : '"' ∉ text) : pieces text = [text] :=
  List.splitOnP_eq_singleton fun _ hc => beq_eq_false_iff_ne.mpr fun he => h (he ▸ hc)

theorem pieces_append (before after : List Char) : pieces (before ++ '"' :: after) = pieces before ++ pieces after :=
  List.splitOnP_append_cons before after rfl

theorem pieces_quoted (h : ∀ p ∈ ps, '"' ∉ p) : pieces (quoted ps text) = ps ++ pieces text := by
  induction ps with
  | nil => rfl
  | cons p ps ih =>
    obtain ⟨hp, hps⟩ := List.forall_mem_cons.mp h
    show pieces (p ++ '"' :: quoted ps text) = _
    rw [pieces_append, pieces_plain hp, ih hps, List.singleton_append, List.cons_append]

theorem pieces_of_member (hkey : '"' ∉ key) (hvalue : '"' ∉ value) (h : member key value <:+: text) :
    [key, [':'], value] <:+: pieces text := by
  obtain ⟨before, after, rfl⟩ := h
  have hplain : ∀ p ∈ [key, [':'], value], '"' ∉ p := by
    simp only [List.forall_mem_cons, List.not_mem_nil, false_implies, implies_true, and_true]
    exact ⟨hkey, by decide, hvalue⟩
  have htext : before ++ member key value ++ after = before ++ '"' :: quoted [key, [':'], value] after := by
    rw [member, List.append_assoc, List.cons_append, quoted_append, List.nil_append]
  rw [htext, pieces_append, pieces_quoted hplain]
  exact ⟨pieces before, pieces after, List.append_assoc ..⟩

/-! ## Three pieces in a row -/

variable {α : Type} {k c q p p' : α} {l : List α}

theorem skip_name (hp : k ≠ p) (h : [k, c, q] <:+: p :: l) : [k, c, q] <:+: l := by
  rcases List.infix_cons_iff.mp h with h | h
  · exact absurd (List.cons_prefix_cons.mp h).1 hp
  · exact h

theorem skip_value (hc : c ≠ p') (h : [k, c, q] <:+: p :: p' :: l) : [k, c, q] <:+: p' :: l := by
  rcases List.infix_cons_iff.mp h with h | h
  · exact absurd (List.cons_prefix_cons.mp (List.cons_prefix_cons.mp h).2).1 hc
  · exact h

theorem at_name (h : [k, c, q] <:+: k :: c :: p :: l) : q = p ∨ [k, c, q] <:+: c :: p :: l := by
  rcases List.infix_cons_iff.mp h with h | h
  · exact .inl (List.cons_prefix_cons.mp (List.cons_prefix_cons.mp (List.cons_prefix_cons.mp h).2).2).1
  · exact .inr h

end

end Lib

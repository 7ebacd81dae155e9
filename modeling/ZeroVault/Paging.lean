import Mathlib.Data.List.Induction
import ZeroVault.Table

/-!
# Pages of a growing log

A log whose keys increase is read page by page, each page from the log of its
own moment. Together the pages hold one window of the log. A compacted page
keeps the last change of each name, which is all that folding it needs.
-/

namespace Lib

/-! ## Windows and pages -/

section
variable {ε : Type} (key : ε → Nat)

def Ordered (log : List ε) : Prop := log.Pairwise fun a b => key a < key b

/-- The entries after cursor `c`, up to `d`. -/
def window (log : List ε) (c d : Nat) : List ε := log.filter fun e => c < key e && key e ≤ d

def page (log : List ε) (c n : Nat) : List ε := (log.filter fun e => c < key e).take n

def pageEnd (c : Nat) (selected : List ε) : Nat := (selected.getLast?.map key).getD c

variable {key} {log log' : List ε} {c d n : Nat}

theorem window_empty (h : d ≤ c) : window key log c d = [] := by
  unfold window
  apply List.filter_eq_nil_iff.mpr
  intro e _ he
  simp only [Bool.and_eq_true, decide_eq_true_eq] at he
  omega

theorem window_append (ho : Ordered key log) {d' : Nat} (h : c ≤ d) (h' : d ≤ d') :
    window key log c d ++ window key log d d' = window key log c d' := by
  unfold window
  induction log with
  | nil => rfl
  | cons e log ih =>
    have he := (List.pairwise_cons.mp ho).1
    have ih := ih (List.pairwise_cons.mp ho).2
    by_cases h1 : c < key e ∧ key e ≤ d
    · have h2 : ¬ d < key e := by omega
      have h3 : key e ≤ d' := by omega
      simp only [List.filter_cons, h1.1, h1.2, h2, h3, decide_true, decide_false, Bool.and_true, if_true,
        Bool.false_eq_true, if_false, List.cons_append, ih]
    · by_cases h2 : d < key e
      · have hnil : (log.filter fun e => c < key e && key e ≤ d) = [] := by
          apply List.filter_eq_nil_iff.mpr
          intro x hx hlt
          have := he x hx
          simp only [Bool.and_eq_true, decide_eq_true_eq] at hlt
          omega
        have h3 : c < key e := by omega
        have h4 : ¬ key e ≤ d := by omega
        rw [hnil, List.nil_append] at ih
        simp only [List.filter_cons, h2, h3, h4, decide_true, decide_false, Bool.true_and, Bool.false_eq_true, if_false,
          hnil, List.nil_append, ih]
      · have h3 : ¬ c < key e := by omega
        simp [h2, h3, ih]

theorem window_all {D : Nat} (h : ∀ e ∈ log, key e ≤ D) : window key log c D = log.filter fun e => c < key e := by
  unfold window
  refine List.filter_congr fun e he => ?_
  rw [decide_eq_true (h e he), Bool.and_true]

theorem exists_keyBound (log : List ε) : ∃ D, ∀ e ∈ log, key e ≤ D := by
  induction log with
  | nil => exact ⟨0, fun e he => absurd he List.not_mem_nil⟩
  | cons e log ih =>
    obtain ⟨D, hD⟩ := ih
    refine ⟨max (key e) D, fun e' he' => ?_⟩
    rcases List.mem_cons.mp he' with rfl | he'
    · exact Nat.le_max_left _ _
    · exact Nat.le_trans (hD e' he') (Nat.le_max_right _ _)

/-- The entries after a cursor are a window and the entries after it. -/
theorem filter_window (ho : Ordered key log) (h : c ≤ d) :
    (log.filter fun e => c < key e) = window key log c d ++ log.filter fun e => d < key e := by
  obtain ⟨D, hD⟩ : ∃ D, ∀ e ∈ log, key e ≤ D := exists_keyBound log
  have hbound : ∀ e ∈ log, key e ≤ max d D := fun e he => Nat.le_trans (hD e he) (Nat.le_max_right _ _)
  rw [← window_all hbound, ← window_all (c := d) hbound, window_append ho h (Nat.le_max_left _ _)]

theorem window_grown (ho : Ordered key log') (hp : log <+: log') (hd : d ≤ c ∨ ∃ e ∈ log, d ≤ key e) :
    window key log' c d = window key log c d := by
  obtain ⟨new, rfl⟩ := hp
  rcases hd with hd | ⟨e, he, hd⟩
  · rw [window_empty hd, window_empty hd]
  · have hnil : window key new c d = [] := by
      unfold window
      apply List.filter_eq_nil_iff.mpr
      intro x hx hlt
      have := (List.pairwise_append.mp ho).2.2 e he x hx
      simp only [Bool.and_eq_true, decide_eq_true_eq] at hlt
      omega
    unfold window at hnil ⊢
    rw [List.filter_append, hnil, List.append_nil]

theorem mem_page {e : ε} (h : e ∈ page key log c n) : e ∈ log ∧ c < key e := by
  have := List.mem_filter.mp (List.mem_of_mem_take h)
  simpa using this

variable (key) in
theorem pageEnd_cases (c : Nat) (selected : List ε) :
    (selected = [] ∧ pageEnd key c selected = c) ∨ ∃ e ∈ selected, pageEnd key c selected = key e := by
  unfold pageEnd
  cases h : selected.getLast? with
  | none => exact .inl ⟨List.getLast?_eq_none_iff.mp h, rfl⟩
  | some e => exact .inr ⟨e, List.mem_of_getLast? h, rfl⟩

theorem le_pageEnd : c ≤ pageEnd key c (page key log c n) := by
  rcases pageEnd_cases key c (page key log c n) with ⟨-, h⟩ | ⟨e, he, h⟩
  · omega
  · have := (mem_page he).2
    omega

theorem page_window (ho : Ordered key log) :
    page key log c n = window key log c (pageEnd key c (page key log c n)) := by
  have hwin : ∀ d, window key log c d = (log.filter fun e => c < key e).filter fun e => key e ≤ d := by
    intro d
    unfold window
    rw [List.filter_filter]
    congr 1
    funext e
    rw [Bool.and_comm]
  have hsplit := List.take_append_drop n (log.filter fun e => c < key e)
  have hord : Ordered key (log.filter fun e => c < key e) := List.Pairwise.filter _ ho
  rw [← hsplit] at hord
  obtain ⟨h1, -, h12⟩ := List.pairwise_append.mp hord
  rw [hwin]
  -- an empty page has nothing behind the cursor, any other ends at its last key
  rcases List.eq_nil_or_concat (page key log c n) with hnil | ⟨init, last, hlast⟩
  · rw [hnil, ← hwin]
    exact (window_empty (Nat.le_refl c)).symm
  · have hend : pageEnd key c (page key log c n) = key last := by
      rw [hlast]
      simp [pageEnd]
    rw [hend]
    unfold page at hlast ⊢
    conv_rhs => rw [← hsplit]
    rw [List.filter_append]
    have hkeep : (List.take n (log.filter fun e => c < key e)).filter (fun e => key e ≤ key last) =
        List.take n (log.filter fun e => c < key e) := by
      apply List.filter_eq_self.mpr
      intro e he
      rw [hlast] at he h1
      rcases List.mem_append.mp (List.concat_eq_append .. ▸ he) with he | he
      · have := (List.pairwise_append.mp (List.concat_eq_append .. ▸ h1)).2.2 e he last (by simp)
        simp only [decide_eq_true_eq]
        omega
      · rw [List.mem_singleton.mp he]
        simp
    have hdrop : (List.drop n (log.filter fun e => c < key e)).filter (fun e => key e ≤ key last) = [] := by
      apply List.filter_eq_nil_iff.mpr
      intro e he hle
      have := h12 last (by rw [hlast]; simp) e he
      simp only [decide_eq_true_eq] at hle
      omega
    rw [hkeep, hdrop, List.append_nil]

theorem length_window (h : c ≤ d) : (log.filter fun e => c < key e).length =
    (window key log c d).length + (log.filter fun e => d < key e).length := by
  unfold window
  induction log with
  | nil => rfl
  | cons e log ih =>
    by_cases h1 : c < key e
    · by_cases h2 : d < key e
      · have h3 : ¬ key e ≤ d := by omega
        simp only [List.filter_cons, h1, h2, h3, decide_true, decide_false, Bool.and_false, Bool.false_eq_true, if_true,
          if_false, List.length_cons]
        omega
      · have h3 : key e ≤ d := by omega
        simp only [List.filter_cons, h1, h2, h3, decide_true, decide_false, Bool.and_true, Bool.false_eq_true, if_true,
          if_false, List.length_cons]
        omega
    · have h2 : ¬ d < key e := by omega
      simp only [List.filter_cons, h1, h2, decide_false, Bool.false_and, Bool.false_eq_true, if_false]
      exact ih

theorem length_window_le : (window key log c d).length ≤ (log.filter fun e => c < key e).length := by
  rw [← List.countP_eq_length_filter, window, ← List.countP_eq_length_filter]
  apply List.countP_mono_left
  intro e _ he
  simp only [Bool.and_eq_true, decide_eq_true_eq] at he ⊢
  exact he.1

theorem length_page (ho : Ordered key log) : (log.filter fun e => c < key e).length =
    (page key log c n).length + (log.filter fun e => pageEnd key c (page key log c n) < key e).length := by
  conv_rhs => rw [page_window ho]
  rw [length_window (le_pageEnd (n := n))]
  congr 2
  rw [← page_window ho]

/-! ## Paging through the logs of several moments -/

variable (key) (n) in
def pagedFrom : Nat → List (List ε) → List ε
  | _, [] => []
  | c, t :: ts => page key t c n ++ pagedFrom (pageEnd key c (page key t c n)) ts

variable (key) (n) in
def endFrom : Nat → List (List ε) → Nat
  | c, [] => c
  | c, t :: ts => endFrom (pageEnd key c (page key t c n)) ts

theorem le_endFrom (ts : List (List ε)) (c : Nat) : c ≤ endFrom key n c ts := by
  induction ts generalizing c with
  | nil => exact Nat.le_refl c
  | cons t ts ih => exact Nat.le_trans le_pageEnd (ih _)

/-- The pages of a log that grows to `log` are one window of it. -/
theorem pagedFrom_window (ho : Ordered key log) {ts : List (List ε)} (ht : ∀ t ∈ ts, t <+: log) (c : Nat) :
    pagedFrom key n c ts = window key log c (endFrom key n c ts) := by
  induction ts generalizing c with
  | nil => exact (window_empty (Nat.le_refl c)).symm
  | cons t ts ih =>
    have htl := ht t List.mem_cons_self
    have hot : Ordered key t := by
      obtain ⟨new, rfl⟩ := htl
      exact (List.pairwise_append.mp ho).1
    have hin : pageEnd key c (page key t c n) ≤ c ∨ ∃ e ∈ t, pageEnd key c (page key t c n) ≤ key e := by
      rcases pageEnd_cases key c (page key t c n) with ⟨-, h⟩ | ⟨e, he, h⟩
      · exact .inl (Nat.le_of_eq h)
      · exact .inr ⟨e, (mem_page he).1, Nat.le_of_eq h⟩
    have hpage : page key t c n = window key log c (pageEnd key c (page key t c n)) := by
      rw [window_grown ho htl hin]
      exact page_window hot
    simp only [pagedFrom, endFrom]
    rw [ih (fun t' ht' => ht t' (List.mem_cons_of_mem _ ht'))]
    calc page key t c n ++ window key log (pageEnd key c (page key t c n)) _
        = window key log c (pageEnd key c (page key t c n)) ++
          window key log (pageEnd key c (page key t c n)) _ := by rw [← hpage]
      _ = _ := window_append ho le_pageEnd (le_endFrom ts _)

theorem endFrom_append (ts : List (List ε)) (t : List ε) (c : Nat) :
    endFrom key n c (ts ++ [t]) =
      pageEnd key (endFrom key n c ts) (page key t (endFrom key n c ts) n) := by
  induction ts generalizing c with
  | nil => rfl
  | cons t' ts ih => exact ih _

/-- If the last page left nothing, all that the log had then is in the pages. -/
theorem pagedFrom_all {ts : List (List ε)} (ho : Ordered key log) (ht : ∀ t ∈ ts, t <+: log) (c : Nat)
    (hlast : (log.filter fun e => endFrom key n c ts < key e).length ≤ n) :
    pagedFrom key n c (ts ++ [log]) = log.filter fun e => c < key e := by
  have hall : ∀ t ∈ ts ++ [log], t <+: log := by
    intro t hmem
    rcases List.mem_append.mp hmem with hmem | hmem
    · exact ht t hmem
    · obtain rfl := List.mem_singleton.mp hmem
      exact List.prefix_rfl
  have hleft := length_page (c := endFrom key n c ts) (n := n) ho
  have htaken : (page key log (endFrom key n c ts) n).length = (log.filter fun e => endFrom key n c ts < key e).length := by
    have hlen : (page key log (endFrom key n c ts) n).length = min n _ := List.length_take
    omega
  rw [htaken, ← endFrom_append] at hleft
  have hnil : (log.filter fun e => endFrom key n c (ts ++ [log]) < key e) = [] := by
    apply List.eq_nil_of_length_eq_zero
    omega
  rw [pagedFrom_window ho hall]
  unfold window
  apply List.filter_congr
  intro e he
  have hle := List.filter_eq_nil_iff.mp hnil e he
  simp only [decide_eq_true_eq, Nat.not_lt] at hle
  simp [hle]

end

/-! ## Folding changes by name -/

section
variable {κ ν μ : Type} [DecidableEq κ]

def applyAll (f : κ → Option ν) (xs : List (κ × ν)) : κ → Option ν :=
  xs.foldl (fun f x k => if k = x.1 then some x.2 else f k) f

def latest (xs : List (κ × ν)) : Table κ ν := xs.foldl (fun t x => t.set x.1 x.2) ∅

theorem applyAll_append (f : κ → Option ν) (xs ys : List (κ × ν)) :
    applyAll f (xs ++ ys) = applyAll (applyAll f xs) ys := List.foldl_append

theorem applyAll_or (f : κ → Option ν) (xs : List (κ × ν)) (k : κ) :
    applyAll f xs k = (applyAll (fun _ => none) xs k).or (f k) := by
  induction xs using List.reverseRecOn with
  | nil => rfl
  | append_singleton xs x ih =>
    rw [applyAll_append, applyAll_append]
    by_cases hk : k = x.1
    · simp [applyAll, hk]
    · simpa [applyAll, hk] using ih

theorem applyAll_getLast (xs : List (κ × ν)) (k : κ) :
    applyAll (fun _ => none) xs k = ((xs.filter fun x => x.1 = k).getLast?).map Prod.snd := by
  induction xs using List.reverseRecOn with
  | nil => rfl
  | append_singleton xs x ih =>
    rw [applyAll_append, List.filter_append]
    by_cases hk : x.1 = k
    · simp [applyAll, hk]
    · have hk' : k ≠ x.1 := fun h => hk h.symm
      simpa [applyAll, hk, hk'] using ih

theorem applyAll_map (g : ν → μ) (xs : List (κ × ν)) (k : κ) :
    applyAll (fun _ => none) (xs.map fun x => (x.1, g x.2)) k = (applyAll (fun _ => none) xs k).map g := by
  induction xs using List.reverseRecOn with
  | nil => rfl
  | append_singleton xs x ih =>
    rw [List.map_append, applyAll_append, applyAll_append]
    by_cases hk : k = x.1
    · simp [applyAll, hk]
    · simpa [applyAll, hk] using ih

theorem applyAll_lookup {xs : List (κ × ν)} (hn : (xs.map Prod.fst).Nodup) (k : κ) :
    applyAll (fun _ => none) xs k = xs.lookup k := by
  induction xs with
  | nil => rfl
  | cons x xs ih =>
    obtain ⟨k', v⟩ := x
    rw [List.map_cons, List.nodup_cons] at hn
    rw [← List.singleton_append, applyAll_append, applyAll_or, ih hn.2]
    by_cases hk : k = k'
    · subst hk
      have hnone : xs.lookup k = none := Table.lookup_eq_none.mpr hn.1
      simp [applyAll, hnone]
    · have hb : (k == k') = false := beq_eq_false_iff_ne.mpr hk
      simp only [applyAll, List.foldl_cons, List.foldl_nil, hk, if_false, Option.or_none,
        List.singleton_append, List.lookup_cons, hb]

theorem applyAll_perm {xs ys : List (κ × ν)} (hp : xs.Perm ys) (hn : (xs.map Prod.fst).Nodup) (f : κ → Option ν) :
    applyAll f xs = applyAll f ys := by
  have hn' : (ys.map Prod.fst).Nodup := (hp.map Prod.fst).nodup_iff.mp hn
  funext k
  rw [applyAll_or, applyAll_or f ys, applyAll_lookup hn, applyAll_lookup hn']
  congr 1
  apply Option.ext
  intro v
  rw [Table.lookup_eq_some hn, Table.lookup_eq_some hn', hp.mem_iff]

theorem get?_latest (xs : List (κ × ν)) (k : κ) : (latest xs).get? k = applyAll (fun _ => none) xs k := by
  induction xs using List.reverseRecOn with
  | nil => rfl
  | append_singleton xs x ih =>
    unfold latest at ih ⊢
    rw [List.foldl_append, applyAll_append]
    by_cases hk : k = x.1
    · simp [applyAll, hk]
    · simpa [applyAll, hk] using ih

theorem latest_split {xs : List (κ × ν)} {x : κ × ν} (h : x ∈ (latest xs).rows) :
    ∃ pre post, xs = pre ++ x :: post ∧ ∀ y ∈ post, y.1 ≠ x.1 := by
  obtain ⟨k, v⟩ := x
  rw [Table.mem_rows, get?_latest] at h
  induction xs using List.reverseRecOn with
  | nil => cases h
  | append_singleton xs x ih =>
    rw [applyAll_append] at h
    by_cases hk : k = x.1
    · have hv : x.2 = v := by simpa [applyAll, hk] using h
      exact ⟨xs, [], by rw [hk, ← hv], fun y hy => absurd hy List.not_mem_nil⟩
    · obtain ⟨pre, post, rfl, hpost⟩ := ih (by simpa [applyAll, hk] using h)
      refine ⟨pre, post ++ [x], by rw [List.append_assoc, List.cons_append], fun y hy => ?_⟩
      rcases List.mem_append.mp hy with hy | hy
      · exact hpost y hy
      · rw [List.mem_singleton.mp hy]
        exact fun he => hk he.symm

theorem mem_latest {xs : List (κ × ν)} {x : κ × ν} (h : x ∈ (latest xs).rows) : x ∈ xs := by
  obtain ⟨pre, post, rfl, -⟩ := latest_split h
  exact List.mem_append_right pre List.mem_cons_self

theorem applyAll_latest (g : ν → μ) (f : κ → Option μ) (xs : List (κ × ν)) :
    applyAll f ((latest xs).rows.map fun x => (x.1, g x.2)) = applyAll f (xs.map fun x => (x.1, g x.2)) := by
  funext k
  rw [applyAll_or, applyAll_or f (xs.map _), applyAll_map, applyAll_map, applyAll_lookup (latest xs).nodup]
  congr 2
  exact get?_latest xs k

end

end Lib

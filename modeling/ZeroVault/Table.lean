import Mathlib.Data.List.Nodup
import Mathlib.Data.List.Basic

/-!
# Tables with a primary key

A table is a list of keyed rows whose keys are distinct, as a relational store
keeps them. Every statement a store runs against it is one of `insert`, `set`,
`updateWhere` and `deleteWhere`; what it does to a lookup is one equation.
-/

namespace Lib

/-- Rows in insertion order; the key column is the primary key. -/
structure Table (κ ν : Type) where
  rows : List (κ × ν)
  nodup : (rows.map Prod.fst).Nodup

namespace Table

variable {κ ν : Type}

def empty : Table κ ν := ⟨[], List.nodup_nil⟩

instance : EmptyCollection (Table κ ν) := ⟨empty⟩

section
variable [DecidableEq κ]

def get? (t : Table κ ν) (k : κ) : Option ν := t.rows.lookup k

def contains (t : Table κ ν) (k : κ) : Bool := (t.get? k).isSome

theorem lookup_eq_none {l : List (κ × ν)} {k : κ} : l.lookup k = none ↔ k ∉ l.map Prod.fst := by
  induction l with
  | nil => simp
  | cons p l ih =>
    obtain ⟨k', v'⟩ := p
    by_cases h : k = k'
    · subst h; simp
    · simp [List.lookup_cons, h, ih, beq_eq_false_iff_ne.mpr h]

theorem lookup_eq_some {l : List (κ × ν)} (hn : (l.map Prod.fst).Nodup) {k : κ} {v : ν} :
    l.lookup k = some v ↔ (k, v) ∈ l := by
  induction l with
  | nil => simp
  | cons p l ih =>
    obtain ⟨k', v'⟩ := p
    rw [List.map_cons, List.nodup_cons] at hn
    by_cases h : k = k'
    · subst h
      have hk : (k, v) ∉ l := fun hm => hn.1 (List.mem_map.mpr ⟨_, hm, rfl⟩)
      simp [hk, eq_comm]
    · simp [List.lookup_cons, h, ih hn.2, beq_eq_false_iff_ne.mpr h]

theorem mem_rows {t : Table κ ν} {k : κ} {v : ν} : (k, v) ∈ t.rows ↔ t.get? k = some v :=
  (lookup_eq_some t.nodup).symm

theorem get?_eq_none {t : Table κ ν} {k : κ} : t.get? k = none ↔ k ∉ t.rows.map Prod.fst :=
  lookup_eq_none

@[simp] theorem get?_empty (k : κ) : (∅ : Table κ ν).get? k = none := rfl

@[simp] theorem contains_eq_true {t : Table κ ν} {k : κ} : t.contains k = true ↔ ∃ v, t.get? k = some v := by
  unfold contains
  rw [Option.isSome_iff_exists]

@[simp] theorem contains_eq_false {t : Table κ ν} {k : κ} : t.contains k = false ↔ t.get? k = none := by
  unfold contains
  rw [Option.isSome_eq_false_iff, Option.isNone_iff_eq_none]

/-! ## Statements on rows -/

/-- `DELETE FROM t WHERE p`. -/
def deleteWhere (t : Table κ ν) (p : κ → ν → Bool) : Table κ ν where
  rows := t.rows.filter fun r => !p r.1 r.2
  nodup := (List.filter_sublist.map Prod.fst).nodup t.nodup

/-- `UPDATE t SET f WHERE p`, with the key column left alone. -/
def updateWhere (t : Table κ ν) (p : κ → ν → Bool) (f : ν → ν) : Table κ ν where
  rows := t.rows.map fun r => if p r.1 r.2 then (r.1, f r.2) else r
  nodup := by
    have h : ((t.rows.map fun r => if p r.1 r.2 then (r.1, f r.2) else r).map Prod.fst) = t.rows.map Prod.fst := by
      rw [List.map_map]
      apply List.map_congr_left
      intro r _
      simp only [Function.comp]
      split <;> rfl
    rw [h]; exact t.nodup

/-- `INSERT INTO t`: `none` when the primary key is taken. -/
def insert (t : Table κ ν) (k : κ) (v : ν) : Option (Table κ ν) :=
  if h : t.get? k = none then
    some {
      rows := t.rows ++ [(k, v)]
      nodup := by
        rw [List.map_append, List.nodup_append]
        refine ⟨t.nodup, by simp, ?_⟩
        intro a ha b hb
        simp only [List.map_cons, List.map_nil, List.mem_singleton] at hb
        rw [hb]; rintro rfl
        exact get?_eq_none.mp h ha }
  else none

/-- `INSERT INTO t ... ON CONFLICT(key) DO UPDATE`, the whole row replaced. -/
def set (t : Table κ ν) (k : κ) (v : ν) : Table κ ν :=
  (t.insert k v).getD (t.updateWhere (fun k' _ => k' = k) fun _ => v)

def erase (t : Table κ ν) (k : κ) : Table κ ν := t.deleteWhere fun k' _ => k' = k

/-- `SELECT * FROM t WHERE p`. -/
def select (t : Table κ ν) (p : κ → ν → Bool) : List (κ × ν) := t.rows.filter fun r => p r.1 r.2

/-- `EXISTS (SELECT 1 FROM t WHERE p)`. -/
def any (t : Table κ ν) (p : κ → ν → Bool) : Bool := t.rows.any fun r => p r.1 r.2

theorem mem_select {t : Table κ ν} {p : κ → ν → Bool} {k : κ} {v : ν} :
    (k, v) ∈ t.select p ↔ t.get? k = some v ∧ p k v = true := by
  unfold select
  rw [List.mem_filter, mem_rows]

theorem any_eq_true {t : Table κ ν} {p : κ → ν → Bool} :
    t.any p = true ↔ ∃ k v, t.get? k = some v ∧ p k v = true := by
  unfold any
  simp only [List.any_eq_true, Prod.exists, mem_rows]

theorem any_eq_false {t : Table κ ν} {p : κ → ν → Bool} :
    t.any p = false ↔ ∀ k v, t.get? k = some v → p k v = false := by
  rw [← Bool.not_eq_true, any_eq_true]
  simp only [not_exists, not_and, Bool.not_eq_true]

/-! ## What a statement does to a lookup -/

@[simp] theorem get?_deleteWhere (t : Table κ ν) (p : κ → ν → Bool) (k : κ) :
    (t.deleteWhere p).get? k = (t.get? k).filter fun v => !p k v := by
  apply Option.ext; intro v
  rw [← mem_rows, deleteWhere, List.mem_filter, mem_rows, Option.filter_eq_some_iff]

theorem deleteWhere_eq_self {t : Table κ ν} {p : κ → ν → Bool} (h : ∀ k v, t.get? k = some v → p k v = false) :
    t.deleteWhere p = t := by
  obtain ⟨rows, nodup⟩ := t
  have hrows : rows.filter (fun r => !p r.1 r.2) = rows := by
    refine List.filter_eq_self.mpr fun r hr => ?_
    rw [h r.1 r.2 (mem_rows.mp hr)]; rfl
  simp only [deleteWhere, hrows]

@[simp] theorem get?_updateWhere (t : Table κ ν) (p : κ → ν → Bool) (f : ν → ν) (k : κ) :
    (t.updateWhere p f).get? k = (t.get? k).map fun v => if p k v then f v else v := by
  apply Option.ext; intro v
  rw [← mem_rows, Option.map_eq_some_iff]
  simp only [updateWhere, List.mem_map, Prod.exists]
  constructor
  · rintro ⟨k', v', hm, he⟩
    split at he
    · rename_i hp; cases he; exact ⟨v', mem_rows.mp hm, by simp [hp]⟩
    · rename_i hp; cases he; exact ⟨v, mem_rows.mp hm, by simp [hp]⟩
  · rintro ⟨v', hm, he⟩
    refine ⟨k, v', mem_rows.mpr hm, ?_⟩
    split at he
    · rename_i hp; simp [hp, he]
    · rename_i hp; subst he; simp [hp]

theorem get?_insert {t t' : Table κ ν} {k : κ} {v : ν} (h : t.insert k v = some t') (k' : κ) :
    t'.get? k' = if k' = k then some v else t.get? k' := by
  unfold insert at h
  split at h
  · rename_i hk
    cases h
    apply Option.ext; intro w
    rw [← mem_rows, List.mem_append, mem_rows]
    by_cases he : k' = k
    · subst he; simp [hk, eq_comm]
    · simp [he]
  · cases h

theorem insert_eq_none {t : Table κ ν} {k : κ} {v : ν} : t.insert k v = none ↔ t.contains k = true := by
  unfold insert
  rw [contains_eq_true]
  split
  · rename_i h; simp [h]
  · rename_i h
    simpa using Option.ne_none_iff_exists'.mp h

theorem exists_insert {t : Table κ ν} {k : κ} (h : t.get? k = none) (v : ν) : ∃ t', t.insert k v = some t' := by
  unfold insert
  rw [dif_pos h]
  exact ⟨_, rfl⟩

theorem get?_of_insert {t t' : Table κ ν} {k : κ} {v : ν} (h : t.insert k v = some t') : t.get? k = none := by
  by_contra hk
  have : t.insert k v = none := insert_eq_none.mpr (contains_eq_true.mpr (Option.ne_none_iff_exists'.mp hk))
  rw [this] at h; cases h

theorem get?_insert_keeps {t t' : Table κ ν} {k k' : κ} {v v' : ν} (hi : t.insert k v = some t')
    (h : t.get? k' = some v') : t'.get? k' = some v' := by
  have hne : k' ≠ k := fun he => by rw [he, get?_of_insert hi] at h; cases h
  rw [get?_insert hi, if_neg hne, h]

@[simp] theorem get?_set (t : Table κ ν) (k k' : κ) (v : ν) :
    (t.set k v).get? k' = if k' = k then some v else t.get? k' := by
  unfold set
  cases h : t.insert k v with
  | some t' => exact get?_insert h k'
  | none =>
    obtain ⟨w, hw⟩ := contains_eq_true.mp (insert_eq_none.mp h)
    simp only [Option.getD_none, get?_updateWhere, decide_eq_true_eq]
    by_cases he : k' = k
    · subst he; simp [hw]
    · simp [he]

@[simp] theorem get?_erase (t : Table κ ν) (k k' : κ) :
    (t.erase k).get? k' = if k' = k then none else t.get? k' := by
  unfold erase
  rw [get?_deleteWhere]
  by_cases h : k' = k
  · subst h; cases t.get? k' <;> simp [Option.filter]
  · cases hv : t.get? k' <;> simp [Option.filter, h]

end

end Table

end Lib

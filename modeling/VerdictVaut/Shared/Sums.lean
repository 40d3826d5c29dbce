import Mathlib.Tactic
import Mathlib.Algebra.Order.Field.Rat
import Mathlib.Algebra.BigOperators.Group.List.Basic

set_option autoImplicit false

namespace Relational

variable {α : Type}

/-- The SQL aggregate `SUM(value) WHERE selected` over the rows of a table. -/
def sumWhere (selected : α → Bool) (value : α → ℚ) (rows : List α) : ℚ :=
  ((rows.filter selected).map value).sum

def share (selected : α → Bool) (value : α → ℚ) (row : α) : ℚ :=
  if selected row then value row else 0

variable (selected : α → Bool) (value : α → ℚ)

@[simp] theorem sumWhere_nil : sumWhere selected value [] = 0 := rfl

@[simp] theorem sumWhere_cons (row : α) (rows : List α) :
    sumWhere selected value (row :: rows) =
      share selected value row + sumWhere selected value rows := by
  cases picked : selected row <;> simp [sumWhere, share, picked]

@[simp] theorem sumWhere_append (left right : List α) :
    sumWhere selected value (left ++ right) =
      sumWhere selected value left + sumWhere selected value right := by
  simp [sumWhere]

theorem sumWhere_set (rows : List α) (i : Nat) (old new : α) (found : rows[i]? = some old) :
    sumWhere selected value (rows.set i new) =
      sumWhere selected value rows - share selected value old + share selected value new := by
  induction rows generalizing i with
  | nil => simp at found
  | cons head rest ih =>
    cases i with
    | zero =>
      simp only [List.getElem?_cons_zero, Option.some.injEq] at found
      subst found
      simp only [List.set_cons_zero, sumWhere_cons]
      ring
    | succ i =>
      simp only [List.getElem?_cons_succ] at found
      simp only [List.set_cons_succ, sumWhere_cons, ih i found]
      ring

theorem sumWhere_congr {selected' : α → Bool} {value' : α → ℚ} (rows : List α)
    (same : ∀ row ∈ rows, share selected value row = share selected' value' row) :
    sumWhere selected value rows = sumWhere selected' value' rows := by
  induction rows with
  | nil => rfl
  | cons head rest ih =>
    simp only [sumWhere_cons, same head (by simp)]
    rw [ih fun row member => same row (List.mem_cons_of_mem _ member)]

theorem sumWhere_add (value' : α → ℚ) (rows : List α) :
    sumWhere selected (fun row => value row + value' row) rows =
      sumWhere selected value rows + sumWhere selected value' rows := by
  simp [sumWhere, List.sum_map_add]

theorem sumWhere_eq_zero (rows : List α) (absent : ∀ row ∈ rows, share selected value row = 0) :
    sumWhere selected value rows = 0 := by
  induction rows with
  | nil => rfl
  | cons head rest ih =>
    rw [sumWhere_cons, absent head (by simp),
      ih fun row member => absent row (List.mem_cons_of_mem _ member), add_zero]

theorem sumWhere_mono {selected' : α → Bool} {value' : α → ℚ} (rows : List α)
    (le : ∀ row ∈ rows, share selected value row ≤ share selected' value' row) :
    sumWhere selected value rows ≤ sumWhere selected' value' rows := by
  induction rows with
  | nil => exact le_rfl
  | cons head rest ih =>
    have first := le head (by simp)
    have others := ih fun row member => le row (List.mem_cons_of_mem _ member)
    simp only [sumWhere_cons]
    linarith

theorem sumWhere_nonneg (rows : List α) (positive : ∀ row ∈ rows, 0 ≤ share selected value row) :
    0 ≤ sumWhere selected value rows := by
  induction rows with
  | nil => simp
  | cons head rest ih =>
    have first := positive head (by simp)
    have others := ih fun row member => positive row (List.mem_cons_of_mem _ member)
    simp only [sumWhere_cons]
    linarith

theorem share_le_sumWhere (rows : List α) (positive : ∀ row ∈ rows, 0 ≤ share selected value row)
    (row : α) (member : row ∈ rows) : share selected value row ≤ sumWhere selected value rows := by
  induction rows with
  | nil => simp at member
  | cons head rest ih =>
    have first := positive head (by simp)
    have others : ∀ row ∈ rest, 0 ≤ share selected value row :=
      fun row inside => positive row (List.mem_cons_of_mem _ inside)
    simp only [sumWhere_cons]
    rcases List.mem_cons.mp member with rfl | inside
    · have := sumWhere_nonneg selected value rest others
      linarith
    · have := ih others inside
      linarith

end Relational

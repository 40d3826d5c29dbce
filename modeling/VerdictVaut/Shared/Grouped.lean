import VerdictVaut.Shared.Table

set_option autoImplicit false

namespace Relational

section Keys

variable {α : Type} (selected : α → Bool) (value : α → ℚ)

theorem sumWhere_byKey (key : α → Nat) (n : Nat) (rows : List α) (inside : ∀ row ∈ rows, key row < n) :
    sumWhere selected value rows =
      ∑ k ∈ Finset.range n, sumWhere selected value (rows.filter fun row => decide (key row = k)) := by
  induction rows with
  | nil => simp
  | cons head rest ih =>
    have others := ih fun row member => inside row (List.mem_cons_of_mem _ member)
    have mine : key head ∈ Finset.range n := Finset.mem_range.mpr (inside head List.mem_cons_self)
    -- the head counts under its own key, and under no other
    have split (k : Nat) : sumWhere selected value ((head :: rest).filter fun row => decide (key row = k)) =
        (if key head = k then share selected value head else 0) +
          sumWhere selected value (rest.filter fun row => decide (key row = k)) := by
      by_cases same : key head = k
      · simp [same]
      · simp [same]
    simp only [split, Finset.sum_add_distrib, Finset.sum_ite_eq, mine, if_true]
    rw [sumWhere_cons, others]

theorem sumWhere_split {first second : α → Bool} (rows : List α)
    (split : ∀ row ∈ rows, share selected value row = share first value row + share second value row) :
    sumWhere selected value rows = sumWhere first value rows + sumWhere second value rows := by
  induction rows with
  | nil => simp
  | cons head rest ih =>
    have others := ih fun row member => split row (List.mem_cons_of_mem _ member)
    simp only [sumWhere_cons, split head List.mem_cons_self, others]
    ring

theorem sumWhere_filter (kept : α → Bool) (rows : List α) :
    sumWhere selected value (rows.filter kept) = sumWhere (fun row => selected row && kept row) value rows := by
  rw [sumWhere, List.filter_filter, sumWhere]

theorem sumWhere_mul (factor : ℚ) (rows : List α) :
    sumWhere selected (fun row => value row * factor) rows = sumWhere selected value rows * factor := by
  simp only [sumWhere, List.sum_map_mul_right]

theorem sumWhere_add_le {first second : α → Bool} {value₁ value₂ : α → ℚ} (rows : List α)
    (le : ∀ row ∈ rows, share first value₁ row + share second value₂ row ≤ share selected value row) :
    sumWhere first value₁ rows + sumWhere second value₂ rows ≤ sumWhere selected value rows := by
  induction rows with
  | nil => simp
  | cons head rest ih =>
    have here := le head List.mem_cons_self
    have others := ih fun row member => le row (List.mem_cons_of_mem _ member)
    simp only [sumWhere_cons]
    linarith

end Keys

section Rows

variable {α : Type} [RowSpec α] (selected : α → Bool) (value : α → ℚ)

theorem sumWhere_rows (t : Table α) :
    sumWhere selected value t.rows = ∑ i ∈ Finset.range t.size, ((t.get? i).map (share selected value)).getD 0 := by
  have whole (rows : List α) : sumWhere selected value rows =
      ∑ i ∈ Finset.range rows.length, (rows[i]?.map (share selected value)).getD 0 := by
    induction rows using List.reverseRecOn with
    | nil => simp
    | append_singleton rows last ih =>
      rw [List.length_append, List.length_singleton, Finset.sum_range_succ, sumWhere_append, ih]
      congr 1
      · apply Finset.sum_congr rfl
        intro i member
        rw [List.getElem?_append_left (Finset.mem_range.mp member)]
      · simp
  exact whole t.rows

end Rows

end Relational

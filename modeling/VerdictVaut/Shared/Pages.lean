import Mathlib.Data.List.TakeWhile
import Mathlib.Data.List.Nodup
import Mathlib.Data.List.Infix
import Mathlib.Order.Lattice

set_option autoImplicit false

namespace Pages

variable {α β : Type} [DecidableEq β] {l : List α} {seen : α → Bool} {n k a b : Nat}

def after (idOf : α → β) (id : β) (l : List α) : List α :=
  -- the entries of a newest-first list that follow the one a request names
  l.drop (l.findIdx (fun t => decide (idOf t = id)) + 1)

def newerThan (idOf : α → β) (id : β) (l : List α) : List α :=
  -- the entries newer than the one named, or all of them if it is not in the list
  l.takeWhile fun t => decide (idOf t ≠ id)

theorem newerThan_eq_take (idOf : α → β) (id : β) (l : List α) :
    newerThan idOf id l = l.take (l.findIdx fun t => decide (idOf t = id)) := by
  rw [newerThan, List.takeWhile_eq_take_findIdx_not]
  congr 2
  funext t
  simp

theorem take_append_segment (l : List α) (a b : Nat) : l.take a ++ (l.drop a).take b = l.take (a + b) := by
  rw [List.take_add]

theorem any_segment (unseen : a ≤ l.findIdx seen) :
    ((l.drop a).take b).any seen = decide (l.findIdx seen < a + b ∧ l.findIdx seen < l.length) := by
  rw [Bool.eq_iff_iff, decide_eq_true_eq, List.any_eq_true]
  constructor
  · rintro ⟨t, member, hit⟩
    obtain ⟨i, bound, rfl⟩ := List.mem_iff_getElem.mp member
    simp only [List.length_take, List.length_drop, Nat.lt_min] at bound
    simp only [List.getElem_take, List.getElem_drop] at hit
    have position : l.findIdx seen ≤ a + i := by
      by_contra later
      rw [List.not_of_lt_findIdx (not_le.mp later)] at hit
      cases hit
    omega
  · rintro ⟨inside, bound⟩
    refine ⟨l[l.findIdx seen], ?_, List.findIdx_getElem⟩
    refine List.mem_iff_getElem.mpr ⟨l.findIdx seen - a, ?_, ?_⟩
    · simp only [List.length_take, List.length_drop, Nat.lt_min]
      omega
    · simp only [List.getElem_take, List.getElem_drop]
      congr 1
      omega

theorem short_segment (positive : 0 < b) : ((l.drop a).take b).length < b ↔ l.length < a + b := by
  simp only [List.length_take, List.length_drop]
  omega

/-- A walk back may stop at a page when the entry it looks for is there or nothing is older: both mean
that its position has been passed. -/
theorem segment_ends (positive : 0 < b) (unseen : a ≤ l.findIdx seen) :
    (((l.drop a).take b).any seen || decide (((l.drop a).take b).length < b)) =
      decide (l.findIdx seen < a + b) := by
  have bound : l.findIdx seen ≤ l.length := List.findIdx_le_length
  rw [any_segment unseen, Bool.eq_iff_iff]
  simp only [Bool.or_eq_true, decide_eq_true_eq, short_segment positive]
  omega

variable {idOf : α → β}

theorem findIdx_of_getElem (distinct : (l.map idOf).Nodup) {i : Nat} (bound : i < l.length) :
    l.findIdx (fun t => decide (idOf t = idOf l[i])) = i := by
  apply le_antisymm
  · by_contra later
    have missed := List.not_of_lt_findIdx (not_le.mp later)
    simp at missed
  · by_contra earlier
    have first := not_le.mp earlier
    have found := lt_trans first bound
    have same : idOf l[l.findIdx fun t => decide (idOf t = idOf l[i])] = idOf l[i] :=
      of_decide_eq_true (List.findIdx_getElem (w := found))
    have named : (l.map idOf)[l.findIdx fun t => decide (idOf t = idOf l[i])]? = (l.map idOf)[i]? := by
      rw [List.getElem?_map, List.getElem?_map, List.getElem?_eq_getElem found, List.getElem?_eq_getElem bound]
      simp only [Option.map_some, same]
    have := (List.getElem?_inj (by rw [List.length_map]; exact found) distinct).mp named
    omega

theorem after_segment (distinct : (l.map idOf).Nodup) {oldest : α} (full : ((l.drop a).take b).length = b)
    (last : ((l.drop a).take b).getLast? = some oldest) : after idOf (idOf oldest) l = l.drop (a + b) := by
  -- asking for what follows the oldest entry of a page gives the next page
  have size := full
  simp only [List.length_take, List.length_drop] at size
  rw [List.getLast?_eq_getElem?, full] at last
  obtain ⟨bound, rfl⟩ := List.getElem?_eq_some_iff.mp last
  have inside : a + (b - 1) < l.length := by
    have := bound
    simp only [List.length_take, List.length_drop] at this
    omega
  have located := findIdx_of_getElem distinct inside
  simp only [List.getElem_take, List.getElem_drop]
  rw [after, located]
  congr 1
  have := bound
  omega

theorem getElem_not_mem_take (distinct : l.Nodup) {i : Nat} (bound : i < l.length) (outside : a ≤ i) :
    l[i] ∉ l.take a := by
  intro member
  obtain ⟨j, small, same⟩ := List.mem_iff_getElem.mp member
  simp only [List.length_take, Nat.lt_min] at small
  rw [List.getElem_take] at same
  have := distinct.getElem_inj_iff.mp same
  omega

end Pages

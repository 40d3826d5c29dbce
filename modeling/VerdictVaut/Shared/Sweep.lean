import Mathlib.Algebra.Order.BigOperators.Group.List
import Mathlib.Algebra.Order.Ring.Rat
import Mathlib.Data.List.Sort
import Mathlib.Tactic.Linarith

set_option autoImplicit false

namespace Sweep

variable {α : Type}

/-- Takes from the front of a list of offers, up to a total, and stops at the first offer that is not admitted. -/
def sweep (quantity : α → ℚ) (admits : α → Bool) : ℚ → List α → List (α × ℚ)
  | _, [] => []
  | remaining, x :: rest =>
    if remaining ≤ 0 then []
    else if quantity x ≤ 0 then sweep quantity admits remaining rest
    else if admits x then
      (x, min remaining (quantity x)) :: sweep quantity admits (remaining - min remaining (quantity x)) rest
    else []

def taken (picks : List (α × ℚ)) : ℚ := (picks.map Prod.snd).sum

variable {quantity : α → ℚ} {admits : α → Bool} {remaining : ℚ} {offers : List α}

theorem sweep_of_nonpos (none : remaining ≤ 0) : sweep quantity admits remaining offers = [] := by
  cases offers with
  | nil => rfl
  | cons x rest => rw [sweep, if_pos none]

theorem sweep_induction {motive : ℚ → List α → List (α × ℚ) → Prop}
    (nil : ∀ remaining, motive remaining [] [])
    (spent : ∀ remaining x rest, remaining ≤ 0 → motive remaining (x :: rest) [])
    (empty : ∀ remaining x rest, 0 < remaining → quantity x ≤ 0 →
      motive remaining rest (sweep quantity admits remaining rest) →
      motive remaining (x :: rest) (sweep quantity admits remaining rest))
    (refused : ∀ remaining x rest, 0 < remaining → 0 < quantity x → admits x = false → motive remaining (x :: rest) [])
    (took : ∀ remaining x rest, 0 < remaining → 0 < quantity x → admits x = true →
      motive (remaining - min remaining (quantity x)) rest
        (sweep quantity admits (remaining - min remaining (quantity x)) rest) →
      motive remaining (x :: rest)
        ((x, min remaining (quantity x)) :: sweep quantity admits (remaining - min remaining (quantity x)) rest))
    (remaining : ℚ) (offers : List α) : motive remaining offers (sweep quantity admits remaining offers) := by
  -- the induction over a sweep: an empty end, an offer that is passed over, and an offer that is taken
  induction offers generalizing remaining with
  | nil => exact nil remaining
  | cons x rest ih =>
    rw [sweep]
    split
    next none => exact spent remaining x rest none
    next some =>
      rw [not_le] at some
      split
      next worthless => exact empty remaining x rest some worthless (ih remaining)
      next worth =>
        rw [not_le] at worth
        split
        next good => exact took remaining x rest some worth good (ih _)
        next bad => exact refused remaining x rest some worth (by simpa using bad)

theorem mem_sweep {x : α} {q : ℚ} (member : (x, q) ∈ sweep quantity admits remaining offers) :
    x ∈ offers ∧ admits x = true ∧ 0 < q ∧ q ≤ quantity x := by
  revert member
  refine sweep_induction (motive := fun _ offers picks => (x, q) ∈ picks →
    x ∈ offers ∧ admits x = true ∧ 0 < q ∧ q ≤ quantity x) ?_ ?_ ?_ ?_ ?_ remaining offers
  · simp
  · simp
  · intro remaining y rest _ _ ih member
    exact (ih member).imp_left (List.mem_cons_of_mem y)
  · simp
  · intro remaining y rest some worth good ih member
    rcases List.mem_cons.mp member with same | later
    · cases same
      exact ⟨List.mem_cons_self, good, lt_min some worth, min_le_right _ _⟩
    · exact (ih later).imp_left (List.mem_cons_of_mem y)

theorem sweep_sublist : ((sweep quantity admits remaining offers).map Prod.fst).Sublist offers := by
  refine sweep_induction (motive := fun _ offers picks => (picks.map Prod.fst).Sublist offers) ?_ ?_ ?_ ?_ ?_ remaining offers
  · simp
  · simp
  · intro remaining x rest _ _ ih
    exact ih.cons x
  · simp
  · intro remaining x rest _ _ _ ih
    exact ih.cons_cons x

theorem taken_nonneg : 0 ≤ taken (sweep quantity admits remaining offers) := by
  refine List.sum_nonneg fun q member => ?_
  obtain ⟨⟨x, q⟩, inside, rfl⟩ := List.mem_map.mp member
  exact (mem_sweep inside).2.2.1.le

theorem taken_le : taken (sweep quantity admits remaining offers) ≤ max remaining 0 := by
  refine sweep_induction (motive := fun remaining _ picks => taken picks ≤ max remaining 0) ?_ ?_ ?_ ?_ ?_ remaining offers
  · simp [taken]
  · simp [taken]
  · exact fun _ _ _ _ _ ih => ih
  · simp [taken]
  · intro remaining x rest some _ _ ih
    have left : 0 ≤ remaining - min remaining (quantity x) := sub_nonneg.mpr (min_le_left _ _)
    rw [max_eq_left left] at ih
    rw [max_eq_left some.le]
    simp only [taken, List.map_cons, List.sum_cons] at ih ⊢
    linarith

section Ordered

variable {better : α → α → Prop}

def Downward (better : α → α → Prop) (admits : α → Bool) : Prop :=
  -- along a list sorted best first, an offer that is admitted comes after no offer that is not
  ∀ x y, better x y → admits y = true → admits x = true

theorem sweep_maximal (sorted : offers.Pairwise better) (downward : Downward better admits) {y : α} (member : y ∈ offers)
    (good : admits y = true) (worth : 0 < quantity y) :
    remaining ≤ taken (sweep quantity admits remaining offers) ∨
      (y, quantity y) ∈ sweep quantity admits remaining offers := by
  -- whatever is left at the end, an admitted offer is used up or the total is reached
  revert sorted member
  refine sweep_induction (motive := fun remaining offers picks => offers.Pairwise better → y ∈ offers →
    remaining ≤ taken picks ∨ (y, quantity y) ∈ picks) ?_ ?_ ?_ ?_ ?_ remaining offers
  · simp
  · exact fun _ _ _ none _ _ => .inl (by simpa [taken] using none)
  · intro remaining x rest _ worthless ih sorted member
    rcases List.mem_cons.mp member with rfl | later
    · exact absurd worth (not_lt.mpr worthless)
    · exact ih sorted.of_cons later
  · intro remaining x rest _ _ bad sorted member
    -- the sweep has stopped at `x`, which no later offer is better than
    rcases List.mem_cons.mp member with rfl | later
    · rw [good] at bad
      cases bad
    · rw [downward x y (List.rel_of_pairwise_cons sorted later) good] at bad
      cases bad
  · intro remaining x rest some _ _ ih sorted member
    rcases List.mem_cons.mp member with rfl | later
    · rcases le_total remaining (quantity y) with short | enough
      · refine .inl ?_
        have rest := @taken_nonneg _ quantity admits (remaining - min remaining (quantity y)) rest
        simp only [taken, List.map_cons, List.sum_cons] at rest ⊢
        rw [min_eq_left short] at rest ⊢
        linarith
      · exact .inr (by rw [min_eq_right enough]; exact List.mem_cons_self)
    · rcases ih sorted.of_cons later with reached | used
      · refine .inl ?_
        simp only [taken, List.map_cons, List.sum_cons] at reached ⊢
        linarith
      · exact .inr (List.mem_cons_of_mem _ used)

theorem sweep_priority (sorted : offers.Pairwise better) (refl : ∀ x, better x x) {x y : α} {q : ℚ}
    (used : (x, q) ∈ sweep quantity admits remaining offers) (member : y ∈ offers) (strict : ¬ better x y)
    (worth : 0 < quantity y) : (y, quantity y) ∈ sweep quantity admits remaining offers := by
  -- when an offer is used, every strictly better one that is admitted has been used up
  revert sorted used member
  refine sweep_induction (motive := fun _ offers picks => offers.Pairwise better → (x, q) ∈ picks → y ∈ offers →
    (y, quantity y) ∈ picks) ?_ ?_ ?_ ?_ ?_ remaining offers
  · simp
  · simp
  · intro remaining z rest _ worthless ih sorted used member
    rcases List.mem_cons.mp member with rfl | later
    · exact absurd worth (not_lt.mpr worthless)
    · exact ih sorted.of_cons used later
  · simp
  · intro remaining z rest some _ _ ih sorted used member
    rcases List.mem_cons.mp used with same | usedLater
    · cases same
      rcases List.mem_cons.mp member with rfl | later
      · exact absurd (refl y) strict
      · exact absurd (List.rel_of_pairwise_cons sorted later) strict
    · rcases List.mem_cons.mp member with rfl | later
      · -- something was left after `y`, so that `y` was used up
        have left : 0 < remaining - min remaining (quantity y) := by
          by_contra none
          rw [sweep_of_nonpos (not_lt.mp none)] at usedLater
          cases usedLater
        have whole : min remaining (quantity y) = quantity y := by
          refine min_eq_right (le_of_lt ?_)
          by_contra short
          rw [min_eq_left (not_lt.mp short)] at left
          linarith
        rw [whole]
        exact List.mem_cons_self
      · exact List.mem_cons_of_mem _ (ih sorted.of_cons usedLater later)

theorem sweep_filter (sorted : offers.Pairwise better) (downward : Downward better admits) :
    sweep quantity admits remaining (offers.filter admits) = sweep quantity admits remaining offers := by
  revert sorted
  refine sweep_induction (motive := fun remaining offers picks => offers.Pairwise better →
    sweep quantity admits remaining (offers.filter admits) = picks) ?_ ?_ ?_ ?_ ?_ remaining offers
  · exact fun _ _ => rfl
  · exact fun _ _ _ none _ => sweep_of_nonpos none
  · intro remaining x rest some worthless ih sorted
    rw [← ih sorted.of_cons]
    cases good : admits x with
    | false => rw [List.filter_cons_of_neg (by simp [good])]
    | true => rw [List.filter_cons_of_pos good, sweep, if_neg (not_le.mpr some), if_pos worthless]
  · intro remaining x rest _ _ bad sorted
    have none : (x :: rest).filter admits = [] := by
      refine List.filter_eq_nil_iff.mpr fun y member good => ?_
      rcases List.mem_cons.mp member with rfl | later
      · rw [bad] at good
        cases good
      · rw [downward x y (List.rel_of_pairwise_cons sorted later) good] at bad
        cases bad
    rw [none]
    rfl
  · intro remaining x rest some worth good ih sorted
    rw [List.filter_cons_of_pos good, sweep, if_neg (not_le.mpr some), if_neg (not_le.mpr worth), if_pos good,
      ih sorted.of_cons]

end Ordered

section Sorting

variable {better : α → α → Prop} [DecidableRel better] [Std.Total better] [IsTrans α better]

theorem sort_perm {xs ys : List α} (perm : xs.Perm ys)
    (untied : ∀ x ∈ xs, ∀ y ∈ xs, better x y → better y x → x = y) :
    xs.insertionSort better = ys.insertionSort better := by
  have sorted := List.pairwise_insertionSort better
  refine List.Perm.eq_of_pairwise (fun x y inX inY => ?_) (sorted xs) (sorted ys)
    ((List.perm_insertionSort better xs).trans (perm.trans (List.perm_insertionSort better ys).symm))
  exact untied x ((List.mem_insertionSort better).mp inX) y (perm.mem_iff.mpr ((List.mem_insertionSort better).mp inY))

theorem sort_filter {xs : List α} (keep : α → Bool)
    (untied : ∀ x ∈ xs, ∀ y ∈ xs, better x y → better y x → x = y) :
    (xs.filter keep).insertionSort better = (xs.insertionSort better).filter keep := by
  have sorted := List.pairwise_insertionSort better
  refine List.Perm.eq_of_pairwise (fun x y inX inY => ?_) (sorted _) ((sorted xs).filter keep)
    ((List.perm_insertionSort better _).trans ((List.perm_insertionSort better xs).filter keep).symm)
  exact untied x (List.mem_of_mem_filter ((List.mem_insertionSort better).mp inX)) y
    ((List.mem_insertionSort better).mp (List.mem_of_mem_filter inY))

structure Fair (better : α → α → Prop) (quantity : α → ℚ) (admits : α → Bool) (remaining : ℚ) (offers : List α)
    (picks : List (α × ℚ)) : Prop where
  -- what a sweep of some offers, best first, owes to each of them
  picked : ∀ pick ∈ picks, pick.1 ∈ offers ∧ admits pick.1 = true ∧ 0 < pick.2 ∧ pick.2 ≤ quantity pick.1
  total : taken picks ≤ max remaining 0
  once : (picks.map Prod.fst).Subperm offers
  ordered : (picks.map Prod.fst).Pairwise better
  priority : ∀ pick ∈ picks, ∀ y ∈ offers, ¬ better pick.1 y → 0 < quantity y → (y, quantity y) ∈ picks
  maximal : taken picks = max remaining 0 ∨
    ∀ y ∈ offers, admits y = true → 0 < quantity y → (y, quantity y) ∈ picks

omit [DecidableRel better] [Std.Total better] [IsTrans α better] in
theorem Fair.nodup_map {β : Type} {picks : List (α × ℚ)} (fair : Fair better quantity admits remaining offers picks)
    (name : α → β) (distinct : (offers.map name).Nodup) : (picks.map fun pick => name pick.1).Nodup := by
  obtain ⟨names, perm, inside⟩ := fair.once
  have named := (perm.map name).nodup_iff.mp (distinct.sublist (inside.map name))
  rw [List.map_map] at named
  exact named

theorem sweep_fair (downward : Downward better admits) (remaining : ℚ) (offers : List α) :
    Fair better quantity admits remaining offers (sweep quantity admits remaining (offers.insertionSort better)) := by
  have sorted := List.pairwise_insertionSort better offers
  have refl : ∀ x, better x x := fun x => (Std.Total.total x x).elim id id
  have member : ∀ {y}, y ∈ offers.insertionSort better ↔ y ∈ offers := List.mem_insertionSort better
  constructor
  · rintro ⟨x, q⟩ inside
    obtain ⟨listed, facts⟩ := mem_sweep inside
    exact ⟨member.mp listed, facts⟩
  · exact taken_le
  · exact sweep_sublist.subperm.trans (List.perm_insertionSort better offers).subperm
  · exact sorted.sublist sweep_sublist
  · rintro ⟨x, q⟩ inside y listed strict worth
    exact sweep_priority sorted refl inside (member.mpr listed) strict worth
  · by_cases reached : remaining ≤ taken (sweep quantity admits remaining (offers.insertionSort better))
    · refine .inl (le_antisymm taken_le (max_le reached taken_nonneg))
    · refine .inr fun y listed good worth => ?_
      exact (sweep_maximal sorted downward (member.mpr listed) good worth).resolve_left reached

theorem sweep_sort_perm {xs ys : List α} (perm : xs.Perm ys)
    (untied : ∀ x ∈ xs, ∀ y ∈ xs, better x y → better y x → x = y) :
    sweep quantity admits remaining (xs.insertionSort better) = sweep quantity admits remaining (ys.insertionSort better) := by
  -- the result depends neither on the order of the offers nor on those that are not admitted
  rw [sort_perm perm untied]

theorem sweep_sort_filter {xs : List α} (downward : Downward better admits)
    (untied : ∀ x ∈ xs, ∀ y ∈ xs, better x y → better y x → x = y) :
    sweep quantity admits remaining ((xs.filter admits).insertionSort better) =
      sweep quantity admits remaining (xs.insertionSort better) := by
  rw [sort_filter admits untied, sweep_filter (List.pairwise_insertionSort better xs) downward]

end Sorting

end Sweep

import VerdictVaut.Shared.Sums

set_option autoImplicit false

/-! Totals by key, in the order in which the keys first appear. -/

namespace Tally

open Relational

variable {K : Type} [DecidableEq K]

def add (key : K) (amount : ℚ) : List (K × ℚ) → List (K × ℚ)
  | [] => [(key, amount)]
  | (other, total) :: rest =>
    if other = key then (other, total + amount) :: rest else (other, total) :: add key amount rest

def tally (entries : List (K × ℚ)) : List (K × ℚ) :=
  entries.foldl (fun totals entry => add entry.1 entry.2 totals) []

def totalOf (key : K) (entries : List (K × ℚ)) : ℚ :=
  sumWhere (fun entry => decide (entry.1 = key)) Prod.snd entries

def weigh (weight : K → ℚ) (entries : List (K × ℚ)) : ℚ := (entries.map fun entry => weight entry.1 * entry.2).sum

variable {key k : K} {amount total : ℚ} {totals entries : List (K × ℚ)}

theorem add_keys : (add key amount totals).map Prod.fst =
    if key ∈ totals.map Prod.fst then totals.map Prod.fst else totals.map Prod.fst ++ [key] := by
  induction totals with
  | nil => simp [add]
  | cons head rest ih =>
    obtain ⟨other, total⟩ := head
    by_cases same : other = key
    · simp [add, same]
    · have apart : key ≠ other := Ne.symm same
      simp only [add, if_neg same, List.map_cons, ih, List.mem_cons, apart, false_or]
      split
      · rfl
      · rfl

theorem add_total : totalOf k (add key amount totals) = totalOf k totals + if key = k then amount else 0 := by
  induction totals with
  | nil => simp [add, totalOf, share]
  | cons head rest ih =>
    obtain ⟨other, total⟩ := head
    simp only [totalOf] at ih
    by_cases same : other = key
    · subst same
      by_cases mine : other = k
      · simp [add, totalOf, share, mine]
        ring
      · simp [add, totalOf, share, mine]
    · simp only [add, if_neg same, totalOf, sumWhere_cons, ih]
      ring

theorem add_weigh (weight : K → ℚ) : weigh weight (add key amount totals) = weigh weight totals + weight key * amount := by
  induction totals with
  | nil => simp [add, weigh]
  | cons head rest ih =>
    obtain ⟨other, total⟩ := head
    simp only [weigh] at ih
    by_cases same : other = key
    · subst same
      simp only [add, eq_self, if_true, weigh, List.map_cons, List.sum_cons]
      ring
    · simp only [add, if_neg same, weigh, List.map_cons, List.sum_cons, ih]
      ring

-- the fold from any totals: the induction is over the entries that are left
theorem foldl_nodup (distinct : (totals.map Prod.fst).Nodup) (entries : List (K × ℚ)) :
    ((entries.foldl (fun totals entry => add entry.1 entry.2 totals) totals).map Prod.fst).Nodup := by
  induction entries generalizing totals with
  | nil => exact distinct
  | cons head rest ih =>
    apply ih
    rw [add_keys]
    split
    next => exact distinct
    next absent => exact List.nodup_append.mpr ⟨distinct, List.nodup_singleton _, by
      rintro a inside b single rfl
      rw [List.mem_singleton.mp single] at inside
      exact absent inside⟩

theorem foldl_total (entries : List (K × ℚ)) :
    totalOf k (entries.foldl (fun totals entry => add entry.1 entry.2 totals) totals) =
      totalOf k totals + totalOf k entries := by
  induction entries generalizing totals with
  | nil => simp [totalOf]
  | cons head rest ih =>
    rw [List.foldl_cons, ih, add_total]
    simp only [totalOf, sumWhere_cons, share, decide_eq_true_eq]
    ring

theorem foldl_weigh (weight : K → ℚ) (entries : List (K × ℚ)) :
    weigh weight (entries.foldl (fun totals entry => add entry.1 entry.2 totals) totals) =
      weigh weight totals + weigh weight entries := by
  induction entries generalizing totals with
  | nil => simp [weigh]
  | cons head rest ih =>
    rw [List.foldl_cons, ih, add_weigh]
    simp only [weigh, List.map_cons, List.sum_cons]
    ring

theorem mem_foldl_keys (entries : List (K × ℚ)) :
    k ∈ (entries.foldl (fun totals entry => add entry.1 entry.2 totals) totals).map Prod.fst ↔
      k ∈ totals.map Prod.fst ∨ k ∈ entries.map Prod.fst := by
  induction entries generalizing totals with
  | nil => simp
  | cons head rest ih =>
    rw [List.foldl_cons, ih, add_keys, List.map_cons, List.mem_cons]
    split
    next present =>
      constructor
      · rintro (old | later)
        · exact .inl old
        · exact .inr (.inr later)
      · rintro (old | rfl | later)
        · exact .inl old
        · exact .inl present
        · exact .inr later
    next =>
      rw [List.mem_append, List.mem_singleton]
      exact or_assoc

theorem tally_nodup (entries : List (K × ℚ)) : ((tally entries).map Prod.fst).Nodup :=
  @foldl_nodup K _ [] List.nodup_nil entries

theorem tally_weigh (weight : K → ℚ) (entries : List (K × ℚ)) : weigh weight (tally entries) = weigh weight entries := by
  have whole := @foldl_weigh K _ [] weight entries
  rw [show weigh weight ([] : List (K × ℚ)) = 0 from rfl, zero_add] at whole
  exact whole

theorem totalOf_of_mem (distinct : (totals.map Prod.fst).Nodup) (member : (k, total) ∈ totals) :
    totalOf k totals = total := by
  -- in a list without repeated keys the total of a key is the one that is listed
  induction totals with
  | nil => simp at member
  | cons head rest ih =>
    rw [List.map_cons, List.nodup_cons] at distinct
    simp only [totalOf, sumWhere_cons] at ih ⊢
    rcases List.mem_cons.mp member with rfl | later
    · have nothing : sumWhere (fun entry => decide (entry.1 = k)) Prod.snd rest = 0 := by
        apply sumWhere_eq_zero
        intro entry inside
        have other : entry.1 ≠ k := by
          rintro rfl
          exact distinct.1 (List.mem_map.mpr ⟨entry, inside, rfl⟩)
        simp [share, other]
      simp [nothing, share]
    · have other : head.1 ≠ k := by
        rintro rfl
        exact distinct.1 (List.mem_map.mpr ⟨_, later, rfl⟩)
      rw [ih distinct.2 later]
      simp [share, other]

theorem mem_tally : (k, total) ∈ tally entries ↔ k ∈ entries.map Prod.fst ∧ total = totalOf k entries := by
  have totals : totalOf k (tally entries) = totalOf k entries := by
    have whole := @foldl_total K _ k [] entries
    rw [show totalOf k ([] : List (K × ℚ)) = 0 from rfl, zero_add] at whole
    exact whole
  have keys : k ∈ (tally entries).map Prod.fst ↔ k ∈ entries.map Prod.fst := by
    have either := @mem_foldl_keys K _ k [] entries
    simpa [tally] using either
  constructor
  · intro member
    refine ⟨keys.mp (List.mem_map_of_mem member), ?_⟩
    rw [← totals, totalOf_of_mem (tally_nodup entries) member]
  · rintro ⟨occurs, rfl⟩
    obtain ⟨⟨k', total⟩, member, rfl⟩ := List.mem_map.mp (keys.mpr occurs)
    rw [← totals, totalOf_of_mem (tally_nodup entries) member]
    exact member

end Tally

import Mathlib.Algebra.Order.Group.Basic
import Mathlib.Data.List.Pairwise

set_option autoImplicit false

/-! Leases that are granted one after the other, each until it is given back or has gone stale. -/

namespace Leases

variable {Holder Instant : Type} [DecidableEq Holder] [AddCommGroup Instant] [LinearOrder Instant]
  [IsOrderedAddMonoid Instant]

structure Grant (Holder Instant : Type) where
  holder : Holder
  since : Instant
  released : Bool
  deriving DecidableEq

structure Terms (Instant : Type) where
  minInterval : Instant
  staleAfter : Instant

/-- The next grant, after these with the latest first: not too soon, and only when the latest is given back or stale. -/
def Terms.Admits (terms : Terms Instant) (grants : List (Grant Holder Instant)) (now : Instant) : Prop :=
  ∀ last ∈ grants.head?, last.since + terms.minInterval ≤ now ∧
    (last.released = true ∨ last.since + terms.staleAfter < now)

def release (holder : Holder) : List (Grant Holder Instant) → List (Grant Holder Instant)
  -- only the holder of the latest grant can give it back
  | [] => []
  | last :: earlier => if last.holder = holder then { last with released := true } :: earlier else last :: earlier

def current (holder : Holder) (grants : List (Grant Holder Instant)) : Option (Grant Holder Instant) :=
  grants.find? fun grant => grant.holder = holder

def Terms.Follows (terms : Terms Instant) (later earlier : Grant Holder Instant) : Prop :=
  earlier.since + terms.minInterval ≤ later.since ∧
    (earlier.released = true ∨ earlier.since + terms.staleAfter < later.since)

def Terms.Kept (terms : Terms Instant) (grants : List (Grant Holder Instant)) : Prop :=
  grants.Pairwise terms.Follows

section Current

variable {holder other : Holder} {now : Instant} {grants : List (Grant Holder Instant)} {grant : Grant Holder Instant}

omit [AddCommGroup Instant] [LinearOrder Instant] [IsOrderedAddMonoid Instant]

theorem current_mem (held : current holder grants = some grant) : grant ∈ grants ∧ grant.holder = holder := by
  constructor
  next => exact List.mem_of_find?_eq_some held
  next => simpa using List.find?_some held

@[simp] theorem current_granted (holder : Holder) (now : Instant) (grants : List (Grant Holder Instant)) :
    current holder (⟨holder, now, false⟩ :: grants) = some ⟨holder, now, false⟩ := by
  simp [current]

theorem current_granted_other (ne : other ≠ holder) :
    current holder (⟨other, now, false⟩ :: grants) = current holder grants := by
  simp [current, ne]

theorem current_release_other (ne : other ≠ holder) : current holder (release other grants) = current holder grants := by
  cases grants with
  | nil => rfl
  | cons last earlier =>
    rw [release]
    split
    next mine =>
      have theirs : last.holder ≠ holder := by
        rw [mine]
        exact ne
      simp [current, theirs]
    next => rfl

theorem current_released (held : current holder grants = some grant) :
    ∃ released, current holder (release holder grants) = some { grant with released := released } := by
  cases grants with
  | nil => simp [current] at held
  | cons last earlier =>
    by_cases mine : last.holder = holder
    next =>
      have same : last = grant := by simpa [current, mine] using held
      subst same
      rw [release, if_pos mine]
      exact ⟨true, by simp [current, mine]⟩
    next =>
      rw [release, if_neg mine]
      exact ⟨grant.released, held⟩

theorem current_head (held : current holder grants = some grant) (latest : ∀ last ∈ grants.head?, last.holder = holder) :
    grants.head? = some grant := by
  cases grants with
  | nil => simp [current] at held
  | cons last earlier =>
    have mine : last.holder = holder := latest last rfl
    simpa [current, mine] using held

end Current

section Kept

variable {terms : Terms Instant} {holder : Holder} {now : Instant} {grants : List (Grant Holder Instant)}
  {grant last : Grant Holder Instant}

omit [DecidableEq Holder] in
theorem Terms.Kept.granted (kept : terms.Kept grants) (spaced : 0 ≤ terms.minInterval)
    (admits : terms.Admits grants now) : terms.Kept (⟨holder, now, false⟩ :: grants) := by
  apply List.Pairwise.cons _ kept
  intro earlier member
  cases grants with
  | nil => simp at member
  | cons last rest =>
    obtain ⟨due, free⟩ := admits last rfl
    rcases List.mem_cons.mp member with rfl | deeper
    next => exact ⟨due, free⟩
    next =>
      -- the latest grant follows every one before it, and the new one comes no sooner than the latest
      obtain ⟨apart, free⟩ := List.rel_of_pairwise_cons kept deeper
      have after : last.since ≤ now := le_trans (le_add_of_nonneg_right spaced) due
      exact ⟨le_trans apart after, free.imp_right fun stale => lt_of_lt_of_le stale after⟩

omit [IsOrderedAddMonoid Instant] in
theorem Terms.Kept.released (kept : terms.Kept grants) : terms.Kept (release holder grants) := by
  cases grants with
  | nil => exact kept
  | cons last earlier =>
    rw [release]
    split
    next =>
      have parts := List.pairwise_cons.mp kept
      exact List.pairwise_cons.mpr parts
    next => exact kept

omit [DecidableEq Holder] [IsOrderedAddMonoid Instant] in
theorem Terms.Kept.apart (kept : terms.Kept grants) {one two : Grant Holder Instant} (first : one ∈ grants)
    (second : two ∈ grants) (distinct : one ≠ two) (open₁ : one.released = false) (open₂ : two.released = false) :
    one.since + terms.staleAfter < two.since ∨ two.since + terms.staleAfter < one.since := by
  -- of two grants that have not been given back, one was made after the other had gone stale
  have related : terms.Follows one two ∨ terms.Follows two one := by
    have either : grants.Pairwise fun later earlier => terms.Follows later earlier ∨ terms.Follows earlier later :=
      List.Pairwise.imp Or.inl kept
    have : Std.Symm fun later earlier : Grant Holder Instant => terms.Follows later earlier ∨ terms.Follows earlier later :=
      ⟨fun _ _ => Or.symm⟩
    exact either.forall first second distinct
  rcases related with follows | follows
  next => exact .inr (follows.2.resolve_left (by simp [open₂]))
  next => exact .inl (follows.2.resolve_left (by simp [open₁]))

omit [IsOrderedAddMonoid Instant] in
theorem Terms.Kept.current (kept : terms.Kept grants) (held : Leases.current holder grants = some grant)
    (unreleased : grant.released = false) :
    grants.head? = some grant ∨ ∃ last, grants.head? = some last ∧ grant.since + terms.staleAfter < last.since := by
  -- a grant that has not been given back is the latest, or the latest was made after it had gone stale
  cases grants with
  | nil => simp [Leases.current] at held
  | cons last earlier =>
    rcases List.mem_cons.mp (current_mem held).1 with rfl | deeper
    next => exact .inl rfl
    next =>
      have follows := List.rel_of_pairwise_cons kept deeper
      exact .inr ⟨last, rfl, follows.2.resolve_left (by simp [unreleased])⟩

end Kept

end Leases

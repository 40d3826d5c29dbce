import Mathlib.Logic.Relation

set_option autoImplicit false

namespace Relational

variable {State Action : Type}

inductive Reachable (start : State → Prop) (step : State → Action → State) : State → Prop
  -- the states that some sequence of actions leads to from a starting state
  | refl {s : State} (initial : start s) : Reachable start step s
  | tail {s : State} (earlier : Reachable start step s) (a : Action) : Reachable start step (step s a)

theorem Reachable.invariant {start : State → Prop} {step : State → Action → State}
    (I : State → Prop) (initial : ∀ s, start s → I s)
    (kept : ∀ s a, Reachable start step s → I s → I (step s a)) {s : State}
    (reached : Reachable start step s) : I s := by
  induction reached with
  | refl started => exact initial _ started
  | tail earlier a ih => exact kept _ a earlier ih

theorem Reachable.foldl {start : State → Prop} {step : State → Action → State} {s : State}
    (reached : Reachable start step s) (actions : List Action) :
    Reachable start step (actions.foldl step s) := by
  induction actions generalizing s with
  | nil => exact reached
  | cons a rest ih => exact ih (reached.tail a)

theorem foldl_turns {step : State → Action → State} {P : State → Prop} {s : State} {actions : List Action} (before : ¬ P s)
    (after : P (actions.foldl step s)) : ∃ earlier a later, actions = earlier ++ a :: later ∧
      ¬ P (earlier.foldl step s) ∧ P (step (earlier.foldl step s) a) := by
  -- what does not hold at the start of a run and holds at its end was brought about by one of its actions
  induction actions generalizing s with
  | nil => exact absurd after before
  | cons a rest ih =>
    by_cases now : P (step s a)
    next => exact ⟨[], a, rest, rfl, before, now⟩
    next =>
      obtain ⟨earlier, b, later, rfl, still, turned⟩ := ih now after
      exact ⟨a :: earlier, b, later, rfl, still, turned⟩

inductive Guarded (start : State → Prop) (guard : State → Action → Prop) (step : State → Action → State) : State → Prop
  -- the same, by actions that each satisfy a condition in the state where they happen
  | refl {s : State} (initial : start s) : Guarded start guard step s
  | tail {s : State} (earlier : Guarded start guard step s) (a : Action) (allowed : guard s a) :
      Guarded start guard step (step s a)

def Allowed (guard : State → Action → Prop) (step : State → Action → State) : State → List Action → Prop
  -- each of these actions, one after the other, satisfies the condition where it happens
  | _, [] => True
  | s, a :: rest => guard s a ∧ Allowed guard step (step s a) rest

instance instDecidableAllowed {guard : State → Action → Prop} {step : State → Action → State} [∀ s a, Decidable (guard s a)] :
    ∀ (s : State) (actions : List Action), Decidable (Allowed guard step s actions)
  | _, [] => inferInstanceAs (Decidable True)
  | s, a :: rest =>
    have : Decidable (Allowed guard step (step s a) rest) := instDecidableAllowed (step s a) rest
    inferInstanceAs (Decidable (guard s a ∧ Allowed guard step (step s a) rest))

theorem allowed_append {guard : State → Action → Prop} {step : State → Action → State} {s : State}
    {earlier later : List Action} : Allowed guard step s (earlier ++ later) ↔
      Allowed guard step s earlier ∧ Allowed guard step (earlier.foldl step s) later := by
  induction earlier generalizing s with
  | nil => simp [Allowed]
  | cons a rest ih => simp [Allowed, ih, and_assoc]

theorem Allowed.append_left {guard : State → Action → Prop} {step : State → Action → State} {s : State}
    {earlier later : List Action} (allowed : Allowed guard step s (earlier ++ later)) :
    Allowed guard step s earlier :=
  (allowed_append.mp allowed).1

theorem Allowed.mono {guard weaker : State → Action → Prop} {step : State → Action → State}
    (le : ∀ s a, guard s a → weaker s a) {s : State} {actions : List Action} (allowed : Allowed guard step s actions) :
    Allowed weaker step s actions := by
  induction actions generalizing s with
  | nil => trivial
  | cons a rest ih => exact ⟨le s a allowed.1, ih allowed.2⟩

theorem Guarded.foldl {start : State → Prop} {guard : State → Action → Prop} {step : State → Action → State}
    {s : State} (guarded : Guarded start guard step s) (actions : List Action) (allowed : Allowed guard step s actions) :
    Guarded start guard step (actions.foldl step s) := by
  induction actions generalizing s with
  | nil => exact guarded
  | cons a rest ih => exact ih (guarded.tail a allowed.1) allowed.2

theorem Guarded.invariant {start : State → Prop} {guard : State → Action → Prop} {step : State → Action → State}
    (I : State → Prop) (initial : ∀ s, start s → I s)
    (kept : ∀ s a, Guarded start guard step s → guard s a → I s → I (step s a)) {s : State}
    (guarded : Guarded start guard step s) : I s := by
  induction guarded with
  | refl started => exact initial _ started
  | tail earlier a allowed ih => exact kept _ a earlier allowed ih

end Relational

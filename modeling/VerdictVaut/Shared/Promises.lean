import Mathlib.Logic.Function.Basic
import Mathlib.Data.List.Basic

set_option autoImplicit false

-- promises as a heap of pending reactions, with the queue of the jobs that the event loop runs
namespace Promises

variable {I C V : Type}

inductive Outcome (V : Type)
  | fulfilled (value : V)
  | rejected (reason : V)
  deriving DecidableEq

/-- What `promise.then(onFulfilled, onRejected)` registers; `derived` is the promise that it returns. -/
structure Reaction (I C : Type) where
  onFulfilled : Option C
  onRejected : Option C
  derived : I
  deriving DecidableEq

/-- A job of the microtask queue: a reaction to a settled promise, or the adoption of the state of a promise that another
one was resolved with. -/
inductive Job (I C V : Type)
  | react (reaction : Reaction I C) (outcome : Outcome V)
  | adopt (promise target : I)
  deriving DecidableEq

inductive Promise (I C V : Type)
  | pending (reactions : List (Reaction I C))
  | settled (outcome : Outcome V)
  deriving DecidableEq

structure Loop (I C V : Type) where
  heap : I → Promise I C V
  jobs : List (Job I C V)

namespace Loop

variable [DecidableEq I]

/-- `promise.then`: on a settled promise the reaction is queued at once. -/
def react (l : Loop I C V) (i : I) (reaction : Reaction I C) : Loop I C V :=
  match l.heap i with
  | .pending reactions => { l with heap := Function.update l.heap i (.pending (reactions ++ [reaction])) }
  | .settled outcome => { l with jobs := l.jobs ++ [.react reaction outcome] }

def settle (l : Loop I C V) (i : I) (outcome : Outcome V) : Loop I C V :=
  -- the first settling counts; it queues the reactions in the order of their registration
  match l.heap i with
  | .pending reactions =>
    { heap := Function.update l.heap i (.settled outcome)
      jobs := l.jobs ++ reactions.map fun reaction => .react reaction outcome }
  | .settled _ => l

def resolveWith (l : Loop I C V) (target promise : I) : Loop I C V :=
  -- resolving a promise with another promise takes a job of its own
  { l with jobs := l.jobs ++ [.adopt promise target] }

def link (target : I) : Reaction I C where
  -- the reaction that hands on an outcome as it is
  onFulfilled := none
  onRejected := none
  derived := target

section Effects

variable {l : Loop I C V} {i j : I} {reaction : Reaction I C} {reactions : List (Reaction I C)} {outcome : Outcome V}

theorem react_pending (pending : l.heap i = .pending reactions) :
    l.react i reaction = { l with heap := Function.update l.heap i (.pending (reactions ++ [reaction])) } := by
  simp only [react, pending]

theorem react_settled (settled : l.heap i = .settled outcome) :
    l.react i reaction = { l with jobs := l.jobs ++ [.react reaction outcome] } := by
  simp only [react, settled]

theorem settle_pending (pending : l.heap i = .pending reactions) : l.settle i outcome =
    { heap := Function.update l.heap i (.settled outcome)
      jobs := l.jobs ++ reactions.map fun reaction => .react reaction outcome } := by
  simp only [settle, pending]

theorem settle_heap_of_ne (different : j ≠ i) : (l.settle i outcome).heap j = l.heap j := by
  unfold settle
  split
  · exact Function.update_of_ne different _ _
  · rfl

theorem settle_heap_self : ∃ outcome', (l.settle i outcome).heap i = .settled outcome' := by
  unfold settle
  split
  next => exact ⟨outcome, Function.update_self ..⟩
  next outcome' settled => exact ⟨outcome', settled⟩

theorem settle_jobs_eq (none : ∀ reactions, l.heap i = .pending reactions → reactions = []) :
    (l.settle i outcome).jobs = l.jobs := by
  unfold settle
  split
  next reactions pending =>
    rw [none reactions pending]
    exact List.append_nil _
  next => rfl

theorem react_jobs (l : Loop I C V) (i : I) (reaction : Reaction I C) : ∃ new, (l.react i reaction).jobs = l.jobs ++ new := by
  unfold react
  split
  · exact ⟨[], (List.append_nil _).symm⟩
  · exact ⟨_, rfl⟩

theorem settle_jobs (l : Loop I C V) (i : I) (outcome : Outcome V) : ∃ new, (l.settle i outcome).jobs = l.jobs ++ new := by
  unfold settle
  split
  · exact ⟨_, rfl⟩
  · exact ⟨[], (List.append_nil _).symm⟩

end Effects

end Loop

end Promises

import Mathlib.Tactic
import VerdictVaut.Shared.Runs

set_option autoImplicit false

/-! Calls that run a transaction and retry it, against one store that many of them share. The store is not described
here: what is asked of it is that the transactions that have committed can be put in a serial order, and that some errors
are reported for transactions only that were rolled back. -/

namespace Retry

open Relational

variable {State Error Value : Type}

inductive Phase (Error Value : Type)
  | idle (attempt : Nat)
  | attempting (attempt : Nat)
  -- the commit has taken effect and the call has not heard of it
  | committed (attempt : Nat) (value : Value)
  | returned (value : Value)
  | threw (attempt : Nat) (error : Error)

structure Policy (State Error Value : Type) where
  -- what the calls are: a body each, and when to try again
  body : Nat → State → Except Error (Value × State)
  retryable : Error → Bool
  maxAttempts : Nat
  -- for a call that may make no attempt at all
  exhausted : Error

structure System (State Error Value : Type) where
  store : State
  phase : Nat → Phase Error Value
  committed : List (Nat × Value)

inductive Event (State Error Value : Type)
  | start (call : Nat)
  | commit (call : Nat) (value : Value) (store : State)
  | reply (call : Nat)
  -- the transaction is rolled back, with this error
  | fail (call : Nat) (error : Error)
  -- the reply to the commit does not arrive, and this error does
  | lose (call : Nat) (error : Error)

namespace Policy

variable (policy : Policy State Error Value)

def initially (store : State) : System State Error Value where
  store := store
  phase _ := if 1 ≤ policy.maxAttempts then .idle 1 else .threw 0 policy.exhausted
  committed := []

def caught (attempt : Nat) (error : Error) : Phase Error Value :=
  if policy.retryable error && decide (attempt < policy.maxAttempts) then .idle (attempt + 1) else .threw attempt error

def step (s : System State Error Value) : Event State Error Value → System State Error Value
  | .start call =>
    match s.phase call with
    | .idle attempt => { s with phase := Function.update s.phase call (.attempting attempt) }
    | _ => s
  | .commit call value store =>
    match s.phase call with
    | .attempting attempt =>
      { store := store
        phase := Function.update s.phase call (.committed attempt value)
        committed := s.committed ++ [(call, value)] }
    | _ => s
  | .reply call =>
    match s.phase call with
    | .committed _ value => { s with phase := Function.update s.phase call (.returned value) }
    | _ => s
  | .fail call error =>
    match s.phase call with
    | .attempting attempt => { s with phase := Function.update s.phase call (policy.caught attempt error) }
    | _ => s
  | .lose call error =>
    match s.phase call with
    | .committed attempt _ => { s with phase := Function.update s.phase call (policy.caught attempt error) }
    | _ => s

def Serial : State → List (Nat × Value) → State → Prop
  -- the bodies in this order, one after the other, each with the value that it returned
  | store, [], final => final = store
  | store, (call, value) :: rest, final =>
    ∃ next, policy.body call store = .ok (value, next) ∧ Serial next rest final

/-- What the store is documented to do: the committed transactions have a serial order, and a transaction that has
committed is not reported as one that was rolled back. -/
def Documented (rolledBack : Error → Prop) (store : State) : System State Error Value → Event State Error Value → Prop
  | s, .commit call value next =>
    ∃ order, List.Perm order (s.committed ++ [(call, value)]) ∧ policy.Serial store order next
  | _, .lose _ error => ¬ rolledBack error
  | _, _ => True

def Reached (rolledBack : Error → Prop) (store : State) : System State Error Value → Prop :=
  Guarded (fun s => s = policy.initially store) (policy.Documented rolledBack store) policy.step

end Policy

variable {policy : Policy State Error Value} {rolledBack : Error → Prop} {store final : State}
  {s : System State Error Value}

theorem serial_invariant {I : State → Prop} {order : List (Nat × Value)} (serial : policy.Serial store order final)
    (kept : ∀ call store value next, policy.body call store = .ok (value, next) → I store → I next) (start : I store) :
    I final := by
  -- what holds of the store holds along a serial order of bodies that keep it
  induction order generalizing store with
  | nil =>
    obtain rfl : final = store := serial
    exact start
  | cons head rest ih =>
    obtain ⟨middle, first, others⟩ := serial
    exact ih others (kept _ _ _ _ first start)

def Consistent (policy : Policy State Error Value) (rolledBack : Error → Prop) (committed : List (Nat × Value)) (call : Nat) :
    Phase Error Value → Prop
  -- what the phase of a call says of what has committed
  | .idle attempt => 1 ≤ attempt ∧ attempt ≤ policy.maxAttempts ∧ call ∉ committed.map Prod.fst
  | .attempting attempt => 1 ≤ attempt ∧ attempt ≤ policy.maxAttempts ∧ call ∉ committed.map Prod.fst
  | .committed attempt value => 1 ≤ attempt ∧ attempt ≤ policy.maxAttempts ∧ (call, value) ∈ committed
  | .returned value => (call, value) ∈ committed
  | .threw attempt error => (policy.retryable error = true → policy.maxAttempts ≤ attempt) ∧
      (rolledBack error → call ∉ committed.map Prod.fst)

structure AtMostOnce (policy : Policy State Error Value) (rolledBack : Error → Prop) (store : State)
    (s : System State Error Value) : Prop where
  serial : ∃ order, List.Perm order s.committed ∧ policy.Serial store order s.store
  once : (s.committed.map Prod.fst).Nodup
  consistent : ∀ call, Consistent policy rolledBack s.committed call (s.phase call)

theorem Consistent.caught {committed : List (Nat × Value)} {call attempt : Nat} {error : Error} (first : 1 ≤ attempt)
    (again : policy.retryable error = true → call ∉ committed.map Prod.fst)
    (undone : rolledBack error → call ∉ committed.map Prod.fst) :
    Consistent policy rolledBack committed call (policy.caught attempt error) := by
  unfold Policy.caught
  split
  next retried =>
    simp only [Bool.and_eq_true, decide_eq_true_eq] at retried
    exact ⟨by omega, by omega, again retried.1⟩
  next given =>
    simp only [Bool.and_eq_true, decide_eq_true_eq, not_and, not_lt] at given
    exact ⟨given, undone⟩

theorem Consistent.added {committed : List (Nat × Value)} {call other : Nat} {value : Value} {phase : Phase Error Value}
    (consistent : Consistent policy rolledBack committed other phase) (apart : other ≠ call) :
    Consistent policy rolledBack (committed ++ [(call, value)]) other phase := by
  have member : other ∈ (committed ++ [(call, value)]).map Prod.fst ↔ other ∈ committed.map Prod.fst := by
    simp [apart]
  cases phase with
  | idle attempt => exact ⟨consistent.1, consistent.2.1, fun inside => consistent.2.2 (member.mp inside)⟩
  | attempting attempt => exact ⟨consistent.1, consistent.2.1, fun inside => consistent.2.2 (member.mp inside)⟩
  | committed attempt value => exact ⟨consistent.1, consistent.2.1, List.mem_append_left _ consistent.2.2⟩
  | returned value => exact List.mem_append_left _ consistent
  | threw attempt error => exact ⟨consistent.1, fun undone inside => consistent.2 undone (member.mp inside)⟩

theorem AtMostOnce.moved (held : AtMostOnce policy rolledBack store s) {call : Nat} {phase : Phase Error Value}
    (consistent : Consistent policy rolledBack s.committed call phase) :
    AtMostOnce policy rolledBack store { s with phase := Function.update s.phase call phase } := by
  refine ⟨held.serial, held.once, fun other => ?_⟩
  by_cases same : other = call
  next =>
    subst same
    simpa using consistent
  next => simpa [same] using held.consistent other

theorem AtMostOnce.commits (held : AtMostOnce policy rolledBack store s) {call attempt : Nat} {value : Value} {next : State}
    (here : Consistent policy rolledBack s.committed call (.attempting attempt))
    (serial : ∃ order, List.Perm order (s.committed ++ [(call, value)]) ∧ policy.Serial store order next) :
    AtMostOnce policy rolledBack store
      { store := next
        phase := Function.update s.phase call (.committed attempt value)
        committed := s.committed ++ [(call, value)] } := by
  obtain ⟨first, last, absent⟩ := here
  refine ⟨serial, ?_, fun other => ?_⟩
  next =>
    rw [List.map_append, List.nodup_append]
    refine ⟨held.once, List.nodup_singleton _, ?_⟩
    rintro a inside b single rfl
    obtain rfl := List.mem_singleton.mp single
    exact absent inside
  next =>
    dsimp only
    by_cases same : other = call
    next =>
      subst same
      rw [Function.update_self]
      exact ⟨first, last, List.mem_append_right _ (List.mem_singleton_self _)⟩
    next =>
      rw [Function.update_of_ne same]
      exact (held.consistent other).added same

theorem AtMostOnce.step (sound : ∀ error, policy.retryable error = true → rolledBack error)
    (held : AtMostOnce policy rolledBack store s) (event : Event State Error Value)
    (documented : policy.Documented rolledBack store s event) :
    AtMostOnce policy rolledBack store (policy.step s event) := by
  cases event with
  | start call =>
    have before := held.consistent call
    simp only [Policy.step]
    split
    next attempt phase =>
      rw [phase] at before
      exact held.moved before
    next => exact held
  | commit call value next =>
    have before := held.consistent call
    simp only [Policy.step]
    split
    next attempt phase =>
      rw [phase] at before
      exact held.commits before documented
    next => exact held
  | reply call =>
    have before := held.consistent call
    simp only [Policy.step]
    split
    next attempt value phase =>
      rw [phase] at before
      exact held.moved before.2.2
    next => exact held
  | fail call error =>
    have before := held.consistent call
    simp only [Policy.step]
    split
    next attempt phase =>
      rw [phase] at before
      exact held.moved (.caught before.1 (fun _ => before.2.2) fun _ => before.2.2)
    next => exact held
  | lose call error =>
    have before := held.consistent call
    simp only [Policy.step]
    split
    next attempt value phase =>
      rw [phase] at before
      -- what is reported after a commit is not an error that asks for another attempt
      have kept : ¬ rolledBack error := documented
      exact held.moved (.caught before.1 (fun again => absurd (sound error again) kept) fun undone => absurd undone kept)
    next => exact held

theorem Policy.Reached.atMostOnce (sound : ∀ error, policy.retryable error = true → rolledBack error)
    (reached : policy.Reached rolledBack store s) : AtMostOnce policy rolledBack store s := by
  induction reached with
  | refl initial =>
    rw [initial]
    refine ⟨⟨[], .refl _, rfl⟩, List.nodup_nil, fun call => ?_⟩
    simp only [Policy.initially]
    split
    next enough => exact ⟨le_rfl, enough, by simp⟩
    next few => exact ⟨fun _ => by omega, fun _ => by simp⟩
  | tail earlier event allowed ih => exact ih.step sound event allowed

def Event.call : Event State Error Value → Nat
  | .start call | .commit call _ _ | .reply call | .fail call _ | .lose call _ => call

def Policy.left (policy : Policy State Error Value) : Phase Error Value → Nat
  -- how many more events a call can take part in
  | .idle attempt => 3 * (policy.maxAttempts - attempt) + 3
  | .attempting attempt => 3 * (policy.maxAttempts - attempt) + 2
  | .committed attempt _ => 3 * (policy.maxAttempts - attempt) + 1
  | .returned _ | .threw _ _ => 0

theorem Policy.left_caught (attempt : Nat) (error : Error) :
    policy.left (policy.caught attempt error : Phase Error Value) < 3 * (policy.maxAttempts - attempt) + 1 := by
  unfold Policy.caught
  split
  next again =>
    simp only [Bool.and_eq_true, decide_eq_true_eq] at again
    simp only [Policy.left]
    omega
  next => simp [Policy.left]

theorem Policy.step_nearer (s : System State Error Value) (event : Event State Error Value) : policy.step s event = s ∨
    (policy.left ((policy.step s event).phase event.call) < policy.left (s.phase event.call) ∧
      ∀ other, other ≠ event.call → (policy.step s event).phase other = s.phase other) := by
  -- an event changes nothing, or brings its own call nearer to its end and no other call anywhere
  cases event with
  | start call =>
    simp only [Policy.step, Event.call]
    split
    next attempt phase =>
      refine .inr ⟨?_, fun other apart => by simp [apart]⟩
      simp [phase, Policy.left]
    next => exact .inl rfl
  | commit call value next =>
    simp only [Policy.step, Event.call]
    split
    next attempt phase =>
      refine .inr ⟨?_, fun other apart => by simp [apart]⟩
      simp [phase, Policy.left]
    next => exact .inl rfl
  | reply call =>
    simp only [Policy.step, Event.call]
    split
    next attempt value phase =>
      refine .inr ⟨?_, fun other apart => by simp [apart]⟩
      simp [phase, Policy.left]
    next => exact .inl rfl
  | fail call error =>
    simp only [Policy.step, Event.call]
    split
    next attempt phase =>
      refine .inr ⟨?_, fun other apart => by simp [apart]⟩
      have nearer := @Policy.left_caught _ _ _ policy attempt error
      simp only [phase, Function.update_self]
      exact nearer.trans (Nat.lt_succ_self _)
    next => exact .inl rfl
  | lose call error =>
    simp only [Policy.step, Event.call]
    split
    next attempt value phase =>
      refine .inr ⟨?_, fun other apart => by simp [apart]⟩
      have nearer := @Policy.left_caught _ _ _ policy attempt error
      simp only [phase, Function.update_self]
      exact nearer
    next => exact .inl rfl

open Classical in
noncomputable def Policy.moves (policy : Policy State Error Value) (call : Nat) :
    System State Error Value → List (Event State Error Value) → Nat
  -- the events of a run in which a call moves on
  | _, [] => 0
  | s, event :: rest =>
    (if event.call = call ∧ policy.step s event ≠ s then 1 else 0) + policy.moves call (policy.step s event) rest

theorem Policy.moves_le (call : Nat) (events : List (Event State Error Value)) (s : System State Error Value) :
    policy.moves call s events ≤ policy.left (s.phase call) := by
  induction events generalizing s with
  | nil => exact Nat.zero_le _
  | cons event rest ih =>
    have later := ih (policy.step s event)
    simp only [Policy.moves]
    rcases policy.step_nearer s event with same | ⟨nearer, others⟩
    · simpa [same] using later
    · by_cases mine : event.call = call
      · subst mine
        split <;> omega
      · rw [others call (Ne.symm mine)] at later
        simpa [mine] using later

end Retry

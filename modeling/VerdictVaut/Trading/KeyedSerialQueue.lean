import VerdictVaut.Shared.Promises

set_option autoImplicit false

namespace VerdictVaut.KeyedSerialQueue

open Promises

variable {Key V : Type} [DecidableEq Key] [Inhabited V]

/-- The promises of the queue: `Promise.resolve()`, and for each call of `run` its result, its tail, what the clean-up's
`then` returns, and the promise that its task returns. -/
inductive Pid
  | resolved
  | result (call : Nat)
  | tail (call : Nat)
  | cleanup (call : Nat)
  | own (call : Nat)
  deriving DecidableEq

/-- The functions that `run` passes to `then` and to `catch`. -/
inductive Callback (Key : Type)
  | task (call : Nat)
  | ignore
  | cleanup (key : Key) (call : Nat)
  deriving DecidableEq

/-- How far the task of a call is; the promise that it returns settles later, or has settled before. -/
inductive Task (V : Type)
  | waiting
  | executing
  | pending
  | settled (outcome : Outcome V)
  deriving DecidableEq

structure Queue (Key V : Type) where
  tails : Key → Option Pid
  calls : List Key
  tasks : Nat → Task V
  loop : Loop Pid (Callback Key) V

def initial : Queue Key V where
  tails _ := none
  calls := []
  tasks _ := .waiting
  loop :=
    { heap := Function.update (fun _ => .pending []) .resolved (.settled (.fulfilled default))
      jobs := [] }

/-- `previous.then(task, task)` -/
def startReaction (call : Nat) : Reaction Pid (Callback Key) where
  onFulfilled := some (.task call)
  onRejected := some (.task call)
  derived := .result call

/-- `result.catch(() => undefined)` -/
def tailReaction (call : Nat) : Reaction Pid (Callback Key) where
  onFulfilled := none
  onRejected := some .ignore
  derived := .tail call

/-- `tail.then(() => { ... })` -/
def cleanupReaction (key : Key) (call : Nat) : Reaction Pid (Callback Key) where
  onFulfilled := some (.cleanup key call)
  onRejected := none
  derived := .cleanup call

def run (q : Queue Key V) (key : Key) : Queue Key V :=
  let call := q.calls.length
  let previous := (q.tails key).getD .resolved
  let loop := q.loop.react previous (startReaction call)
  let loop := loop.react (.result call) (tailReaction call)
  let tails := Function.update q.tails key (some (.tail call))
  let loop := loop.react (.tail call) (cleanupReaction key call)
  { q with tails := tails, calls := q.calls ++ [key], loop := loop }

/-- What a callback does, and what becomes of the promise that its `then` returned. -/
def callback (q : Queue Key V) (derived : Pid) : Callback Key → Queue Key V
  | .task call => { q with tasks := Function.update q.tasks call .executing }
  | .ignore => { q with loop := q.loop.settle derived (.fulfilled default) }
  | .cleanup key call =>
    { q with
      tails := if q.tails key = some (.tail call) then Function.update q.tails key none else q.tails
      loop := q.loop.settle derived (.fulfilled default) }

def fire (q : Queue Key V) : Queue Key V :=
  match q.loop.jobs with
  | [] => q
  | .adopt promise target :: rest => { q with loop := { q.loop with jobs := rest }.react promise (Loop.link target) }
  | .react reaction outcome :: rest =>
    let q := { q with loop := { q.loop with jobs := rest } }
    let handler :=
      match outcome with
      | .fulfilled _ => reaction.onFulfilled
      | .rejected _ => reaction.onRejected
    match handler with
    | none => { q with loop := q.loop.settle reaction.derived outcome }
    | some c => callback q reaction.derived c

def returns (q : Queue Key V) (call : Nat) (own : Option (Outcome V)) : Queue Key V :=
  -- the called task returns a promise, which is pending or settled
  match q.tasks call, own with
  | .executing, none =>
    { q with
      tasks := Function.update q.tasks call .pending
      loop := q.loop.resolveWith (.result call) (.own call) }
  | .executing, some outcome =>
    { q with
      tasks := Function.update q.tasks call (.settled outcome)
      loop := (q.loop.settle (.own call) outcome).resolveWith (.result call) (.own call) }
  | _, _ => q

def throws (q : Queue Key V) (call : Nat) (reason : V) : Queue Key V :=
  match q.tasks call with
  | .executing =>
    { q with
      tasks := Function.update q.tasks call (.settled (.rejected reason))
      loop := q.loop.settle (.result call) (.rejected reason) }
  | _ => q

def settles (q : Queue Key V) (call : Nat) (outcome : Outcome V) : Queue Key V :=
  -- the promise that the task has returned settles
  match q.tasks call with
  | .pending =>
    { q with
      tasks := Function.update q.tasks call (.settled outcome)
      loop := q.loop.settle (.own call) outcome }
  | _ => q

inductive Action (Key V : Type)
  | run (key : Key)
  | fire
  | returns (call : Nat) (own : Option (Outcome V))
  | throws (call : Nat) (reason : V)
  | settles (call : Nat) (outcome : Outcome V)

def step (q : Queue Key V) : Action Key V → Queue Key V
  | .run key => run q key
  | .fire => fire q
  | .returns call own => returns q call own
  | .throws call reason => throws q call reason
  | .settles call outcome => settles q call outcome

def trace (actions : Nat → Action Key V) : Nat → Queue Key V
  -- the state after so many of the actions; the actions are in any order
  | 0 => initial
  | n + 1 => step (trace actions n) (actions n)

section Stages

inductive Stage (V : Type)
  -- how far a call is, from waiting for its predecessor to the end of its clean-up
  | idle
  | executing
  | returned (own : Option (Outcome V))
  | adopted
  | adopting (outcome : Outcome V)
  | settled (outcome : Outcome V)
  | finished (outcome : Outcome V)
  | cleaned (outcome : Outcome V)

namespace Stage

def task : Stage V → Task V
  | .idle => .waiting
  | .executing => .executing
  | .returned none | .adopted => .pending
  | .returned (some outcome) | .adopting outcome | .settled outcome | .finished outcome | .cleaned outcome => .settled outcome

def own (call : Nat) : Stage V → Option (Promise Pid (Callback Key) V)
  -- the state of the promise that the task has returned, while the queue still depends on it
  | .idle | .executing | .returned none => some (.pending [])
  | .returned (some outcome) => some (.settled outcome)
  | .adopted => some (.pending [Loop.link (.result call)])
  | _ => none

def result : Stage V → Option (Outcome V)
  | .settled outcome | .finished outcome | .cleaned outcome => some outcome
  | _ => none

def quiet : Outcome V → Outcome V
  -- a tail swallows the reason of a rejection
  | .fulfilled value => .fulfilled value
  | .rejected _ => .fulfilled default

def tail : Stage V → Option (Outcome V)
  | .finished outcome | .cleaned outcome => some (quiet outcome)
  | _ => none

def Cleaned : Stage V → Prop
  | .cleaned _ => True
  | _ => False

end Stage

variable (calls : List Key) (stage : Nat → Stage V)

def Before (p r : Nat) : Prop :=
  -- the call before this one on the same key
  p < r ∧ r < calls.length ∧ calls[p]? = calls[r]? ∧ ∀ q, q < r → p < q → calls[q]? ≠ calls[r]?

instance (p r : Nat) : Decidable (Before calls p r) := inferInstanceAs (Decidable (_ ∧ _))

def Last (key : Key) (r : Nat) : Prop :=
  calls[r]? = some key ∧ ∀ q, r < q → calls[q]? ≠ some key

def Ready (r : Nat) : Prop :=
  r < calls.length ∧ stage r = .idle ∧ ∀ p, Before calls p r → (stage p).tail ≠ none

inductive Awaits (r : Nat) : Job Pid (Callback Key) V → Prop
  -- the job that has to run for a call to get on
  | start (outcome : Outcome V) (ready : Ready calls stage r) : Awaits r (.react (startReaction r) outcome)
  | adopt (own : Option (Outcome V)) (at_ : stage r = .returned own) : Awaits r (.adopt (.own r) (.result r))
  | deliver (outcome : Outcome V) (at_ : stage r = .adopting outcome) : Awaits r (.react (Loop.link (.result r)) outcome)
  | tail (outcome : Outcome V) (at_ : stage r = .settled outcome) : Awaits r (.react (tailReaction r) outcome)
  | cleanup (key : Key) (outcome : Outcome V) (at_ : stage r = .finished outcome) (named : calls[r]? = some key) :
      Awaits r (.react (cleanupReaction key r) (Stage.quiet outcome))

def Pid.call : Pid → Nat
  | .resolved => 0
  | .result call | .tail call | .cleanup call | .own call => call

def owner : Job Pid (Callback Key) V → Nat
  | .react reaction _ => reaction.derived.call
  | .adopt _ target => target.call

def next (r : Nat) : List Nat :=
  (List.range calls.length).filter fun q => decide (Before calls r q)

def tailReactions (r : Nat) : List (Reaction Pid (Callback Key)) :=
  -- what waits for a tail: its own clean-up, and the task of the next call
  match calls[r]? with
  | some key => cleanupReaction key r :: (next calls r).map startReaction
  | none => []

structure Matches (q : Queue Key V) (stage : Nat → Stage V) : Prop where
  -- the promises and the jobs are those of calls that are this far
  beyond : ∀ r, q.calls.length ≤ r → stage r = .idle
  tasks : ∀ r, q.tasks r = (stage r).task
  resolved : ∃ outcome, q.loop.heap .resolved = .settled outcome
  own : ∀ r promise, (stage r).own r = some promise → q.loop.heap (.own r) = promise
  cleanup : ∀ r reactions, q.loop.heap (.cleanup r) = .pending reactions → reactions = []
  resultSettled : ∀ r outcome, (stage r).result = some outcome → q.loop.heap (.result r) = .settled outcome
  resultPending : ∀ r, (stage r).result = none →
    q.loop.heap (.result r) = .pending (if r < q.calls.length then [tailReaction r] else [])
  tailSettled : ∀ r outcome, (stage r).tail = some outcome → q.loop.heap (.tail r) = .settled outcome
  tailPending : ∀ r, (stage r).tail = none → q.loop.heap (.tail r) = .pending (tailReactions q.calls r)
  order : ∀ p r, Before q.calls p r → stage r ≠ .idle → (stage p).tail ≠ none
  sound : ∀ j ∈ q.loop.jobs, Awaits q.calls stage (owner j) j
  complete : ∀ r j, Awaits q.calls stage r j → ∃ j' ∈ q.loop.jobs, owner j' = r
  single : (q.loop.jobs.map owner).Nodup
  entry : ∀ key i, q.tails key = some i ↔ ∃ r, i = .tail r ∧ Last q.calls key r ∧ ¬ (stage r).Cleaned

end Stages

section Moves

variable {calls : List Key} {stage : Nat → Stage V} {p r : Nat} {j : Job Pid (Callback Key) V} {q q' : Queue Key V}

theorem mem_next {r' : Nat} : r' ∈ next calls r ↔ Before calls r r' := by
  simp only [next, List.mem_filter, List.mem_range, decide_eq_true_eq, and_iff_right_iff_imp]
  exact fun before => before.2.1

theorem next_nodup : (next calls r).Nodup := List.nodup_range.filter _

omit [DecidableEq Key] in
theorem Awaits.owner (awaits : Awaits calls stage r j) : owner j = r := by
  cases awaits <;> rfl

omit [DecidableEq Key] in
theorem Awaits.moved {y : Stage V} {r' : Nat} (awaits : Awaits calls stage r' j) (other : r' ≠ r)
    (done : (stage r).tail ≠ none → y.tail ≠ none) : Awaits calls (Function.update stage r y) r' j := by
  have same : Function.update stage r y r' = stage r' := Function.update_of_ne other y stage
  cases awaits with
  | start outcome ready =>
    refine .start outcome ⟨ready.1, same.trans ready.2.1, fun p before => ?_⟩
    have finished := ready.2.2 p before
    by_cases mine : p = r
    · subst mine
      rw [Function.update_self]
      exact done finished
    · rwa [Function.update_of_ne mine]
  | adopt own at_ => exact .adopt own (same.trans at_)
  | deliver outcome at_ => exact .deliver outcome (same.trans at_)
  | tail outcome at_ => exact .tail outcome (same.trans at_)
  | cleanup key outcome at_ named => exact .cleanup key outcome (same.trans at_) named

omit [DecidableEq Key] in
theorem Awaits.of_moved {y : Stage V} {r' : Nat} (awaits : Awaits calls (Function.update stage r y) r' j) (other : r' ≠ r)
    (unchanged : Before calls r r' → y.tail ≠ none → (stage r).tail ≠ none) : Awaits calls stage r' j := by
  have same : Function.update stage r y r' = stage r' := Function.update_of_ne other y stage
  cases awaits with
  | start outcome ready =>
    refine .start outcome ⟨ready.1, same.symm.trans ready.2.1, fun p before => ?_⟩
    have finished := ready.2.2 p before
    by_cases mine : p = r
    · subst mine
      rw [Function.update_self] at finished
      exact unchanged before finished
    · rwa [Function.update_of_ne mine] at finished
  | adopt own at_ => exact .adopt own (same.symm.trans at_)
  | deliver outcome at_ => exact .deliver outcome (same.symm.trans at_)
  | tail outcome at_ => exact .tail outcome (same.symm.trans at_)
  | cleanup key outcome at_ named => exact .cleanup key outcome (same.symm.trans at_) named

/-- One call gets to another stage: its own promises and its own job change, and nothing else, except that a call that is
done lets the next one start. -/
structure Advance (q q' : Queue Key V) (stage : Nat → Stage V) (r : Nat) (y : Stage V)
    (rest new : List (Job Pid (Callback Key) V)) : Prop where
  inside : r < q.calls.length
  calls : q'.calls = q.calls
  tasks : ∀ r', q'.tasks r' = if r' = r then y.task else q.tasks r'
  heap : ∀ i, i ≠ .own r → i ≠ .result r → i ≠ .tail r → i ≠ .cleanup r → q'.loop.heap i = q.loop.heap i
  own : ∀ promise, y.own r = some promise → q'.loop.heap (.own r) = promise
  cleanup : ∀ reactions, q'.loop.heap (.cleanup r) = .pending reactions → reactions = []
  result : q'.loop.heap (.result r) = match y.result with
    | some outcome => .settled outcome
    | none => .pending [tailReaction r]
  tail : q'.loop.heap (.tail r) = match y.tail with
    | some outcome => .settled outcome
    | none => .pending (tailReactions q.calls r)
  order : ∀ p, Before q.calls p r → (stage p).tail ≠ none
  done : (stage r).tail ≠ none → y.tail ≠ none
  jobs : q'.loop.jobs.Perm (rest ++ new)
  others : ∀ j, j ∈ rest ↔ j ∈ q.loop.jobs ∧ owner j ≠ r
  single : (rest.map owner).Nodup
  newSound : ∀ j ∈ new, Awaits q.calls (Function.update stage r y) (owner j) j
  newSingle : (new.map owner).Nodup
  newApart : ∀ j ∈ new, owner j = r ∨ Before q.calls r (owner j) ∧ (stage r).tail = none
  newOwn : ∀ j, Awaits q.calls (Function.update stage r y) r j → ∃ j' ∈ new, owner j' = r
  newNext : (stage r).tail = none → y.tail ≠ none → ∀ r', Before q.calls r r' → ∃ j ∈ new, owner j = r'
  entry : ∀ key i, q'.tails key = some i ↔
    ∃ c, i = .tail c ∧ Last q.calls key c ∧ ¬ (Function.update stage r y c).Cleaned

/-- A call is only this far if the calls before it are done, and a call that is done stays so. -/
theorem Matches.moved_order (m : Matches q stage) {y : Stage V} {rest new : List (Job Pid (Callback Key) V)}
    (a : Advance q q' stage r y rest new) {p r' : Nat} (before : Before q'.calls p r')
    (busy : Function.update stage r y r' ≠ .idle) : (Function.update stage r y p).tail ≠ none := by
  rw [a.calls] at before
  have finished : (stage p).tail ≠ none := by
    by_cases same : r' = r
    · subst same
      exact a.order p before
    · rw [Function.update_of_ne same] at busy
      exact m.order p r' before busy
  by_cases mine : p = r
  · subst mine
    rw [Function.update_self]
    exact a.done finished
  · rwa [Function.update_of_ne mine]

theorem Matches.moved_complete (m : Matches q stage) {y : Stage V} {rest new : List (Job Pid (Callback Key) V)}
    (a : Advance q q' stage r y rest new) {r' : Nat} {j : Job Pid (Callback Key) V}
    (awaits : Awaits q'.calls (Function.update stage r y) r' j) : ∃ j' ∈ q'.loop.jobs, owner j' = r' := by
  rw [a.calls] at awaits
  by_cases same : r' = r
  · subst same
    obtain ⟨j', member, mine⟩ := a.newOwn j awaits
    exact ⟨j', a.jobs.mem_iff.mpr (List.mem_append_right _ member), mine⟩
  · by_cases opened : (stage r).tail = none ∧ y.tail ≠ none ∧ Before q.calls r r'
    · obtain ⟨j', member, mine⟩ := a.newNext opened.1 opened.2.1 r' opened.2.2
      exact ⟨j', a.jobs.mem_iff.mpr (List.mem_append_right _ member), mine⟩
    · have old := awaits.of_moved same fun before finished still => opened ⟨still, finished, before⟩
      obtain ⟨j', queued, mine⟩ := m.complete r' j old
      have kept : j' ∈ rest := (a.others j').mpr ⟨queued, by rw [mine]; exact same⟩
      exact ⟨j', a.jobs.mem_iff.mpr (List.mem_append_left _ kept), mine⟩

theorem Matches.moved_single (m : Matches q stage) {y : Stage V} {rest new : List (Job Pid (Callback Key) V)}
    (a : Advance q q' stage r y rest new) : (q'.loop.jobs.map owner).Nodup := by
  rw [(a.jobs.map owner).nodup_iff, List.map_append]
  refine List.nodup_append.mpr ⟨a.single, a.newSingle, ?_⟩
  intro _ before _ after same
  obtain ⟨j, old, rfl⟩ := List.mem_map.mp before
  obtain ⟨j', fresh, rfl⟩ := List.mem_map.mp after
  obtain ⟨queued, other⟩ := (a.others j).mp old
  rcases a.newApart j' fresh with mine | ⟨follows, open_⟩
  · exact other (same.trans mine)
  · -- the next call has had no job: it was not ready, and it has not started
    have awaits := m.sound j queued
    rw [same] at awaits
    have waiting : stage (owner j') = .idle := by
      by_contra busy
      exact m.order r _ follows busy open_
    cases awaits with
    | start outcome ready => exact ready.2.2 r follows open_
    | adopt own at_ => rw [waiting] at at_; cases at_
    | deliver outcome at_ => rw [waiting] at at_; cases at_
    | tail outcome at_ => rw [waiting] at at_; cases at_
    | cleanup key outcome at_ named => rw [waiting] at at_; cases at_

theorem Matches.moved (m : Matches q stage) {y : Stage V} {rest new : List (Job Pid (Callback Key) V)}
    (a : Advance q q' stage r y rest new) : Matches q' (Function.update stage r y) := by
  have elsewhere : ∀ r', r' ≠ r → Function.update stage r y r' = stage r' := fun r' other => Function.update_of_ne other y stage
  constructor
  case beyond =>
    intro r' outside
    rw [a.calls] at outside
    have inside := a.inside
    rw [elsewhere r' (by omega)]
    exact m.beyond r' outside
  case tasks =>
    intro r'
    rw [a.tasks]
    by_cases same : r' = r
    · rw [if_pos same, same, Function.update_self]
    · rw [if_neg same, elsewhere r' same, m.tasks]
  case resolved =>
    rw [a.heap .resolved (by simp) (by simp) (by simp) (by simp)]
    exact m.resolved
  case own =>
    intro r' promise holds
    by_cases same : r' = r
    · subst same
      rw [Function.update_self] at holds
      exact a.own promise holds
    · rw [elsewhere r' same] at holds
      rw [a.heap _ (by simpa using same) (by simp) (by simp) (by simp)]
      exact m.own r' promise holds
  case cleanup =>
    intro r' reactions pending
    by_cases same : r' = r
    · subst same
      exact a.cleanup reactions pending
    · rw [a.heap _ (by simp) (by simp) (by simp) (by simpa using same)] at pending
      exact m.cleanup r' reactions pending
  case resultSettled =>
    intro r' outcome settled
    by_cases same : r' = r
    · subst same
      rw [Function.update_self] at settled
      rw [a.result, settled]
    · rw [elsewhere r' same] at settled
      rw [a.heap _ (by simp) (by simpa using same) (by simp) (by simp)]
      exact m.resultSettled r' outcome settled
  case resultPending =>
    intro r' pending
    rw [a.calls]
    by_cases same : r' = r
    · subst same
      rw [Function.update_self] at pending
      rw [a.result, pending, if_pos a.inside]
    · rw [elsewhere r' same] at pending
      rw [a.heap _ (by simp) (by simpa using same) (by simp) (by simp)]
      exact m.resultPending r' pending
  case tailSettled =>
    intro r' outcome settled
    by_cases same : r' = r
    · subst same
      rw [Function.update_self] at settled
      rw [a.tail, settled]
    · rw [elsewhere r' same] at settled
      rw [a.heap _ (by simp) (by simp) (by simpa using same) (by simp)]
      exact m.tailSettled r' outcome settled
  case tailPending =>
    intro r' pending
    rw [a.calls]
    by_cases same : r' = r
    · subst same
      rw [Function.update_self] at pending
      rw [a.tail, pending]
    · rw [elsewhere r' same] at pending
      rw [a.heap _ (by simp) (by simp) (by simpa using same) (by simp)]
      exact m.tailPending r' pending
  case order => exact fun p r' before busy => m.moved_order a before busy
  case sound =>
    intro j member
    rw [a.calls]
    rcases List.mem_append.mp (a.jobs.mem_iff.mp member) with old | fresh
    · obtain ⟨queued, other⟩ := (a.others j).mp old
      exact (m.sound j queued).moved other a.done
    · exact a.newSound j fresh
  case complete => exact fun r' j awaits => m.moved_complete a awaits
  case single => exact m.moved_single a
  case entry =>
    intro key i
    rw [a.calls]
    exact a.entry key i

theorem Matches.result_pending (m : Matches q stage) (inside : r < q.calls.length) (pending : (stage r).result = none) :
    q.loop.heap (.result r) = .pending [tailReaction r] := by
  rw [m.resultPending r pending, if_pos inside]

theorem Matches.entry_at (m : Matches q stage) {y : Stage V} (was : ¬ (stage r).Cleaned) (still : ¬ y.Cleaned) (key : Key)
    (i : Pid) : q.tails key = some i ↔ ∃ c, i = .tail c ∧ Last q.calls key c ∧ ¬ (Function.update stage r y c).Cleaned := by
  rw [m.entry]
  refine exists_congr fun c => and_congr_right fun _ => and_congr_right fun _ => not_congr ?_
  by_cases same : c = r
  · subst same
    rw [Function.update_self]
    exact iff_of_false was still
  · rw [Function.update_of_ne same]

theorem Matches.inside (m : Matches q stage) (busy : stage r ≠ .idle) : r < q.calls.length := by
  by_contra outside
  exact busy (m.beyond r (Nat.le_of_not_lt outside))

theorem Matches.no_job (m : Matches q stage) (none : ∀ j, ¬ Awaits q.calls stage r j) : ∀ j ∈ q.loop.jobs, owner j ≠ r := by
  rintro j queued rfl
  exact none j (m.sound j queued)

theorem Matches.others (m : Matches q stage) {rest : List (Job Pid (Callback Key) V)} (taken : q.loop.jobs = j :: rest) :
    (∀ j', j' ∈ rest ↔ j' ∈ q.loop.jobs ∧ owner j' ≠ owner j) ∧ (rest.map owner).Nodup := by
  have single := m.single
  rw [taken, List.map_cons, List.nodup_cons] at single
  refine ⟨fun j' => ?_, single.2⟩
  rw [taken, List.mem_cons]
  constructor
  · intro member
    refine ⟨.inr member, fun same => single.1 ?_⟩
    rw [← same]
    exact List.mem_map_of_mem member
  · rintro ⟨rfl | member, other⟩
    · exact absurd rfl other
    · exact member

omit [Inhabited V] in
theorem task_executing {x : Stage V} (executing : x.task = .executing) : x = .executing := by
  cases x with
  | executing => rfl
  | returned own => cases own <;> cases executing
  | _ => cases executing

omit [Inhabited V] in
theorem task_pending {x : Stage V} (pending : x.task = .pending) : x = .returned none ∨ x = .adopted := by
  cases x with
  | adopted => exact .inr rfl
  | returned own =>
    cases own with
    | none => exact .inl rfl
    | some outcome => cases pending
  | _ => cases pending

end Moves

section Tasks

variable {stage : Nat → Stage V} {r : Nat} {q : Queue Key V}

structure Getting (q : Queue Key V) (loop : Loop Pid (Callback Key) V) (stage : Nat → Stage V) (r : Nat) (y : Stage V)
    (rest new : List (Job Pid (Callback Key) V)) : Prop where
  -- a call that is not done gets to another stage where it is not done
  inside : r < q.calls.length
  order : ∀ p, Before q.calls p r → (stage p).tail ≠ none
  open_ : (stage r).tail = none
  still : y.tail = none
  heap : ∀ i, i ≠ .own r → i ≠ .result r → loop.heap i = q.loop.heap i
  own : ∀ promise, y.own r = some promise → loop.heap (.own r) = promise
  result : loop.heap (.result r) = match y.result with
    | some outcome => .settled outcome
    | none => .pending [tailReaction r]
  jobs : loop.jobs.Perm (rest ++ new)
  others : ∀ j, j ∈ rest ↔ j ∈ q.loop.jobs ∧ owner j ≠ r
  single : (rest.map owner).Nodup
  newSound : ∀ j ∈ new, Awaits q.calls (Function.update stage r y) r j
  newSingle : (new.map owner).Nodup
  newOwn : ∀ j, Awaits q.calls (Function.update stage r y) r j → ∃ j' ∈ new, owner j' = r

theorem not_cleaned {x : Stage V} (open_ : x.tail = none) : ¬ x.Cleaned := by
  cases x with
  | cleaned outcome => cases open_
  | _ => exact id

theorem Matches.getting (m : Matches q stage) {loop : Loop Pid (Callback Key) V} {y : Stage V}
    {rest new : List (Job Pid (Callback Key) V)} (g : Getting q loop stage r y rest new) :
    Matches { q with tasks := Function.update q.tasks r y.task, loop := loop } (Function.update stage r y) := by
  refine m.moved (?_ : Advance _ _ _ _ _ rest new)
  exact
    { inside := g.inside
      calls := rfl
      tasks := fun r' => Function.update_apply ..
      heap := fun i own result _ _ => g.heap i own result
      own := g.own
      cleanup := by
        intro reactions pending
        rw [g.heap _ (by simp) (by simp)] at pending
        exact m.cleanup r reactions pending
      result := g.result
      tail := by
        rw [g.heap _ (by simp) (by simp), g.still]
        exact m.tailPending r g.open_
      order := g.order
      done := fun done => absurd g.open_ done
      jobs := g.jobs
      others := g.others
      single := g.single
      newSound := by
        intro j member
        have awaits := g.newSound j member
        rwa [awaits.owner]
      newSingle := g.newSingle
      newApart := fun j member => .inl (g.newSound j member).owner
      newOwn := g.newOwn
      newNext := fun _ done => absurd g.still done
      entry := m.entry_at (not_cleaned g.open_) (not_cleaned g.still) }

theorem Matches.returns (m : Matches q stage) (r : Nat) (own : Option (Outcome V)) :
    ∃ stage', Matches (returns q r own) stage' := by
  have task := m.tasks r
  unfold KeyedSerialQueue.returns
  split
  next executing =>
    have at_ := task_executing (task.symm.trans executing)
    have inside := m.inside (r := r) (by rw [at_]; simp)
    have idle := m.no_job (r := r) fun j awaits => by cases awaits <;> simp_all [Ready]
    refine ⟨_, m.getting (?_ : Getting q _ stage r (.returned none) q.loop.jobs [.adopt (.own r) (.result r)])⟩
    exact
      { inside := inside
        order := fun p before => m.order p r before (by rw [at_]; simp)
        open_ := by rw [at_]; rfl
        still := rfl
        heap := fun i _ _ => rfl
        own := fun promise holds => m.own r promise (by rw [at_]; exact holds)
        result := m.result_pending inside (by rw [at_]; rfl)
        jobs := .refl _
        others := fun j => ⟨fun queued => ⟨queued, idle j queued⟩, And.left⟩
        single := m.single
        newSound := List.forall_mem_singleton.mpr (.adopt none (Function.update_self ..))
        newSingle := by simp
        newOwn := fun j _ => ⟨_, List.mem_singleton_self _, rfl⟩ }
  next outcome executing =>
    have at_ := task_executing (task.symm.trans executing)
    have inside := m.inside (r := r) (by rw [at_]; simp)
    have idle := m.no_job (r := r) fun j awaits => by cases awaits <;> simp_all [Ready]
    have own : q.loop.heap (.own r) = .pending [] := m.own r _ (by rw [at_]; rfl)
    rw [Loop.settle_pending own]
    refine ⟨_, m.getting (?_ : Getting q _ stage r (.returned (some outcome)) q.loop.jobs [.adopt (.own r) (.result r)])⟩
    exact
      { inside := inside
        order := fun p before => m.order p r before (by rw [at_]; simp)
        open_ := by rw [at_]; rfl
        still := rfl
        heap := fun i other _ => Function.update_of_ne other _ _
        own := by
          intro promise holds
          cases holds
          exact Function.update_self ..
        result := m.result_pending inside (by rw [at_]; rfl)
        jobs := by simp [Loop.resolveWith]
        others := fun j => ⟨fun queued => ⟨queued, idle j queued⟩, And.left⟩
        single := m.single
        newSound := List.forall_mem_singleton.mpr (.adopt (some outcome) (Function.update_self ..))
        newSingle := by simp
        newOwn := fun j _ => ⟨_, List.mem_singleton_self _, rfl⟩ }
  next => exact ⟨stage, m⟩

theorem Matches.throws (m : Matches q stage) (r : Nat) (reason : V) : ∃ stage', Matches (throws q r reason) stage' := by
  have task := m.tasks r
  unfold KeyedSerialQueue.throws
  split
  next executing =>
    have at_ := task_executing (task.symm.trans executing)
    have inside := m.inside (r := r) (by rw [at_]; simp)
    have idle := m.no_job (r := r) fun j awaits => by cases awaits <;> simp_all [Ready]
    rw [Loop.settle_pending (m.result_pending inside (by rw [at_]; rfl))]
    refine ⟨_, m.getting (?_ : Getting q _ stage r (.settled (.rejected reason)) q.loop.jobs
      [.react (tailReaction r) (.rejected reason)])⟩
    exact
      { inside := inside
        order := fun p before => m.order p r before (by rw [at_]; simp)
        open_ := by rw [at_]; rfl
        still := rfl
        heap := fun i _ other => Function.update_of_ne other _ _
        own := by
          intro promise holds
          cases holds
        result := Function.update_self ..
        jobs := .refl _
        others := fun j => ⟨fun queued => ⟨queued, idle j queued⟩, And.left⟩
        single := m.single
        newSound := List.forall_mem_singleton.mpr (.tail _ (Function.update_self ..))
        newSingle := by simp
        newOwn := fun j _ => ⟨_, List.mem_singleton_self _, rfl⟩ }
  next => exact ⟨stage, m⟩

theorem Matches.settles (m : Matches q stage) (r : Nat) (outcome : Outcome V) :
    ∃ stage', Matches (settles q r outcome) stage' := by
  have task := m.tasks r
  unfold KeyedSerialQueue.settles
  split
  next pending =>
    rcases task_pending (task.symm.trans pending) with at_ | at_
    · have inside := m.inside (r := r) (by rw [at_]; simp)
      have own : q.loop.heap (.own r) = .pending [] := m.own r _ (by rw [at_]; rfl)
      rw [Loop.settle_pending own]
      -- the adoption is still queued, wherever it is
      refine ⟨_, m.getting (?_ : Getting q _ stage r (.returned (some outcome))
        (q.loop.jobs.filter fun j => !decide (owner j = r)) (q.loop.jobs.filter fun j => decide (owner j = r)))⟩
      exact
        { inside := inside
          order := fun p before => m.order p r before (by rw [at_]; simp)
          open_ := by rw [at_]; rfl
          still := rfl
          heap := fun i other _ => Function.update_of_ne other _ _
          own := by
            intro promise holds
            cases holds
            exact Function.update_self ..
          result := m.result_pending inside (by rw [at_]; rfl)
          jobs := by
            have split := List.filter_append_perm (fun j => decide (owner j = r)) q.loop.jobs
            simpa using split.symm.trans List.perm_append_comm
          others := by simp
          single := m.single.sublist (List.filter_sublist.map owner)
          newSound := by
            intro j member
            obtain ⟨queued, mine⟩ := List.mem_filter.mp member
            have awaits := m.sound j queued
            rw [of_decide_eq_true mine] at awaits
            cases awaits with
            | adopt own still => exact .adopt (some outcome) (Function.update_self ..)
            | start _ ready => exact absurd (ready.2.1.symm.trans at_) (by simp)
            | deliver _ still => exact absurd (still.symm.trans at_) (by simp)
            | tail _ still => exact absurd (still.symm.trans at_) (by simp)
            | cleanup _ _ still => exact absurd (still.symm.trans at_) (by simp)
          newSingle := m.single.sublist (List.filter_sublist.map owner)
          newOwn := by
            intro j _
            obtain ⟨j', queued, mine⟩ := m.complete r _ (.adopt none at_)
            exact ⟨j', List.mem_filter.mpr ⟨queued, decide_eq_true mine⟩, mine⟩ }
    · have inside := m.inside (r := r) (by rw [at_]; simp)
      have idle := m.no_job (r := r) fun j awaits => by cases awaits <;> simp_all [Ready]
      have own : q.loop.heap (.own r) = .pending [Loop.link (.result r)] := m.own r _ (by rw [at_]; rfl)
      rw [Loop.settle_pending own]
      refine ⟨_, m.getting (?_ : Getting q _ stage r (.adopting outcome) q.loop.jobs
        [.react (Loop.link (.result r)) outcome])⟩
      exact
        { inside := inside
          order := fun p before => m.order p r before (by rw [at_]; simp)
          open_ := by rw [at_]; rfl
          still := rfl
          heap := fun i other _ => Function.update_of_ne other _ _
          own := by
            intro promise holds
            cases holds
          result := m.result_pending inside (by rw [at_]; rfl)
          jobs := .refl _
          others := fun j => ⟨fun queued => ⟨queued, idle j queued⟩, And.left⟩
          single := m.single
          newSound := List.forall_mem_singleton.mpr (.deliver _ (Function.update_self ..))
          newSingle := by simp
          newOwn := fun j _ => ⟨_, List.mem_singleton_self _, rfl⟩ }
  next => exact ⟨stage, m⟩

end Tasks

section Firing

variable {stage : Nat → Stage V} {r : Nat} {q : Queue Key V} {rest : List (Job Pid (Callback Key) V)} {outcome : Outcome V}

theorem fire_start (taken : q.loop.jobs = .react (startReaction r) outcome :: rest) :
    fire q = { q with
      tasks := Function.update q.tasks r .executing
      loop := { q.loop with jobs := rest } } := by
  unfold fire
  rw [taken]
  cases outcome <;> rfl

theorem fire_adopt {promise target : Pid} (taken : q.loop.jobs = .adopt promise target :: rest) :
    fire q = { q with loop := { q.loop with jobs := rest }.react promise (Loop.link target) } := by
  unfold fire
  rw [taken]

theorem fire_link {target : Pid} (taken : q.loop.jobs = .react (Loop.link target) outcome :: rest) :
    fire q = { q with loop := { q.loop with jobs := rest }.settle target outcome } := by
  unfold fire
  rw [taken]
  cases outcome <;> rfl

theorem fire_tail (taken : q.loop.jobs = .react (tailReaction r) outcome :: rest) :
    fire q = { q with loop := { q.loop with jobs := rest }.settle (.tail r) (Stage.quiet outcome) } := by
  unfold fire
  rw [taken]
  cases outcome <;> rfl

theorem fire_cleanup {key : Key} (taken : q.loop.jobs = .react (cleanupReaction key r) (Stage.quiet outcome) :: rest) :
    fire q = { q with
      tails := if q.tails key = some (.tail r) then Function.update q.tails key none else q.tails
      loop := { q.loop with jobs := rest }.settle (.cleanup r) (.fulfilled default) } := by
  unfold fire
  rw [taken]
  cases outcome <;> rfl

theorem Matches.tasks_eq (m : Matches q stage) {y : Stage V} (same : y.task = (stage r).task) :
    Function.update q.tasks r y.task = q.tasks := by
  rw [same, ← m.tasks r, Function.update_eq_self]

theorem Matches.fire_started (m : Matches q stage) (taken : q.loop.jobs = .react (startReaction r) outcome :: rest)
    (ready : Ready q.calls stage r) : Matches (fire q) (Function.update stage r .executing) := by
  rw [fire_start taken]
  obtain ⟨others, single⟩ := m.others taken
  refine m.getting (?_ : Getting q _ stage r .executing rest [])
  exact
    { inside := ready.1
      order := ready.2.2
      open_ := by rw [ready.2.1]; rfl
      still := rfl
      heap := fun i _ _ => rfl
      own := fun promise holds => m.own r promise (by rw [ready.2.1]; exact holds)
      result := m.result_pending ready.1 (by rw [ready.2.1]; rfl)
      jobs := by simp
      others := others
      single := single
      newSound := by simp
      newSingle := by simp
      newOwn := by
        intro j awaits
        cases awaits <;> simp_all [Ready] }

theorem Matches.fire_adopted (m : Matches q stage) (taken : q.loop.jobs = .adopt (.own r) (.result r) :: rest)
    (at_ : stage r = .returned none) : Matches (fire q) (Function.update stage r .adopted) := by
  have own : ({ q.loop with jobs := rest } : Loop Pid (Callback Key) V).heap (.own r) = .pending [] :=
    m.own r _ (by rw [at_]; rfl)
  have inside := m.inside (r := r) (by rw [at_]; simp)
  obtain ⟨others, single⟩ := m.others taken
  have got : Matches { q with
      tasks := Function.update q.tasks r (Stage.task .adopted)
      loop := { q.loop with jobs := rest }.react (.own r) (Loop.link (.result r)) } (Function.update stage r .adopted) := by
    rw [Loop.react_pending own]
    refine m.getting (?_ : Getting q _ stage r .adopted rest [])
    exact
      { inside := inside
        order := fun p before => m.order p r before (by rw [at_]; simp)
        open_ := by rw [at_]; rfl
        still := rfl
        heap := fun i other _ => Function.update_of_ne other _ _
        own := by
          intro promise holds
          cases holds
          exact Function.update_self ..
        result := m.result_pending inside (by rw [at_]; rfl)
        jobs := by simp
        others := others
        single := single
        newSound := by simp
        newSingle := by simp
        newOwn := by
          intro j awaits
          cases awaits <;> simp_all [Ready] }
  rw [m.tasks_eq (by rw [at_]; rfl)] at got
  rwa [fire_adopt taken]

theorem Matches.fire_adopting (m : Matches q stage) (taken : q.loop.jobs = .adopt (.own r) (.result r) :: rest)
    (at_ : stage r = .returned (some outcome)) : Matches (fire q) (Function.update stage r (.adopting outcome)) := by
  have own : ({ q.loop with jobs := rest } : Loop Pid (Callback Key) V).heap (.own r) = .settled outcome :=
    m.own r _ (by rw [at_]; rfl)
  have inside := m.inside (r := r) (by rw [at_]; simp)
  obtain ⟨others, single⟩ := m.others taken
  have got : Matches { q with
      tasks := Function.update q.tasks r (Stage.task (.adopting outcome))
      loop := { q.loop with jobs := rest }.react (.own r) (Loop.link (.result r)) }
      (Function.update stage r (.adopting outcome)) := by
    rw [Loop.react_settled own]
    refine m.getting (?_ : Getting q _ stage r (.adopting outcome) rest [.react (Loop.link (.result r)) outcome])
    exact
      { inside := inside
        order := fun p before => m.order p r before (by rw [at_]; simp)
        open_ := by rw [at_]; rfl
        still := rfl
        heap := fun i _ _ => rfl
        own := by
          intro promise holds
          cases holds
        result := m.result_pending inside (by rw [at_]; rfl)
        jobs := .refl _
        others := others
        single := single
        newSound := List.forall_mem_singleton.mpr (.deliver _ (Function.update_self ..))
        newSingle := by simp
        newOwn := fun j _ => ⟨_, List.mem_singleton_self _, rfl⟩ }
  rw [m.tasks_eq (by rw [at_]; rfl)] at got
  rwa [fire_adopt taken]

theorem Matches.fire_delivered (m : Matches q stage) (taken : q.loop.jobs = .react (Loop.link (.result r)) outcome :: rest)
    (at_ : stage r = .adopting outcome) : Matches (fire q) (Function.update stage r (.settled outcome)) := by
  have inside := m.inside (r := r) (by rw [at_]; simp)
  obtain ⟨others, single⟩ := m.others taken
  have got : Matches { q with
      tasks := Function.update q.tasks r (Stage.task (.settled outcome))
      loop := { q.loop with jobs := rest }.settle (.result r) outcome } (Function.update stage r (.settled outcome)) := by
    have result : ({ q.loop with jobs := rest } : Loop Pid (Callback Key) V).heap (.result r) = .pending [tailReaction r] :=
      m.result_pending inside (by rw [at_]; rfl)
    rw [Loop.settle_pending result]
    refine m.getting (?_ : Getting q _ stage r (.settled outcome) rest [.react (tailReaction r) outcome])
    exact
      { inside := inside
        order := fun p before => m.order p r before (by rw [at_]; simp)
        open_ := by rw [at_]; rfl
        still := rfl
        heap := fun i _ other => Function.update_of_ne other _ _
        own := by
          intro promise holds
          cases holds
        result := Function.update_self ..
        jobs := .refl _
        others := others
        single := single
        newSound := List.forall_mem_singleton.mpr (.tail _ (Function.update_self ..))
        newSingle := by simp
        newOwn := fun j _ => ⟨_, List.mem_singleton_self _, rfl⟩ }
  rw [m.tasks_eq (by rw [at_]; rfl)] at got
  rwa [fire_link taken]

omit [DecidableEq Key] in
theorem before_unique {calls : List Key} {a b : Nat} (first : Before calls a r) (second : Before calls b r) : a = b := by
  rcases Nat.lt_trichotomy a b with less | same | greater
  · exact absurd second.2.2.1 (first.2.2.2 b second.1 less)
  · exact same
  · exact absurd first.2.2.1 (second.2.2.2 a first.1 greater)

omit [DecidableEq Key] in
theorem last_unique {calls : List Key} {key : Key} {a b : Nat} (first : Last calls key a) (second : Last calls key b) :
    a = b := by
  rcases Nat.lt_trichotomy a b with less | same | greater
  · exact absurd second.1 (first.2 b less)
  · exact same
  · exact absurd first.1 (second.2 a greater)

theorem Matches.fire_finished (m : Matches q stage) (taken : q.loop.jobs = .react (tailReaction r) outcome :: rest)
    (at_ : stage r = .settled outcome) : Matches (fire q) (Function.update stage r (.finished outcome)) := by
  have inside := m.inside (r := r) (by rw [at_]; simp)
  obtain ⟨key, named⟩ : ∃ key, q.calls[r]? = some key := ⟨_, List.getElem?_eq_getElem inside⟩
  have open_ : (stage r).tail = none := by rw [at_]; rfl
  obtain ⟨others, single⟩ := m.others taken
  have tail : ({ q.loop with jobs := rest } : Loop Pid (Callback Key) V).heap (.tail r) =
      .pending (tailReactions q.calls r) := m.tailPending r open_
  have waits : tailReactions q.calls r = cleanupReaction key r :: (next q.calls r).map startReaction := by
    rw [tailReactions, named]
  have same := m.tasks_eq (r := r) (y := .finished outcome) (by rw [at_]; rfl)
  rw [fire_tail taken, Loop.settle_pending tail]
  refine m.moved (?_ : Advance _ _ _ _ _ rest
    ((tailReactions q.calls r).map fun reaction => .react reaction (Stage.quiet outcome)))
  exact
    { inside := inside
      calls := rfl
      tasks := fun r' => by rw [← Function.update_apply, same]
      heap := fun i _ _ other _ => Function.update_of_ne other _ _
      own := by
        intro promise holds
        cases holds
      cleanup := m.cleanup r
      result := m.resultSettled r outcome (by rw [at_]; rfl)
      tail := Function.update_self ..
      order := fun p before => m.order p r before (by rw [at_]; simp)
      done := by simp [Stage.tail]
      jobs := .refl _
      others := others
      single := single
      newSound := by
        intro j member
        rw [waits] at member
        obtain ⟨reaction, waiting, rfl⟩ := List.mem_map.mp member
        rcases List.mem_cons.mp waiting with rfl | started
        · exact .cleanup key outcome (Function.update_self ..) named
        · obtain ⟨r', listed, rfl⟩ := List.mem_map.mp started
          have before := mem_next.mp listed
          have later : r' ≠ r := Nat.ne_of_gt before.1
          refine @Awaits.start _ _ _ _ _ r' _ ⟨before.2.1, ?_, fun p before' => ?_⟩
          · rw [Function.update_of_ne later]
            by_contra busy
            exact m.order r r' before busy open_
          · rw [before_unique before' before, Function.update_self]
            simp [Stage.tail]
      newSingle := by
        have owners : (((tailReactions q.calls r).map fun reaction => Job.react reaction (Stage.quiet outcome)).map owner) =
            r :: next q.calls r := by
          rw [waits]
          simp only [List.map_cons, List.map_map]
          congr 1
          exact List.map_id _
        rw [owners, List.nodup_cons]
        exact ⟨fun listed => absurd (mem_next.mp listed).1 (Nat.lt_irrefl r), next_nodup⟩
      newApart := by
        intro j member
        rw [waits] at member
        obtain ⟨reaction, waiting, rfl⟩ := List.mem_map.mp member
        rcases List.mem_cons.mp waiting with rfl | started
        · exact .inl rfl
        · obtain ⟨r', listed, rfl⟩ := List.mem_map.mp started
          exact .inr ⟨mem_next.mp listed, open_⟩
      newOwn := fun j _ => ⟨.react (cleanupReaction key r) (Stage.quiet outcome), by simp [waits], rfl⟩
      newNext := fun _ _ r' before => ⟨.react (startReaction r') (Stage.quiet outcome),
        by simp only [waits, List.map_cons, List.map_map, List.mem_cons, List.mem_map]
           exact .inr ⟨r', mem_next.mpr before, rfl⟩, rfl⟩
      entry := m.entry_at (by simp [at_, Stage.Cleaned]) (by simp [Stage.Cleaned]) }

theorem Matches.fire_cleaned (m : Matches q stage) {key : Key}
    (taken : q.loop.jobs = .react (cleanupReaction key r) (Stage.quiet outcome) :: rest)
    (at_ : stage r = .finished outcome) (named : q.calls[r]? = some key) :
    Matches (fire q) (Function.update stage r (.cleaned outcome)) := by
  have inside := m.inside (r := r) (by rw [at_]; simp)
  obtain ⟨others, single⟩ := m.others taken
  have alone : ∀ reactions, ({ q.loop with jobs := rest } : Loop Pid (Callback Key) V).heap (.cleanup r) = .pending reactions →
      reactions = [] := m.cleanup r
  have same := m.tasks_eq (r := r) (y := .cleaned outcome) (by rw [at_]; rfl)
  rw [fire_cleanup taken]
  refine m.moved (?_ : Advance _ _ _ _ _ rest [])
  exact
    { inside := inside
      calls := rfl
      tasks := fun r' => by rw [← Function.update_apply, same]
      heap := fun i _ _ _ other => Loop.settle_heap_of_ne other
      own := by
        intro promise holds
        cases holds
      cleanup := by
        intro reactions pending
        obtain ⟨outcome', settled⟩ := @Loop.settle_heap_self _ _ _ _ { q.loop with jobs := rest } (Pid.cleanup r)
          (.fulfilled default)
        cases settled.symm.trans pending
      result := (Loop.settle_heap_of_ne (by simp)).trans (m.resultSettled r outcome (by rw [at_]; rfl))
      tail := (Loop.settle_heap_of_ne (by simp)).trans (m.tailSettled r _ (by rw [at_]; rfl))
      order := fun p before => m.order p r before (by rw [at_]; simp)
      done := by simp [Stage.tail]
      jobs := by simp [Loop.settle_jobs_eq alone]
      others := others
      single := single
      newSound := by simp
      newSingle := by simp
      newApart := by simp
      newOwn := by
        intro j awaits
        cases awaits <;> simp_all [Ready]
      newNext := fun still => by simp [at_, Stage.tail] at still
      entry := by
        intro key' i
        change (if q.tails key = some (.tail r) then Function.update q.tails key none else q.tails) key' = some i ↔ _
        by_cases mine : q.tails key = some (.tail r)
        · obtain ⟨c, same, last, -⟩ := (m.entry key _).mp mine
          cases same
          rw [if_pos mine]
          by_cases other : key' = key
          · subst other
            rw [Function.update_self]
            refine iff_of_false (by simp) ?_
            rintro ⟨c, -, last', open_⟩
            rw [last_unique last' last, Function.update_self] at open_
            exact open_ trivial
          · rw [Function.update_of_ne other, m.entry]
            refine exists_congr fun c => and_congr_right fun _ => and_congr_right fun last' => ?_
            have apart : c ≠ r := by
              rintro rfl
              exact other (Option.some.inj (last'.1.symm.trans named))
            rw [Function.update_of_ne apart]
        · rw [if_neg mine, m.entry]
          refine exists_congr fun c => and_congr_right fun _ => and_congr_right fun last' => ?_
          by_cases same : c = r
          · -- a later call of the key has its own tail in the map
            subst same
            have found : key' = key := Option.some.inj (last'.1.symm.trans named)
            subst found
            exact absurd ((m.entry key' _).mpr ⟨c, rfl, last', by simp [at_, Stage.Cleaned]⟩) mine
          · rw [Function.update_of_ne same] }

theorem Matches.fire (m : Matches q stage) : ∃ stage', Matches (fire q) stage' := by
  cases taken : q.loop.jobs with
  | nil =>
    have still : KeyedSerialQueue.fire q = q := by
      unfold KeyedSerialQueue.fire
      rw [taken]
    rw [still]
    exact ⟨stage, m⟩
  | cons j rest =>
    have awaits := m.sound j (taken ▸ List.mem_cons_self)
    generalize owner j = r at awaits
    cases awaits with
    | start outcome ready => exact ⟨_, m.fire_started taken ready⟩
    | adopt own at_ =>
      cases own with
      | none => exact ⟨_, m.fire_adopted taken at_⟩
      | some outcome => exact ⟨_, m.fire_adopting taken at_⟩
    | deliver outcome at_ => exact ⟨_, m.fire_delivered taken at_⟩
    | tail outcome at_ => exact ⟨_, m.fire_finished taken at_⟩
    | cleanup key outcome at_ named => exact ⟨_, m.fire_cleaned taken at_ named⟩

end Firing

section Running

variable {calls : List Key} {key : Key} {stage : Nat → Stage V} {q : Queue Key V} {p r : Nat}

omit [DecidableEq Key] in
theorem before_append {more : List Key} (inside : r < calls.length) : Before (calls ++ more) p r ↔ Before calls p r := by
  have kept : ∀ a, a ≤ r → (calls ++ more)[a]? = calls[a]? := fun a least =>
    List.getElem?_append_left (Nat.lt_of_le_of_lt least inside)
  unfold Before
  rw [kept r (Nat.le_refl r), List.length_append]
  constructor
  · rintro ⟨less, -, same, between⟩
    refine ⟨less, inside, by rwa [kept p (Nat.le_of_lt less)] at same, fun a before after => ?_⟩
    rw [← kept a (Nat.le_of_lt before)]
    exact between a before after
  · rintro ⟨less, -, same, between⟩
    refine ⟨less, by omega, by rwa [kept p (Nat.le_of_lt less)], fun a before after => ?_⟩
    rw [kept a (Nat.le_of_lt before)]
    exact between a before after

omit [DecidableEq Key] in
theorem before_new : Before (calls ++ [key]) p calls.length ↔ Last calls key p := by
  have new : (calls ++ [key])[calls.length]? = some key := List.getElem?_concat_length ..
  have kept : ∀ a, a < calls.length → (calls ++ [key])[a]? = calls[a]? := fun a inside =>
    List.getElem?_append_left inside
  unfold Before Last
  rw [new, List.length_append]
  constructor
  · rintro ⟨less, -, same, between⟩
    refine ⟨by rwa [kept p less] at same, fun a after named => ?_⟩
    obtain ⟨inside, -⟩ := List.getElem?_eq_some_iff.mp named
    exact between a inside after (by rwa [kept a inside])
  · rintro ⟨named, later⟩
    obtain ⟨inside, -⟩ := List.getElem?_eq_some_iff.mp named
    refine ⟨inside, by simp, by rwa [kept p inside], fun a before after => ?_⟩
    rw [kept a before]
    exact later a after

omit [DecidableEq Key] in
theorem last_new : Last (calls ++ [key]) key r ↔ r = calls.length := by
  have new : Last (calls ++ [key]) key calls.length := by
    refine ⟨List.getElem?_concat_length .., fun a after named => ?_⟩
    obtain ⟨inside, -⟩ := List.getElem?_eq_some_iff.mp named
    rw [List.length_append, List.length_singleton] at inside
    omega
  constructor
  · exact fun last => last_unique last new
  · rintro rfl
    exact new

omit [DecidableEq Key] in
theorem last_append {key' : Key} (other : key' ≠ key) : Last (calls ++ [key]) key' r ↔ Last calls key' r := by
  have kept : ∀ a : Nat, (calls ++ [key])[a]? = some key' ↔ calls[a]? = some key' := by
    intro a
    rw [List.getElem?_append]
    split
    next => rfl
    next outside =>
      rw [List.getElem?_eq_none (Nat.le_of_not_lt outside), List.getElem?_singleton]
      split
      · exact iff_of_false (fun same => other (Option.some.inj same).symm) (by simp)
      · rfl
  simp only [Last, kept, ne_eq]

theorem next_append : next (calls ++ [key]) r =
    next calls r ++ if Before (calls ++ [key]) r calls.length then [calls.length] else [] := by
  unfold next
  rw [List.length_append, List.length_singleton, List.range_succ, List.filter_append]
  congr 1
  · refine List.filter_congr fun a member => ?_
    exact decide_eq_decide.mpr (before_append (List.mem_range.mp member))
  · rw [List.filter_singleton]
    simp

theorem tailReactions_append (inside : r < calls.length) : tailReactions (calls ++ [key]) r =
    tailReactions calls r ++ if Before (calls ++ [key]) r calls.length then [startReaction calls.length] else [] := by
  unfold tailReactions
  rw [List.getElem?_append_left inside, List.getElem?_eq_getElem inside]
  simp only [next_append, List.map_append, List.cons_append]
  split <;> rfl

theorem tailReactions_new : tailReactions (calls ++ [key]) calls.length = [cleanupReaction key calls.length] := by
  have alone : next (calls ++ [key]) calls.length = [] := by
    refine List.filter_eq_nil_iff.mpr fun a member => ?_
    rw [decide_eq_true_eq]
    intro before
    have bound := before.2.1
    have later := before.1
    rw [List.length_append, List.length_singleton] at bound
    omega
  unfold tailReactions
  rw [List.getElem?_concat_length, alone]
  rfl

theorem tailReactions_beyond (outside : calls.length ≤ r) : tailReactions calls r = [] := by
  unfold tailReactions
  rw [List.getElem?_eq_none outside]

omit [DecidableEq Key] in
theorem awaits_append {j : Job Pid (Callback Key) V} (inside : r < calls.length) :
    Awaits (calls ++ [key]) stage r j ↔ Awaits calls stage r j := by
  have named : (calls ++ [key])[r]? = calls[r]? := List.getElem?_append_left inside
  constructor
  · intro awaits
    cases awaits with
    | start outcome ready =>
      exact .start outcome ⟨inside, ready.2.1, fun p before => ready.2.2 p ((before_append inside).mpr before)⟩
    | adopt own at_ => exact .adopt own at_
    | deliver outcome at_ => exact .deliver outcome at_
    | tail outcome at_ => exact .tail outcome at_
    | cleanup key' outcome at_ is => exact .cleanup key' outcome at_ (named.symm.trans is)
  · intro awaits
    cases awaits with
    | start outcome ready =>
      refine .start outcome ⟨?_, ready.2.1, fun p before => ready.2.2 p ((before_append inside).mp before)⟩
      rw [List.length_append]
      omega
    | adopt own at_ => exact .adopt own at_
    | deliver outcome at_ => exact .deliver outcome at_
    | tail outcome at_ => exact .tail outcome at_
    | cleanup key' outcome at_ is => exact .cleanup key' outcome at_ (named.trans is)

theorem Matches.owner_inside (m : Matches q stage) {j : Job Pid (Callback Key) V} (queued : j ∈ q.loop.jobs) :
    owner j < q.calls.length := by
  have awaits := m.sound j queued
  generalize owner j = r at awaits
  cases awaits with
  | start outcome ready => exact ready.1
  | adopt own at_ => exact m.inside (by rw [at_]; simp)
  | deliver outcome at_ => exact m.inside (by rw [at_]; simp)
  | tail outcome at_ => exact m.inside (by rw [at_]; simp)
  | cleanup key outcome at_ named => exact m.inside (by rw [at_]; simp)

/-- The promise that the new call chains on: it is settled if the call can start, and otherwise it is the tail of the call
before. -/
theorem Matches.previous (m : Matches q stage) (key : Key) :
    (∃ outcome, q.loop.heap ((q.tails key).getD .resolved) = .settled outcome ∧
      ∀ p, Last q.calls key p → (stage p).tail ≠ none) ∨
    ∃ p, (q.tails key).getD .resolved = .tail p ∧ Last q.calls key p ∧ (stage p).tail = none := by
  cases found : q.tails key with
  | none =>
    obtain ⟨outcome, settled⟩ := m.resolved
    refine .inl ⟨outcome, settled, fun p last open_ => ?_⟩
    have entered := (m.entry key (.tail p)).mpr ⟨p, rfl, last, not_cleaned open_⟩
    cases found.symm.trans entered
  | some i =>
    obtain ⟨p, rfl, last, -⟩ := (m.entry key i).mp found
    cases tail : (stage p).tail with
    | none => exact .inr ⟨p, rfl, last, tail⟩
    | some outcome =>
      refine .inl ⟨outcome, m.tailSettled p outcome tail, fun p' last' => ?_⟩
      rw [last_unique last' last, tail]
      simp

structure Called (q : Queue Key V) (stage : Nat → Stage V) (key : Key) (loop : Loop Pid (Callback Key) V)
    (new : List (Job Pid (Callback Key) V)) : Prop where
  -- what the new call leaves in the event loop
  heap : ∀ i, (∀ r, i ≠ .result r) → (∀ r, i ≠ .tail r) → loop.heap i = q.loop.heap i
  results : ∀ r, r ≠ q.calls.length → loop.heap (.result r) = q.loop.heap (.result r)
  result : loop.heap (.result q.calls.length) = .pending [tailReaction q.calls.length]
  tails : ∀ r, r ≠ q.calls.length → (stage r).tail ≠ none → loop.heap (.tail r) = q.loop.heap (.tail r)
  tailReactions : ∀ r, (stage r).tail = none → loop.heap (.tail r) = .pending (tailReactions (q.calls ++ [key]) r)
  jobs : loop.jobs = q.loop.jobs ++ new
  sound : ∀ j ∈ new, Awaits (q.calls ++ [key]) stage q.calls.length j
  complete : ∀ j, Awaits (q.calls ++ [key]) stage q.calls.length j → ∃ j' ∈ new, owner j' = q.calls.length
  single : (new.map owner).Nodup

theorem Matches.called (m : Matches q stage) {loop : Loop Pid (Callback Key) V} {new : List (Job Pid (Callback Key) V)}
    (c : Called q stage key loop new) : Matches { q with
      tails := Function.update q.tails key (some (.tail q.calls.length))
      calls := q.calls ++ [key]
      loop := loop } stage := by
  have idle : stage q.calls.length = .idle := m.beyond _ (Nat.le_refl _)
  constructor
  case beyond =>
    intro r outside
    refine m.beyond r ?_
    simp only [List.length_append] at outside
    omega
  case tasks => exact m.tasks
  case resolved =>
    obtain ⟨outcome, settled⟩ := m.resolved
    exact ⟨outcome, (c.heap _ (by simp) (by simp)).trans settled⟩
  case own => exact fun r promise holds => (c.heap _ (by simp) (by simp)).trans (m.own r promise holds)
  case cleanup =>
    exact fun r reactions pending => m.cleanup r reactions ((c.heap _ (by simp) (by simp)).symm.trans pending)
  case resultSettled =>
    intro r outcome settled
    have old : r ≠ q.calls.length := by
      rintro rfl
      rw [idle] at settled
      cases settled
    exact (c.results r old).trans (m.resultSettled r outcome settled)
  case resultPending =>
    intro r pending
    by_cases new : r = q.calls.length
    · subst new
      simpa using c.result
    · refine (c.results r new).trans ((m.resultPending r pending).trans ?_)
      have same : r < (q.calls ++ [key]).length ↔ r < q.calls.length := by
        simp only [List.length_append, List.length_singleton]
        omega
      simp only [same]
  case tailSettled =>
    intro r outcome settled
    have old : r ≠ q.calls.length := by
      rintro rfl
      rw [idle] at settled
      cases settled
    exact (c.tails r old (by rw [settled]; simp)).trans (m.tailSettled r outcome settled)
  case tailPending => exact c.tailReactions
  case order =>
    intro p r before busy
    exact m.order p r ((before_append (m.inside busy)).mp before) busy
  case sound =>
    intro j queued
    rcases List.mem_append.mp (c.jobs ▸ queued) with old | new
    · exact (awaits_append (m.owner_inside old)).mpr (m.sound j old)
    · have awaits := c.sound j new
      rwa [awaits.owner]
  case complete =>
    intro r j awaits
    by_cases new : r = q.calls.length
    · subst new
      obtain ⟨j', queued, mine⟩ := c.complete j awaits
      exact ⟨j', c.jobs ▸ List.mem_append_right _ queued, mine⟩
    · have inside : r < q.calls.length := by
        by_contra outside
        have stays := m.beyond r (Nat.le_of_not_lt outside)
        cases awaits with
        | start outcome ready =>
          have bound := ready.1
          simp only [List.length_append, List.length_singleton] at bound
          omega
        | adopt own at_ => rw [stays] at at_; cases at_
        | deliver outcome at_ => rw [stays] at at_; cases at_
        | tail outcome at_ => rw [stays] at at_; cases at_
        | cleanup key outcome at_ named => rw [stays] at at_; cases at_
      obtain ⟨j', queued, mine⟩ := m.complete r j ((awaits_append inside).mp awaits)
      exact ⟨j', c.jobs ▸ List.mem_append_left _ queued, mine⟩
  case single =>
    change (loop.jobs.map owner).Nodup
    rw [c.jobs, List.map_append]
    refine List.nodup_append.mpr ⟨m.single, c.single, ?_⟩
    intro _ before _ after same
    obtain ⟨j, old, rfl⟩ := List.mem_map.mp before
    obtain ⟨j', new, rfl⟩ := List.mem_map.mp after
    rw [(c.sound j' new).owner] at same
    exact absurd same (Nat.ne_of_lt (m.owner_inside old))
  case entry =>
    intro key' i
    change Function.update q.tails key (some (.tail q.calls.length)) key' = some i ↔
      ∃ r, i = .tail r ∧ Last (q.calls ++ [key]) key' r ∧ ¬ (stage r).Cleaned
    by_cases same : key' = key
    · subst same
      rw [Function.update_self]
      constructor
      · intro entered
        cases entered
        exact ⟨_, rfl, last_new.mpr rfl, by rw [idle]; exact id⟩
      · rintro ⟨r, rfl, last, -⟩
        rw [last_new.mp last]
    · rw [Function.update_of_ne same, m.entry]
      exact exists_congr fun r => and_congr_right fun _ => and_congr_left fun _ => (last_append same).symm

def reactOwn (l : Loop Pid (Callback Key) V) (key : Key) (n : Nat) : Loop Pid (Callback Key) V :=
  -- the reactions that a call registers on its own promises
  (l.react (.result n) (tailReaction n)).react (.tail n) (cleanupReaction key n)

omit [DecidableEq Key] [Inhabited V] in
theorem reactOwn_eq {l : Loop Pid (Callback Key) V} {n : Nat} (result : l.heap (.result n) = .pending [])
    (tail : l.heap (.tail n) = .pending []) : (reactOwn l key n).jobs = l.jobs ∧ ∀ i, (reactOwn l key n).heap i =
      if i = .tail n then .pending [cleanupReaction key n]
      else if i = .result n then .pending [tailReaction n] else l.heap i := by
  have tail' : (l.react (.result n) (tailReaction n)).heap (.tail n) = .pending [] := by
    rw [Loop.react_pending result]
    simp [tail]
  rw [reactOwn, Loop.react_pending tail', Loop.react_pending result]
  refine ⟨rfl, fun i => ?_⟩
  change Function.update (Function.update l.heap _ _) _ _ i = _
  rw [Function.update_apply, Function.update_apply]
  rfl

theorem Matches.chained (m : Matches q stage) {l : Loop Pid (Callback Key) V} (new : List (Job Pid (Callback Key) V))
    (heap : ∀ i, (∀ r, i ≠ .tail r) → l.heap i = q.loop.heap i)
    (done : ∀ r, (stage r).tail ≠ none → l.heap (.tail r) = q.loop.heap (.tail r))
    (still : ∀ r, (stage r).tail = none → l.heap (.tail r) = .pending (tailReactions q.calls r ++
      if Before (q.calls ++ [key]) r q.calls.length then [startReaction q.calls.length] else []))
    (jobs : l.jobs = q.loop.jobs ++ new)
    (sound : ∀ j ∈ new, Awaits (q.calls ++ [key]) stage q.calls.length j)
    (complete : ∀ j, Awaits (q.calls ++ [key]) stage q.calls.length j → ∃ j' ∈ new, owner j' = q.calls.length)
    (single : (new.map owner).Nodup) : Matches { q with
      tails := Function.update q.tails key (some (.tail q.calls.length))
      calls := q.calls ++ [key]
      loop := reactOwn l key q.calls.length } stage := by
  have idle : stage q.calls.length = .idle := m.beyond _ (Nat.le_refl _)
  have result : l.heap (.result q.calls.length) = .pending [] := by
    rw [heap _ (by simp), m.resultPending q.calls.length (by rw [idle]; rfl), if_neg (Nat.lt_irrefl _)]
  have follows : ∀ {r}, Before (q.calls ++ [key]) r q.calls.length → r < q.calls.length := And.left
  have tail : l.heap (.tail q.calls.length) = .pending [] := by
    rw [still _ (by rw [idle]; rfl), tailReactions_beyond (Nat.le_refl _), if_neg fun before => Nat.lt_irrefl _ (follows before)]
    rfl
  obtain ⟨kept, own⟩ := @reactOwn_eq _ _ key l _ result tail
  refine m.called (?_ : Called q stage key _ new)
  exact
    { heap := by
        intro i results tails
        rw [own, if_neg (tails _), if_neg (results _), heap i tails]
      results := by
        intro r other
        rw [own, if_neg (by simp), if_neg (by simpa using other), heap _ (by simp)]
      result := by rw [own, if_neg (by simp), if_pos rfl]
      tails := by
        intro r other settled
        rw [own, if_neg (by simpa using other), if_neg (by simp), done r settled]
      tailReactions := by
        intro r open_
        rw [own]
        by_cases new : r = q.calls.length
        · rw [new, if_pos rfl, tailReactions_new]
        · rw [if_neg (by simpa using new), if_neg (by simp), still r open_]
          rcases Nat.lt_or_ge r q.calls.length with inside | outside
          · rw [tailReactions_append inside]
          · rw [tailReactions_beyond outside, tailReactions_beyond (by simp; omega),
              if_neg fun before => Nat.lt_irrefl _ (Nat.lt_of_lt_of_le (follows before) outside)]
            rfl
      jobs := kept.trans jobs
      sound := sound
      complete := complete
      single := single }

theorem Matches.run (m : Matches q stage) (key : Key) : Matches (run q key) stage := by
  have idle : stage q.calls.length = .idle := m.beyond _ (Nat.le_refl _)
  change Matches { q with
    tails := Function.update q.tails key (some (.tail q.calls.length))
    calls := q.calls ++ [key]
    loop := reactOwn (q.loop.react ((q.tails key).getD .resolved) (startReaction q.calls.length)) key q.calls.length } stage
  rcases m.previous key with ⟨outcome, settled, done⟩ | ⟨p, previous, last, open_⟩
  · rw [Loop.react_settled settled]
    refine m.chained [.react (startReaction q.calls.length) outcome] (fun i _ => rfl) (fun r _ => rfl) ?_ rfl ?_
      (fun j _ => ⟨_, List.mem_singleton_self _, rfl⟩) (by simp)
    · intro r still
      rw [if_neg fun before => done r (before_new.mp before) still, List.append_nil]
      exact m.tailPending r still
    · exact List.forall_mem_singleton.mpr (.start outcome ⟨by simp, idle, fun p before => done p (before_new.mp before)⟩)
  · rw [previous, Loop.react_pending (m.tailPending p open_)]
    refine m.chained [] (fun i other => Function.update_of_ne (other p) _ _) ?_ ?_ (List.append_nil _).symm
      (by simp) ?_ (by simp)
    · intro r settled
      refine Function.update_of_ne ?_ _ _
      rintro ⟨⟩
      exact settled open_
    · intro r still
      change Function.update _ _ _ _ = _
      by_cases mine : r = p
      · rw [mine, Function.update_self, if_pos (before_new.mpr last)]
      · rw [Function.update_of_ne (by simpa using mine), if_neg fun before => mine (last_unique (before_new.mp before) last),
          List.append_nil]
        exact m.tailPending r still
    · -- the call before is not done
      intro j awaits
      cases awaits with
      | start outcome ready => exact absurd open_ (ready.2.2 p (before_new.mpr last))
      | adopt own at_ => rw [idle] at at_; cases at_
      | deliver outcome at_ => rw [idle] at at_; cases at_
      | tail outcome at_ => rw [idle] at at_; cases at_
      | cleanup key outcome at_ named => rw [idle] at at_; cases at_

theorem Matches.initial : Matches (initial : Queue Key V) fun _ => .idle := by
  have elsewhere : ∀ i, i ≠ .resolved → (KeyedSerialQueue.initial : Queue Key V).loop.heap i = .pending [] := by
    intro i other
    simp [KeyedSerialQueue.initial, other]
  constructor
  case beyond => exact fun _ _ => rfl
  case tasks => exact fun _ => rfl
  case resolved =>
    exact ⟨.fulfilled default, by simp [KeyedSerialQueue.initial]⟩
  case own =>
    intro r promise holds
    cases holds
    exact elsewhere _ (by simp)
  case cleanup =>
    intro r reactions pending
    rw [elsewhere _ (by simp)] at pending
    cases pending
    rfl
  case resultSettled =>
    intro r outcome settled
    cases settled
  case resultPending => exact fun r _ => elsewhere _ (by simp)
  case tailSettled =>
    intro r outcome settled
    cases settled
  case tailPending =>
    intro r _
    rw [elsewhere _ (by simp), tailReactions_beyond (Nat.zero_le r)]
  case order => exact fun p r _ busy => absurd rfl busy
  case sound =>
    intro j queued
    cases queued
  case complete =>
    intro r j awaits
    cases awaits with
    | start outcome ready => exact absurd ready.1 (Nat.not_lt_zero r)
    | adopt own at_ => cases at_
    | deliver outcome at_ => cases at_
    | tail outcome at_ => cases at_
    | cleanup key outcome at_ named => cases at_
  case single => exact List.nodup_nil
  case entry =>
    intro key i
    refine iff_of_false (fun entered => by cases entered) ?_
    rintro ⟨r, -, last, -⟩
    cases last.1

end Running

end VerdictVaut.KeyedSerialQueue

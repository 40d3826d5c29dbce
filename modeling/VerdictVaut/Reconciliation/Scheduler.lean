import Mathlib.Algebra.Order.Group.Int
import Mathlib.Logic.Function.Basic
import VerdictVaut.Shared.Lease
import VerdictVaut.Shared.Runs
import VerdictVaut.Trading.Types

set_option autoImplicit false

namespace VerdictVaut

open Relational

namespace ScheduledJobStateService

/-- The UTF-16 code units that `slice` counts. -/
abbrev Units := List UInt16

structure AcquireJobLeaseOptions where
  workerId : Nat
  minIntervalMs : Int
  staleAfterMs : Int

structure ScheduledJobState where
  lockedAt : Option Time
  lockedBy : Option Nat
  lastStartedAt : Option Time
  lastSuccessAt : Option Time
  lastErrorAt : Option Time
  lastError : Option Units
  lastSummary : Option Units
  deriving DecidableEq

def ScheduledJobState.created : ScheduledJobState :=
  ⟨none, none, none, none, none, none, none⟩

inductive Outcome
  | ok (summary : Option Units)
  | failed (error : Units)

abbrev Rows := String → Option ScheduledJobState

def outcomeFields (row : ScheduledJobState) (outcome : Outcome) (now : Time) : ScheduledJobState :=
  match outcome with
  | .ok summary => { row with lastSuccessAt := some now, lastSummary := summary.map (List.take 2000) }
  | .failed error => { row with lastErrorAt := some now, lastError := some (error.take 2000) }

def ensureRow (rows : Rows) (jobKey : String) : Rows :=
  match rows jobKey with
  | none => Function.update rows jobKey (some .created)
  | some _ => rows

def isClaimable (row : ScheduledJobState) (options : AcquireJobLeaseOptions) (now : Time) : Bool :=
  row.lockedAt.all (fun lockedAt => decide (lockedAt < now - options.staleAfterMs)) &&
    row.lastStartedAt.all (fun lastStartedAt => decide (lastStartedAt ≤ now - options.minIntervalMs))

/-- The conditional update of `tryAcquire`, after its `ensureRow`; nothing when it matches no row. -/
def claim (rows : Rows) (jobKey : String) (options : AcquireJobLeaseOptions) (now : Time) : Option Rows :=
  match rows jobKey with
  | none => none
  | some row =>
    if isClaimable row options now then
      some (Function.update rows jobKey
        (some { row with lockedAt := some now, lockedBy := some options.workerId, lastStartedAt := some now }))
    else none

def release (rows : Rows) (jobKey : String) (workerId : Nat) (outcome : Outcome) (now : Time) : Rows :=
  match rows jobKey with
  | none => rows
  | some row =>
    if row.lockedBy = some workerId then
      Function.update rows jobKey (some (outcomeFields { row with lockedAt := none, lockedBy := none } outcome now))
    else rows

def recordPass (rows : Rows) (jobKey : String) (startedAt : Time) (outcome : Outcome) (now : Time) : Rows :=
  let rows := ensureRow rows jobKey
  Function.update rows jobKey
    ((rows jobKey).map fun row => outcomeFields { row with lastStartedAt := some startedAt } outcome now)

/-- What the leases granted on a job make of its row: its last start, and the lock of the latest until it is given back. -/
structure Represents (row : ScheduledJobState) (grants : List (Leases.Grant Nat Time)) : Prop where
  lastStartedAt : row.lastStartedAt = grants.head?.map Leases.Grant.since
  lockedAt : row.lockedAt = (grants.head?.filter fun last => !last.released).map Leases.Grant.since
  lockedBy : row.lockedBy = (grants.head?.filter fun last => !last.released).map Leases.Grant.holder

section Represents

variable {rows rows' : Rows} {row : ScheduledJobState} {jobKey other : String} {options : AcquireJobLeaseOptions}
  {workerId : Nat} {outcome : Outcome} {now : Time} {grants : List (Leases.Grant Nat Time)}

theorem created_represents : Represents .created [] := ⟨rfl, rfl, rfl⟩

@[simp] theorem outcomeFields_lastStartedAt (row : ScheduledJobState) (outcome : Outcome) (now : Time) :
    (outcomeFields row outcome now).lastStartedAt = row.lastStartedAt := by
  cases outcome <;> rfl

@[simp] theorem outcomeFields_lockedAt (row : ScheduledJobState) (outcome : Outcome) (now : Time) :
    (outcomeFields row outcome now).lockedAt = row.lockedAt := by
  cases outcome <;> rfl

@[simp] theorem outcomeFields_lockedBy (row : ScheduledJobState) (outcome : Outcome) (now : Time) :
    (outcomeFields row outcome now).lockedBy = row.lockedBy := by
  cases outcome <;> rfl

theorem Represents.isClaimable_iff (represents : Represents row grants) :
    isClaimable row options now = true ↔ (⟨options.minIntervalMs, options.staleAfterMs⟩ : Leases.Terms Time).Admits grants now := by
  unfold isClaimable Leases.Terms.Admits
  rw [represents.lastStartedAt, represents.lockedAt]
  cases grants with
  | nil => simp
  | cons last earlier =>
    cases released : last.released with
    | true => simp [released, Option.filter, le_sub_iff_add_le]
    | false => simp [released, Option.filter, le_sub_iff_add_le, lt_sub_iff_add_lt, and_comm]

theorem ensureRow_absent (absent : rows jobKey = none) :
    ensureRow rows jobKey = Function.update rows jobKey (some .created) := by
  rw [ensureRow, absent]

theorem ensureRow_present (present : rows jobKey = some row) : ensureRow rows jobKey = rows := by
  rw [ensureRow, present]

theorem ensureRow_getD (rows : Rows) (jobKey other : String) :
    (ensureRow rows jobKey other).getD .created = (rows other).getD .created := by
  cases present : rows jobKey with
  | none =>
    rw [ensureRow_absent present]
    by_cases same : other = jobKey
    next => rw [same, Function.update_self, present, Option.getD_some, Option.getD_none]
    next => rw [Function.update_of_ne same]
  | some row => rw [ensureRow_present present]

theorem ensureRow_isSome (rows : Rows) (jobKey : String) : (ensureRow rows jobKey jobKey).isSome := by
  cases present : rows jobKey with
  | none => rw [ensureRow_absent present, Function.update_self, Option.isSome_some]
  | some row => rw [ensureRow_present present, present, Option.isSome_some]

theorem ensureRow_kept (present : (rows other).isSome) : (ensureRow rows jobKey other).isSome := by
  cases known : rows jobKey with
  | none =>
    rw [ensureRow_absent known]
    by_cases same : other = jobKey
    next => rw [same, Function.update_self, Option.isSome_some]
    next => rwa [Function.update_of_ne same]
  | some row => rwa [ensureRow_present known]

theorem claim_eq_some : claim rows jobKey options now = some rows' ↔
    ∃ row, rows jobKey = some row ∧ isClaimable row options now = true ∧ rows' = Function.update rows jobKey
      (some { row with lockedAt := some now, lockedBy := some options.workerId, lastStartedAt := some now }) := by
  unfold claim
  cases rows jobKey with
  | none => simp
  | some row =>
    by_cases claimable : isClaimable row options now = true
    next =>
      simp only [claimable, if_true, Option.some.injEq, exists_eq_left', true_and]
      exact eq_comm
    next => simp only [claimable, Bool.false_eq_true, if_false, Option.some.injEq, exists_eq_left', false_and, reduceCtorEq]

theorem claim_represents (claimed : claim rows jobKey options now = some rows') :
    Represents ((rows' jobKey).getD .created) (⟨options.workerId, now, false⟩ :: grants) := by
  obtain ⟨row, _, _, rfl⟩ := claim_eq_some.mp claimed
  rw [Function.update_self]
  exact ⟨rfl, rfl, rfl⟩

theorem claim_other (claimed : claim rows jobKey options now = some rows') (ne : other ≠ jobKey) :
    rows' other = rows other := by
  obtain ⟨row, _, _, rfl⟩ := claim_eq_some.mp claimed
  exact Function.update_of_ne ne _ _

theorem claim_kept (claimed : claim rows jobKey options now = some rows') (present : (rows other).isSome) :
    (rows' other).isSome := by
  obtain ⟨row, _, _, rfl⟩ := claim_eq_some.mp claimed
  by_cases same : other = jobKey
  next => rw [same, Function.update_self, Option.isSome_some]
  next => rwa [Function.update_of_ne same]

theorem release_lost (lost : ∀ row, rows jobKey = some row → row.lockedBy ≠ some workerId) :
    release rows jobKey workerId outcome now = rows := by
  cases present : rows jobKey with
  | none => rw [ScheduledJobStateService.release, present]
  | some row => simp only [ScheduledJobStateService.release, present, if_neg (lost row present)]

theorem release_held (present : rows jobKey = some row) (locked : row.lockedBy = some workerId) :
    release rows jobKey workerId outcome now =
      Function.update rows jobKey (some (outcomeFields { row with lockedAt := none, lockedBy := none } outcome now)) := by
  simp only [release, present, if_pos locked]

theorem release_cases (rows : Rows) (jobKey : String) (workerId : Nat) (outcome : Outcome) (now : Time) :
    release rows jobKey workerId outcome now = rows ∨
      ∃ row, release rows jobKey workerId outcome now = Function.update rows jobKey (some row) := by
  cases present : rows jobKey with
  | none => exact .inl (by rw [release, present])
  | some row =>
    by_cases locked : row.lockedBy = some workerId
    next => exact .inr ⟨_, release_held present locked⟩
    next => exact .inl (by simp only [release, present, if_neg locked])

theorem release_other (ne : other ≠ jobKey) : release rows jobKey workerId outcome now other = rows other := by
  rcases release_cases rows jobKey workerId outcome now with same | ⟨row, changed⟩
  next => rw [same]
  next => rw [changed, Function.update_of_ne ne]

theorem release_kept (present : (rows other).isSome) : (release rows jobKey workerId outcome now other).isSome := by
  rcases release_cases rows jobKey workerId outcome now with same | ⟨row, changed⟩
  next => rwa [same]
  next =>
    rw [changed]
    by_cases same : other = jobKey
    next => rw [same, Function.update_self, Option.isSome_some]
    next => rwa [Function.update_of_ne same]

theorem Represents.lockedBy_iff (represents : Represents row grants) :
    row.lockedBy = some workerId ↔ ∃ last, grants.head? = some last ∧ last.released = false ∧ last.holder = workerId := by
  rw [represents.lockedBy]
  simp [Option.filter_eq_some_iff, and_assoc]

theorem Represents.release (represents : Represents ((rows jobKey).getD .created) grants) :
    Represents ((release rows jobKey workerId outcome now jobKey).getD .created) (Leases.release workerId grants) := by
  cases grants with
  | nil =>
    have lost : ∀ row, rows jobKey = some row → row.lockedBy ≠ some workerId := by
      intro row present locked
      rw [present, Option.getD_some] at represents
      simpa using represents.lockedBy_iff.mp locked
    rw [release_lost lost]
    exact represents
  | cons last earlier =>
    by_cases mine : last.holder = workerId
    next =>
      rw [Leases.release, if_pos mine]
      cases released : last.released with
      | true =>
        -- given back before: the row is free and stays as it is
        have lost : ∀ row, rows jobKey = some row → row.lockedBy ≠ some workerId := by
          intro row present locked
          rw [present, Option.getD_some] at represents
          simp [represents.lockedBy_iff, released] at locked
        have same : ({ last with released := true } : Leases.Grant Nat Time) = last := by rw [← released]
        rw [release_lost lost, same]
        exact represents
      | false =>
        cases present : rows jobKey with
        | none =>
          rw [present, Option.getD_none] at represents
          simpa [ScheduledJobState.created] using represents.lastStartedAt
        | some row =>
          rw [present, Option.getD_some] at represents
          have locked : row.lockedBy = some workerId := represents.lockedBy_iff.mpr ⟨last, rfl, released, mine⟩
          rw [release_held present locked, Function.update_self, Option.getD_some]
          exact ⟨by simpa using represents.lastStartedAt, by simp, by simp⟩
    next =>
      have lost : ∀ row, rows jobKey = some row → row.lockedBy ≠ some workerId := by
        intro row present locked
        rw [present, Option.getD_some] at represents
        simp [represents.lockedBy_iff, mine] at locked
      rw [release_lost lost, Leases.release, if_neg mine]
      exact represents

theorem recordPass_other (ne : other ≠ jobKey) (startedAt : Time) :
    (recordPass rows jobKey startedAt outcome now other).getD .created = (rows other).getD .created := by
  unfold recordPass
  rw [Function.update_of_ne ne, ensureRow_getD]

theorem recordPass_kept (startedAt : Time) (present : (rows other).isSome) :
    (recordPass rows jobKey startedAt outcome now other).isSome := by
  unfold recordPass
  by_cases same : other = jobKey
  next =>
    subst same
    rw [Function.update_self, Option.isSome_map]
    exact ensureRow_isSome rows other
  next =>
    rw [Function.update_of_ne same]
    exact ensureRow_kept present

end Represents

end ScheduledJobStateService

namespace WithdrawalWatcherService

def WITHDRAWAL_WATCHER_JOB_KEY : String := "withdrawal-watcher"

end WithdrawalWatcherService

namespace ReconciliationSchedulerService

open ScheduledJobStateService WithdrawalWatcherService

def INDEPENDENT_RECONCILIATION_JOB_PREFIX : String := "independent-reconciliation:"

def COLLATERAL_RECONCILIATION_JOB_KEY : String := "collateral-reconciliation"

structure SchedulerConfig where
  intervalMs : Int
  leaseStaleAfterMs : Int

def SchedulerConfig.options (config : SchedulerConfig) (workerId : Nat) : AcquireJobLeaseOptions :=
  ⟨workerId, config.intervalMs, config.leaseStaleAfterMs⟩

def SchedulerConfig.terms (config : SchedulerConfig) : Leases.Terms Time :=
  ⟨config.intervalMs, config.leaseStaleAfterMs⟩

inductive ScheduledJobOutcome
  | ran
  | skipped
  | failed
  deriving DecidableEq

structure Pass where
  -- the jobs that a tick has yet to come to, and what came of the others
  pending : List String
  outcomes : List (String × ScheduledJobOutcome)
  deriving DecidableEq

def Pass.ends (pass : Pass) (jobKey : String) (outcome : ScheduledJobOutcome) : Pass :=
  { pass with outcomes := pass.outcomes ++ [(jobKey, outcome)] }

def jobsOf (assetNetworkIds : List String) : List String :=
  assetNetworkIds.map (INDEPENDENT_RECONCILIATION_JOB_PREFIX ++ ·) ++ [COLLATERAL_RECONCILIATION_JOB_KEY]

/-- Where a worker's `tick` stands: between two of its awaits. -/
inductive Phase
  | idle
  | between (pass : Pass)
  | acquiring (jobKey : String) (pass : Pass)
  | running (jobKey : String) (startedAt : Time) (pass : Pass)
  | failing (jobKey : String) (startedAt : Time) (error : Units) (pass : Pass)
  deriving DecidableEq

def Phase.jobs : Phase → List String
  | .idle => []
  | .between pass => pass.pending
  | .acquiring jobKey pass | .running jobKey _ pass | .failing jobKey _ _ pass => jobKey :: pass.pending

def Phase.lease? : Phase → Option (String × Time)
  -- the job whose lease a worker has taken in this tick and not yet settled, and since when
  | .running jobKey startedAt _ | .failing jobKey startedAt _ _ => some (jobKey, startedAt)
  | _ => none

/-- What a worker learns of a statement: that it took effect, or an error, when it may have taken effect or not. -/
inductive Reply
  | received
  | lost (error : Units)
  | refused (error : Units)
  deriving DecidableEq

def Reply.applied : Reply → Bool
  | .received | .lost _ => true
  | .refused _ => false

structure State where
  rows : Rows
  workers : Nat → Phase
  -- the leases granted on each job, the latest first
  grants : String → List (Leases.Grant Nat Time)

inductive Action
  | tick (workerId : Nat) (assetNetworkIds : List String)
  | ensure (workerId : Nat)
  | acquire (workerId : Nat) (now : Time) (reply : Reply)
  | complete (workerId : Nat) (summary : Units) (now : Time) (reply : Reply)
  | throw (workerId : Nat) (error : Units)
  | settle (workerId : Nat) (now : Time) (reply : Reply)
  | finish (workerId : Nat)
  | crash (workerId : Nat)
  | recordPass (startedAt : Time) (outcome : Outcome) (now : Time)

def Action.workerId? : Action → Option Nat
  | .tick w _ | .ensure w | .acquire w _ _ | .complete w _ _ _ | .throw w _ | .settle w _ _ | .finish w | .crash w => some w
  | .recordPass _ _ _ => none

def State.moves (s : State) (w : Nat) (phase : Phase) : State :=
  { s with workers := Function.update s.workers w phase }

def State.grant (s : State) (w : Nat) (jobKey : String) (now : Time) (rows : Rows) : State :=
  { s with
    rows := rows
    grants := Function.update s.grants jobKey (⟨w, now, false⟩ :: s.grants jobKey) }

def State.release (s : State) (w : Nat) (jobKey : String) (outcome : Outcome) (now : Time) : State :=
  { s with
    rows := ScheduledJobStateService.release s.rows jobKey w outcome now
    grants := Function.update s.grants jobKey (Leases.release w (s.grants jobKey)) }

section Step

variable (config : SchedulerConfig)

def acquires (s : State) (w : Nat) (jobKey : String) (pass : Pass) (now : Time) (reply : Reply) : State :=
  match reply, claim s.rows jobKey (config.options w) now with
  | .received, some rows => (s.grant w jobKey now rows).moves w (.running jobKey now pass)
  | .received, none => s.moves w (.between (pass.ends jobKey .skipped))
  | .lost _, some rows => (s.grant w jobKey now rows).moves w .idle
  | .lost _, none | .refused _, _ => s.moves w .idle

def releases (s : State) (w : Nat) (jobKey : String) (outcome : Outcome) (now : Time) (reply : Reply) : State :=
  if reply.applied then s.release w jobKey outcome now else s

/-- One await of one worker's `tick`, or a pass of the withdrawal watcher, which takes no lease. A `crash` is also an
error that ends the tick. -/
def step (s : State) : Action → State
  | .tick w assetNetworkIds =>
    match s.workers w with
    | .idle => s.moves w (.between ⟨jobsOf assetNetworkIds, []⟩)
    | _ => s
  | .ensure w =>
    match s.workers w with
    | .between ⟨jobKey :: pending, outcomes⟩ =>
      { s.moves w (.acquiring jobKey ⟨pending, outcomes⟩) with rows := ensureRow s.rows jobKey }
    | _ => s
  | .acquire w now reply =>
    match s.workers w with
    | .acquiring jobKey pass => acquires config s w jobKey pass now reply
    | _ => s
  | .complete w summary now reply =>
    match s.workers w with
    | .running jobKey startedAt pass =>
      -- an error of this release is caught with those of the job itself
      (releases s w jobKey (.ok (some summary)) now reply).moves w
        (match reply with
          | .received => .between (pass.ends jobKey .ran)
          | .lost error | .refused error => .failing jobKey startedAt error pass)
    | _ => s
  | .throw w error =>
    match s.workers w with
    | .running jobKey startedAt pass => s.moves w (.failing jobKey startedAt error pass)
    | _ => s
  | .settle w now reply =>
    match s.workers w with
    | .failing jobKey _ error pass =>
      (releases s w jobKey (.failed error) now reply).moves w
        (match reply with
          | .received => .between (pass.ends jobKey .failed)
          | .lost _ | .refused _ => .idle)
    | _ => s
  | .finish w =>
    match s.workers w with
    | .between ⟨[], _⟩ => s.moves w .idle
    | _ => s
  | .crash w => s.moves w .idle
  | .recordPass startedAt outcome now =>
    { s with rows := ScheduledJobStateService.recordPass s.rows WITHDRAWAL_WATCHER_JOB_KEY startedAt outcome now }

def initially : State where
  rows _ := none
  workers _ := .idle
  grants _ := []

def Reached : State → Prop :=
  Reachable (fun s => s = initially) (step config)

end Step

section Steps

variable {config : SchedulerConfig} {s s' : State} {a : Action} {w : Nat}

theorem job_ne (assetNetworkIds : List String) : ∀ jobKey ∈ jobsOf assetNetworkIds, jobKey ≠ WITHDRAWAL_WATCHER_JOB_KEY := by
  intro jobKey member same
  rcases List.mem_append.mp member with scan | collateral
  next =>
    obtain ⟨id, _, rfl⟩ := List.mem_map.mp scan
    -- the first letters differ
    have firsts := congrArg (fun key : String => key.toList.head?) same
    simp [INDEPENDENT_RECONCILIATION_JOB_PREFIX, WITHDRAWAL_WATCHER_JOB_KEY] at firsts
  next =>
    obtain rfl := List.mem_singleton.mp collateral
    exact absurd same (by decide)

structure Phase.Keeps (before after : Phase) : Prop where
  -- moving on without a lease, or with the one that the worker has
  lease : ∀ held, after.lease? = some held → before.lease? = some held
  calm : ∀ jobKey startedAt pass, after ≠ .running jobKey startedAt pass
  unready : ∀ jobKey pass, after ≠ .acquiring jobKey pass
  jobs : ∀ jobKey ∈ after.jobs, jobKey ∈ before.jobs ∨ jobKey ≠ WITHDRAWAL_WATCHER_JOB_KEY

theorem Phase.keeps_idle (before : Phase) : before.Keeps .idle :=
  ⟨by simp [Phase.lease?], by simp, by simp, by simp [Phase.jobs]⟩

theorem Phase.keeps_between {before : Phase} {pass : Pass}
    (jobs : ∀ jobKey ∈ pass.pending, jobKey ∈ before.jobs ∨ jobKey ≠ WITHDRAWAL_WATCHER_JOB_KEY) :
    before.Keeps (.between pass) :=
  ⟨by simp [Phase.lease?], by simp, by simp, jobs⟩

theorem Phase.keeps_failing {before : Phase} {jobKey : String} {startedAt : Time} {pass : Pass}
    (lease : before.lease? = some (jobKey, startedAt)) (jobs : before.jobs = jobKey :: pass.pending) (error : Units) :
    before.Keeps (.failing jobKey startedAt error pass) := by
  constructor
  next =>
    intro held same
    rw [lease]
    exact same
  next => simp
  next => simp
  next =>
    intro other member
    rw [jobs]
    exact .inl member

/-- What a step can do: move a worker on; make sure of a row; grant a lease; give one back; or write the watcher's row. -/
inductive Stepped (config : SchedulerConfig) (s : State) : State → Prop
  | stays : Stepped config s s
  | moved {w : Nat} {phase : Phase} (keeps : (s.workers w).Keeps phase) : Stepped config s (s.moves w phase)
  | ensured {w : Nat} {jobKey : String} {pending : List String} {outcomes : List (String × ScheduledJobOutcome)}
      (was : s.workers w = .between ⟨jobKey :: pending, outcomes⟩) :
      Stepped config s { s.moves w (.acquiring jobKey ⟨pending, outcomes⟩) with rows := ensureRow s.rows jobKey }
  | granted {w : Nat} {jobKey : String} {pass : Pass} {now : Time} {rows : Rows} {phase : Phase}
      (was : s.workers w = .acquiring jobKey pass) (claimed : claim s.rows jobKey (config.options w) now = some rows)
      (next : phase = .running jobKey now pass ∨ phase = .idle) :
      Stepped config s ((s.grant w jobKey now rows).moves w phase)
  | released {w : Nat} {jobKey : String} {startedAt now : Time} {outcome : Outcome} {phase : Phase}
      (was : (s.workers w).lease? = some (jobKey, startedAt)) (keeps : (s.workers w).Keeps phase) :
      Stepped config s ((s.release w jobKey outcome now).moves w phase)
  | passed (startedAt : Time) (outcome : Outcome) (now : Time) :
      Stepped config s
        { s with rows := ScheduledJobStateService.recordPass s.rows WITHDRAWAL_WATCHER_JOB_KEY startedAt outcome now }

theorem acquires_stepped {jobKey : String} {pass : Pass} (was : s.workers w = .acquiring jobKey pass) (now : Time)
    (reply : Reply) : Stepped config s (acquires config s w jobKey pass now reply) := by
  have idle : Stepped config s (s.moves w .idle) := .moved (Phase.keeps_idle _)
  unfold acquires
  split
  next claimed => exact .granted was claimed (.inl rfl)
  next =>
    apply Stepped.moved
    apply Phase.keeps_between
    intro other member
    rw [was]
    exact .inl (List.mem_cons_of_mem _ member)
  next claimed => exact .granted was claimed (.inr rfl)
  next => exact idle
  next => exact idle

theorem releases_stepped {jobKey : String} {startedAt : Time} {phase : Phase}
    (was : (s.workers w).lease? = some (jobKey, startedAt)) (keeps : (s.workers w).Keeps phase) (outcome : Outcome)
    (now : Time) (reply : Reply) : Stepped config s ((releases s w jobKey outcome now reply).moves w phase) := by
  unfold releases
  split
  next => exact .released was keeps
  next => exact .moved keeps

theorem step_stepped (s : State) (a : Action) : Stepped config s (step config s a) := by
  cases a with
  | tick w assetNetworkIds =>
    rw [step]
    split
    next =>
      apply Stepped.moved
      apply Phase.keeps_between
      exact fun jobKey member => .inr (job_ne assetNetworkIds jobKey member)
    next => exact .stays
  | ensure w =>
    rw [step]
    split
    next was => exact .ensured was
    next => exact .stays
  | acquire w now reply =>
    rw [step]
    split
    next was => exact acquires_stepped was now reply
    next => exact .stays
  | complete w summary now reply =>
    rw [step]
    split
    next jobKey startedAt pass was =>
      have lease : (s.workers w).lease? = some (jobKey, startedAt) := by rw [was, Phase.lease?]
      have jobs : (s.workers w).jobs = jobKey :: pass.pending := by rw [was, Phase.jobs]
      apply releases_stepped lease
      cases reply with
      | received =>
        apply Phase.keeps_between
        intro other member
        rw [jobs]
        exact .inl (List.mem_cons_of_mem _ member)
      | lost error => exact Phase.keeps_failing lease jobs error
      | refused error => exact Phase.keeps_failing lease jobs error
    next => exact .stays
  | throw w error =>
    rw [step]
    split
    next jobKey startedAt pass was =>
      apply Stepped.moved
      exact Phase.keeps_failing (by rw [was, Phase.lease?]) (by rw [was, Phase.jobs]) error
    next => exact .stays
  | settle w now reply =>
    rw [step]
    split
    next jobKey startedAt error pass was =>
      have lease : (s.workers w).lease? = some (jobKey, startedAt) := by rw [was, Phase.lease?]
      apply releases_stepped lease
      cases reply with
      | received =>
        apply Phase.keeps_between
        intro other member
        rw [was]
        exact .inl (List.mem_cons_of_mem _ member)
      | lost error => exact Phase.keeps_idle _
      | refused error => exact Phase.keeps_idle _
    next => exact .stays
  | finish w =>
    rw [step]
    split
    next => exact .moved (Phase.keeps_idle _)
    next => exact .stays
  | crash w => exact .moved (Phase.keeps_idle _)
  | recordPass startedAt outcome now => exact .passed startedAt outcome now

end Steps

/-- A worker that has a lease was granted it last, and one that is about to ask for one has its row. -/
structure Holds (rows : Rows) (grants : String → List (Leases.Grant Nat Time)) (w : Nat) (phase : Phase) : Prop where
  lease : ∀ jobKey startedAt, phase.lease? = some (jobKey, startedAt) →
    ∃ released, Leases.current w (grants jobKey) = some ⟨w, startedAt, released⟩
  runs : ∀ jobKey startedAt pass, phase = .running jobKey startedAt pass →
    Leases.current w (grants jobKey) = some ⟨w, startedAt, false⟩
  jobs : ∀ jobKey ∈ phase.jobs, jobKey ≠ WITHDRAWAL_WATCHER_JOB_KEY
  ensured : ∀ jobKey pass, phase = .acquiring jobKey pass → (rows jobKey).isSome

structure Sound (config : SchedulerConfig) (s : State) : Prop where
  rows : ∀ jobKey, jobKey ≠ WITHDRAWAL_WATCHER_JOB_KEY →
    Represents ((s.rows jobKey).getD .created) (s.grants jobKey)
  kept : ∀ jobKey, config.terms.Kept (s.grants jobKey)
  workers : ∀ w, Holds s.rows s.grants w (s.workers w)

section Invariant

variable {config : SchedulerConfig} {s s' : State} {w : Nat} {phase : Phase} {rows rows' : Rows}
  {grants grants' : String → List (Leases.Grant Nat Time)}

theorem Holds.frame (holds : Holds rows grants w phase)
    (mine : ∀ jobKey, Leases.current w (grants' jobKey) = Leases.current w (grants jobKey))
    (present : ∀ jobKey, (rows jobKey).isSome → (rows' jobKey).isSome) : Holds rows' grants' w phase where
  lease jobKey startedAt := by
    rw [mine jobKey]
    exact holds.lease jobKey startedAt
  runs jobKey startedAt pass := by
    rw [mine jobKey]
    exact holds.runs jobKey startedAt pass
  jobs := holds.jobs
  ensured jobKey pass acquiring := present jobKey (holds.ensured jobKey pass acquiring)

theorem Holds.keeps {before : Phase} (holds : Holds rows grants w before) (keeps : before.Keeps phase)
    (mine : ∀ jobKey startedAt released, Leases.current w (grants jobKey) = some ⟨w, startedAt, released⟩ →
      ∃ released, Leases.current w (grants' jobKey) = some ⟨w, startedAt, released⟩) : Holds rows' grants' w phase where
  lease jobKey startedAt lease := by
    -- a worker that moves on without taking a lease knows no more than before
    obtain ⟨released, held⟩ := holds.lease jobKey startedAt (keeps.lease _ lease)
    exact mine jobKey startedAt released held
  runs jobKey startedAt pass running := absurd running (keeps.calm jobKey startedAt pass)
  jobs jobKey member := (keeps.jobs jobKey member).elim (holds.jobs jobKey) id
  ensured jobKey pass acquiring := absurd acquiring (keeps.unready jobKey pass)

theorem Sound.moves (sound : Sound config s)
    (represents : ∀ jobKey, jobKey ≠ WITHDRAWAL_WATCHER_JOB_KEY → Represents ((rows jobKey).getD .created) (grants jobKey))
    (kept : ∀ jobKey, config.terms.Kept (grants jobKey))
    (others : ∀ other ≠ w, ∀ jobKey, Leases.current other (grants jobKey) = Leases.current other (s.grants jobKey))
    (present : ∀ jobKey, (s.rows jobKey).isSome → (rows jobKey).isSome) (holds : Holds rows grants w phase) :
    Sound config ⟨rows, Function.update s.workers w phase, grants⟩ := by
  -- one worker moves on, and what is granted to the others stays with them
  constructor
  next => exact represents
  next => exact kept
  next =>
    intro other
    change Holds rows grants other (Function.update s.workers w phase other)
    by_cases same : other = w
    next =>
      subst same
      rwa [Function.update_self]
    next =>
      rw [Function.update_of_ne same]
      exact (sound.workers other).frame (others other same) present

theorem Sound.moved (sound : Sound config s) (keeps : (s.workers w).Keeps phase) : Sound config (s.moves w phase) := by
  apply sound.moves sound.rows sound.kept (fun _ _ _ => rfl) (fun _ => id)
  exact (sound.workers w).keeps keeps fun _ _ released held => ⟨released, held⟩

theorem Sound.ensures (sound : Sound config s) {jobKey : String} {pending : List String}
    {outcomes : List (String × ScheduledJobOutcome)} (was : s.workers w = .between ⟨jobKey :: pending, outcomes⟩) :
    Sound config { s.moves w (.acquiring jobKey ⟨pending, outcomes⟩) with rows := ensureRow s.rows jobKey } := by
  apply sound.moves _ sound.kept (fun _ _ _ => rfl) (fun _ => ensureRow_kept)
  next =>
    have named := (sound.workers w).jobs
    rw [was] at named
    refine ⟨by simp [Phase.lease?], by simp, named, ?_⟩
    intro other pass same
    obtain ⟨rfl, _⟩ := Phase.acquiring.inj same
    exact ensureRow_isSome s.rows jobKey
  next =>
    intro other ne
    rw [ensureRow_getD]
    exact sound.rows other ne

theorem Sound.admits (sound : Sound config s) {jobKey : String} {pass : Pass}
    (was : s.workers w = .acquiring jobKey pass) (now : Time) :
    (∃ rows, claim s.rows jobKey (config.options w) now = some rows) ↔ config.terms.Admits (s.grants jobKey) now := by
  obtain ⟨row, present⟩ := Option.isSome_iff_exists.mp ((sound.workers w).ensured jobKey pass was)
  have named : jobKey ≠ WITHDRAWAL_WATCHER_JOB_KEY := (sound.workers w).jobs jobKey (by simp [was, Phase.jobs])
  have represents := sound.rows jobKey named
  rw [present, Option.getD_some] at represents
  apply Iff.trans _ (@Represents.isClaimable_iff row (config.options w) now _ represents)
  constructor
  next =>
    rintro ⟨rows, claimed⟩
    obtain ⟨claimedRow, known, claimable, _⟩ := claim_eq_some.mp claimed
    rw [present] at known
    rwa [Option.some.inj known]
  next =>
    intro claimable
    exact ⟨_, claim_eq_some.mpr ⟨row, present, claimable, rfl⟩⟩

theorem Sound.changes (sound : Sound config s) {jobKey : String} {changed : List (Leases.Grant Nat Time)}
    (elsewhere : ∀ other ≠ jobKey, rows other = s.rows other)
    (represents : jobKey ≠ WITHDRAWAL_WATCHER_JOB_KEY → Represents ((rows jobKey).getD .created) changed)
    (kept : config.terms.Kept changed)
    (others : ∀ other ≠ w, Leases.current other changed = Leases.current other (s.grants jobKey))
    (present : ∀ key, (s.rows key).isSome → (rows key).isSome)
    (holds : Holds rows (Function.update s.grants jobKey changed) w phase) :
    Sound config ⟨rows, Function.update s.workers w phase, Function.update s.grants jobKey changed⟩ := by
  apply sound.moves _ _ _ present holds
  next =>
    intro key ne
    by_cases same : key = jobKey
    next =>
      subst same
      rw [Function.update_self]
      exact represents ne
    next =>
      rw [Function.update_of_ne same, elsewhere key same]
      exact sound.rows key ne
  next =>
    intro key
    by_cases same : key = jobKey
    next =>
      subst same
      rwa [Function.update_self]
    next =>
      rw [Function.update_of_ne same]
      exact sound.kept key
  next =>
    intro other ne key
    by_cases same : key = jobKey
    next =>
      subst same
      rw [Function.update_self]
      exact others other ne
    next => rw [Function.update_of_ne same]

theorem Sound.granted (sound : Sound config s) (spaced : 0 ≤ config.intervalMs) {jobKey : String} {pass : Pass} {now : Time}
    (was : s.workers w = .acquiring jobKey pass) (claimed : claim s.rows jobKey (config.options w) now = some rows)
    (next : phase = .running jobKey now pass ∨ phase = .idle) : Sound config ((s.grant w jobKey now rows).moves w phase) := by
  have admits := (sound.admits was now).mp ⟨rows, claimed⟩
  apply sound.changes (fun _ ne => claim_other claimed ne) (fun _ => claim_represents claimed)
    ((sound.kept jobKey).granted spaced admits) (fun _ ne => Leases.current_granted_other (Ne.symm ne))
    (fun _ => claim_kept claimed)
  have named := (sound.workers w).jobs
  rw [was] at named
  rcases next with rfl | rfl
  next =>
    constructor
    next =>
      intro key startedAt lease
      obtain ⟨rfl, rfl⟩ := Prod.mk.inj (Option.some.inj lease)
      rw [Function.update_self]
      exact ⟨false, Leases.current_granted ..⟩
    next =>
      intro key startedAt ran running
      obtain ⟨rfl, rfl, _⟩ := Phase.running.inj running
      rw [Function.update_self]
      exact Leases.current_granted ..
    next => exact named
    next => simp
  next => exact ⟨by simp [Phase.lease?], by simp, by simp [Phase.jobs], by simp⟩

theorem Sound.released (sound : Sound config s) {jobKey : String} {now : Time} {outcome : Outcome}
    (keeps : (s.workers w).Keeps phase) : Sound config ((s.release w jobKey outcome now).moves w phase) := by
  apply sound.changes (fun _ ne => release_other ne) (fun ne => (sound.rows jobKey ne).release)
    (sound.kept jobKey).released (fun _ ne => Leases.current_release_other (Ne.symm ne)) (fun _ => release_kept)
  apply (sound.workers w).keeps keeps
  intro key startedAt released held
  by_cases same : key = jobKey
  next =>
    subst same
    rw [Function.update_self]
    exact Leases.current_released held
  next =>
    rw [Function.update_of_ne same]
    exact ⟨released, held⟩

theorem Sound.passes (sound : Sound config s) (startedAt : Time) (outcome : Outcome) (now : Time) :
    Sound config
      { s with rows := ScheduledJobStateService.recordPass s.rows WITHDRAWAL_WATCHER_JOB_KEY startedAt outcome now } where
  rows jobKey ne := by
    rw [recordPass_other ne]
    exact sound.rows jobKey ne
  kept := sound.kept
  workers w := (sound.workers w).frame (fun _ => rfl) fun _ => recordPass_kept startedAt

theorem Sound.step (sound : Sound config s) (spaced : 0 ≤ config.intervalMs) (stepped : Stepped config s s') :
    Sound config s' := by
  cases stepped with
  | stays => exact sound
  | moved keeps => exact sound.moved keeps
  | ensured was => exact sound.ensures was
  | granted was claimed next => exact sound.granted spaced was claimed next
  | released was keeps => exact sound.released keeps
  | passed startedAt outcome now => exact sound.passes startedAt outcome now

theorem Reached.sound (spaced : 0 ≤ config.intervalMs) (reached : Reached config s) : Sound config s := by
  apply Reachable.invariant (Sound config) _ (fun s a _ sound => sound.step spaced (step_stepped s a)) reached
  rintro s rfl
  constructor
  next => exact fun _ _ => created_represents
  next => exact fun _ => .nil
  next => exact fun _ => ⟨by simp [initially, Phase.lease?], by simp [initially], by simp [initially, Phase.jobs],
      by simp [initially]⟩

theorem Sound.row (sound : Sound config s) {jobKey : String} {last : Leases.Grant Nat Time}
    (named : jobKey ≠ WITHDRAWAL_WATCHER_JOB_KEY) (latest : (s.grants jobKey).head? = some last) :
    ∃ row, s.rows jobKey = some row ∧ Represents row (s.grants jobKey) := by
  have represents := sound.rows jobKey named
  cases present : s.rows jobKey with
  | none =>
    rw [present, Option.getD_none] at represents
    have started := represents.lastStartedAt
    rw [latest] at started
    simp [ScheduledJobState.created] at started
  | some row =>
    rw [present, Option.getD_some] at represents
    exact ⟨row, rfl, represents⟩

theorem Sound.held (sound : Sound config s) {jobKey : String} {startedAt : Time} {pass : Pass}
    (running : s.workers w = .running jobKey startedAt pass) :
    ∃ row, s.rows jobKey = some row ∧ ((row.lockedBy = some w ∧ row.lockedAt = some startedAt) ∨
      ∃ lastStartedAt, row.lastStartedAt = some lastStartedAt ∧ startedAt + config.leaseStaleAfterMs < lastStartedAt) := by
  have mine := (sound.workers w).runs jobKey startedAt pass running
  have named : jobKey ≠ WITHDRAWAL_WATCHER_JOB_KEY := (sound.workers w).jobs jobKey (by simp [running, Phase.jobs])
  rcases (sound.kept jobKey).current mine rfl with latest | ⟨last, latest, stale⟩
  next =>
    obtain ⟨row, present, represents⟩ := sound.row named latest
    refine ⟨row, present, .inl ⟨?_, ?_⟩⟩
    next => simp [represents.lockedBy, latest, Option.filter]
    next => simp [represents.lockedAt, latest, Option.filter]
  next =>
    obtain ⟨row, present, represents⟩ := sound.row named latest
    refine ⟨row, present, .inr ⟨last.since, ?_, stale⟩⟩
    rw [represents.lastStartedAt, latest, Option.map_some]

theorem Sound.lock (sound : Sound config s) {jobKey : String} {startedAt : Time} {row : ScheduledJobState}
    (lease : (s.workers w).lease? = some (jobKey, startedAt)) (named : jobKey ≠ WITHDRAWAL_WATCHER_JOB_KEY)
    (present : s.rows jobKey = some row) (locked : row.lockedBy = some w) : row.lockedAt = some startedAt := by
  -- the lock that a worker holds on its job is the one it took for this run
  have represents := sound.rows jobKey named
  rw [present, Option.getD_some] at represents
  obtain ⟨last, latest, unreleased, theirs⟩ := represents.lockedBy_iff.mp locked
  obtain ⟨released, held⟩ := (sound.workers w).lease jobKey startedAt lease
  have own : (s.grants jobKey).head? = some ⟨w, startedAt, released⟩ := by
    apply Leases.current_head held
    intro other first
    rwa [Option.some.inj (first.symm.trans latest)]
  have same : last = ⟨w, startedAt, released⟩ := Option.some.inj (latest.symm.trans own)
  rw [represents.lockedAt, latest, Option.filter, unreleased]
  simp [same]

theorem releases_lost {jobKey : String} {outcome : Outcome} {now : Time} {reply : Reply}
    (lost : ∀ row, s.rows jobKey = some row → row.lockedBy ≠ some w) :
    (releases s w jobKey outcome now reply).rows = s.rows := by
  unfold releases
  split
  next => exact release_lost lost
  next => rfl

theorem step_rows_lost {jobKey : String} {startedAt : Time} {a : Action}
    (lease : (s.workers w).lease? = some (jobKey, startedAt)) (theirs : a.workerId? = some w)
    (lost : ∀ row, s.rows jobKey = some row → row.lockedBy ≠ some w) : (step config s a).rows = s.rows := by
  -- a worker with a lease writes no row but by giving it back, and none once it is another's
  cases busy : s.workers w with
  | idle | between | acquiring => simp [busy, Phase.lease?] at lease
  | running job since pass =>
    obtain ⟨rfl, rfl⟩ : job = jobKey ∧ since = startedAt := by simpa [busy, Phase.lease?] using lease
    cases a with
    | recordPass => simp [Action.workerId?] at theirs
    | complete v summary now reply =>
      obtain rfl : v = w := Option.some.inj theirs
      simp only [step, busy]
      exact releases_lost lost
    | tick v | ensure v | acquire v | throw v | settle v | finish v | crash v =>
      obtain rfl : v = w := Option.some.inj theirs
      simp only [step, busy, State.moves]
  | failing job since error pass =>
    obtain ⟨rfl, rfl⟩ : job = jobKey ∧ since = startedAt := by simpa [busy, Phase.lease?] using lease
    cases a with
    | recordPass => simp [Action.workerId?] at theirs
    | settle v now reply =>
      obtain rfl : v = w := Option.some.inj theirs
      simp only [step, busy]
      exact releases_lost lost
    | tick v | ensure v | acquire v | throw v | complete v | finish v | crash v =>
      obtain rfl : v = w := Option.some.inj theirs
      simp only [step, busy, State.moves]

theorem acquire_running {jobKey : String} {pass : Pass} {now : Time} (was : s.workers w = .acquiring jobKey pass) :
    (step config s (.acquire w now .received)).workers w = .running jobKey now pass ↔
      ∃ rows, claim s.rows jobKey (config.options w) now = some rows := by
  simp only [step, was, acquires]
  cases claim s.rows jobKey (config.options w) now with
  | none => simp [State.moves]
  | some rows => simp [State.moves]

theorem Sound.due (sound : Sound config s) {jobKey : String} {pass : Pass} (was : s.workers w = .acquiring jobKey pass)
    (now : Time) : config.terms.Admits (s.grants jobKey) now ↔ ∀ row lastStartedAt, s.rows jobKey = some row →
      row.lastStartedAt = some lastStartedAt → lastStartedAt + config.intervalMs ≤ now ∧
        (row.lockedBy = none ∨ lastStartedAt + config.leaseStaleAfterMs < now) := by
  have named : jobKey ≠ WITHDRAWAL_WATCHER_JOB_KEY := (sound.workers w).jobs jobKey (by simp [was, Phase.jobs])
  constructor
  next =>
    intro admits row lastStartedAt present started
    have represents := sound.rows jobKey named
    rw [present, Option.getD_some] at represents
    rw [represents.lastStartedAt] at started
    obtain ⟨last, latest, rfl⟩ := Option.map_eq_some_iff.mp started
    obtain ⟨apart, free⟩ := admits last latest
    refine ⟨apart, free.imp_left fun released => ?_⟩
    simp [represents.lockedBy, latest, Option.filter, released]
  next =>
    intro due last latest
    obtain ⟨row, present, represents⟩ := sound.row named latest
    have started : row.lastStartedAt = some last.since := by rw [represents.lastStartedAt, latest, Option.map_some]
    obtain ⟨apart, free⟩ := due row last.since present started
    refine ⟨apart, free.imp_left fun unlocked => ?_⟩
    rw [represents.lockedBy, latest] at unlocked
    cases released : last.released with
    | true => rfl
    | false => simp [Option.filter, released] at unlocked

/-- What any number of workers, ticking and crashing in any order and with any clocks, can do to a job: its starts are
an interval apart, and nobody is granted it before the last holder has given it back or gone stale; so two workers run it
together only when one started after the other had gone stale. A run keeps its lock until a start that late takes it, and
from then on writes nothing. And no crash keeps a job from being granted again. -/
theorem reached_leased (spaced : 0 ≤ config.intervalMs) (reached : Reached config s) :
    (∀ jobKey, (s.grants jobKey).Pairwise fun later earlier =>
      earlier.since + config.intervalMs ≤ later.since ∧
        (earlier.released = true ∨ earlier.since + config.leaseStaleAfterMs < later.since)) ∧
    (∀ w w' jobKey startedAt startedAt' pass pass', w ≠ w' →
      s.workers w = .running jobKey startedAt pass → s.workers w' = .running jobKey startedAt' pass' →
      startedAt + config.leaseStaleAfterMs < startedAt' ∨ startedAt' + config.leaseStaleAfterMs < startedAt) ∧
    (∀ w jobKey startedAt pass, s.workers w = .running jobKey startedAt pass →
      ∃ row, s.rows jobKey = some row ∧ ((row.lockedBy = some w ∧ row.lockedAt = some startedAt) ∨
        ∃ lastStartedAt, row.lastStartedAt = some lastStartedAt ∧
          startedAt + config.leaseStaleAfterMs < lastStartedAt)) ∧
    (∀ w jobKey startedAt row, (s.workers w).lease? = some (jobKey, startedAt) → s.rows jobKey = some row →
      (row.lockedBy = some w → row.lockedAt = some startedAt) ∧
      (row.lockedBy ≠ some w → ∀ a, a.workerId? = some w → (step config s a).rows = s.rows)) ∧
    (∀ w jobKey pass now, s.workers w = .acquiring jobKey pass →
      ((step config s (.acquire w now .received)).workers w = .running jobKey now pass ↔
        ∀ row lastStartedAt, s.rows jobKey = some row → row.lastStartedAt = some lastStartedAt →
          lastStartedAt + config.intervalMs ≤ now ∧
            (row.lockedBy = none ∨ lastStartedAt + config.leaseStaleAfterMs < now))) := by
  have sound := Reached.sound spaced reached
  refine ⟨sound.kept, ?_, ?_, ?_, ?_⟩
  next =>
    intro w w' jobKey startedAt startedAt' pass pass' ne one two
    have first := (sound.workers w).runs jobKey startedAt pass one
    have second := (sound.workers w').runs jobKey startedAt' pass' two
    have distinct : (⟨w, startedAt, false⟩ : Leases.Grant Nat Time) ≠ ⟨w', startedAt', false⟩ := by
      intro same
      exact ne (Leases.Grant.mk.inj same).1
    exact (sound.kept jobKey).apart (Leases.current_mem first).1 (Leases.current_mem second).1 distinct rfl rfl
  next => exact fun w jobKey startedAt pass running => sound.held running
  next =>
    intro w jobKey startedAt row lease present
    have named : jobKey ≠ WITHDRAWAL_WATCHER_JOB_KEY := by
      apply (sound.workers w).jobs
      cases busy : s.workers w with
      | idle | between | acquiring => simp [busy, Phase.lease?] at lease
      | running | failing => simp_all [Phase.lease?, Phase.jobs]
    constructor
    next => exact sound.lock lease named present
    next =>
      intro lost a theirs
      apply step_rows_lost lease theirs
      intro other known
      rwa [Option.some.inj (known.symm.trans present)]
  next =>
    intro w jobKey pass now was
    rw [acquire_running was, sound.admits was now]
    exact sound.due was now

end Invariant

section Samples

def hourly : SchedulerConfig where
  intervalMs := 3600000
  leaseStaleAfterMs := 1800000

def takenOver : List Action :=
  -- the first worker is still at its rescan when another one takes the job over, an hour later
  [.tick 1 ["eth"], .ensure 1, .acquire 1 0 .received, .tick 2 ["eth"], .ensure 2, .acquire 2 3600000 .received]

theorem initially_reached : Reached hourly initially := .refl rfl

theorem takenOver_reached : Reached hourly (takenOver.foldl (step hourly) initially) :=
  initially_reached.foldl takenOver

/-- Both are at it; the row's lock is the second one's. -/
theorem takenOver_leased :
    (takenOver.foldl (step hourly) initially).workers 1 =
        .running "independent-reconciliation:eth" 0 ⟨["collateral-reconciliation"], []⟩ ∧
      (takenOver.foldl (step hourly) initially).workers 2 =
        .running "independent-reconciliation:eth" 3600000 ⟨["collateral-reconciliation"], []⟩ ∧
      (((takenOver.foldl (step hourly) initially).grants "independent-reconciliation:eth").Pairwise fun later earlier =>
        earlier.since + 3600000 ≤ later.since ∧ (earlier.released = true ∨ earlier.since + 1800000 < later.since)) ∧
      ∃ row, (takenOver.foldl (step hourly) initially).rows "independent-reconciliation:eth" = some row ∧
        ((row.lockedBy = some 1 ∧ row.lockedAt = some 0) ∨
          ∃ lastStartedAt, row.lastStartedAt = some lastStartedAt ∧ 0 + 1800000 < lastStartedAt) := by
  have leased := @reached_leased hourly _ (by decide) takenOver_reached
  have first : (takenOver.foldl (step hourly) initially).workers 1 =
      .running "independent-reconciliation:eth" 0 ⟨["collateral-reconciliation"], []⟩ := by decide +kernel
  exact ⟨first, by decide +kernel, leased.1 _, leased.2.2.1 1 _ _ _ first⟩

end Samples

end ReconciliationSchedulerService

end VerdictVaut

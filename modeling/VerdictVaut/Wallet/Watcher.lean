import VerdictVaut.Wallet.Evm
import VerdictVaut.Shared.Runs
import VerdictVaut.Trading.Types

set_option autoImplicit false

namespace VerdictVaut

open Relational EvmDepositAdapter

namespace DepositWatcherService

def LEASE_STALE_AFTER_MS : Int := 5 * 60000

/-- The `BlockchainWatchCursor` row of one asset network. Its pointer is empty until a scan has committed. -/
structure WatchCursor where
  lastScannedPointer : Option Int
  lockedAt : Option Time
  lockedBy : Option Nat
  deriving DecidableEq

def shouldAdvanceCursor (current : Option Int) (next : Int) : Bool :=
  match current with
  | none => true
  | some block => decide (block ≤ next)

def isFree (row : WatchCursor) (now : Time) : Bool :=
  match row.lockedAt with
  | none => true
  | some lockedAt => decide (lockedAt < now - LEASE_STALE_AFTER_MS)

def lease (row : WatchCursor) (workerId : Nat) (now : Time) : WatchCursor :=
  { row with lockedAt := some now, lockedBy := some workerId }

def releaseLeaseAfterSuccess (row : WatchCursor) (workerId : Nat) (currentCursor : Option Int) (nextCursor : Int) :
    WatchCursor :=
  let advancedCursor :=
    if shouldAdvanceCursor currentCursor nextCursor then nextCursor else currentCursor.getD nextCursor
  if row.lockedBy = some workerId then
    { lastScannedPointer := some advancedCursor, lockedAt := none, lockedBy := none }
  else row

def releaseLeaseAfterError (row : WatchCursor) (workerId : Nat) : WatchCursor :=
  if row.lockedBy = some workerId then { row with lockedAt := none, lockedBy := none } else row

/-- Where a worker's `scanOne` stands: between two of its awaits. -/
inductive Phase
  | idle
  | leased
  | started (currentCursor : Option Int)
  | recording (currentCursor : Option Int) (currentBlock requiredConfirmations nextCursor : Int)
      (deposits : List RawChainDeposit)
  | failing
  deriving DecidableEq

/-- A call of `recordObservedTransaction`, with the requirement it was made under. -/
structure Observation where
  deposit : RawChainDeposit
  requiredConfirmations : Int
  deriving DecidableEq

structure State where
  -- one asset network's row, the workers scanning it and the observations they have passed on
  row : WatchCursor
  workers : Nat → Phase
  observed : List Observation

inductive Action
  | acquire (workerId : Nat) (now : Time)
  | read (workerId : Nat)
  | scan (workerId : Nat) (rpc : EvmRpc) (requiredConfirmations : Int)
  | record (workerId : Nat) (succeeds : Bool)
  | commit (workerId : Nat)
  | throws (workerId : Nat)
  | release (workerId : Nat)
  | crash (workerId : Nat)

def Action.workerId : Action → Nat
  | .acquire w _ | .read w | .scan w _ _ | .record w _ | .commit w | .throws w | .release w | .crash w => w

def State.moves (s : State) (w : Nat) (phase : Phase) : State :=
  { s with workers := Function.update s.workers w phase }

section Step

variable (network : AssetNetworkContext) (addresses : List WatchedAddress)

def scans (s : State) (w : Nat) (cursor : Option Int) (rpc : EvmRpc) (requiredConfirmations : Int) : State :=
  match rpc.blockNumber, scanForDeposits rpc network addresses cursor requiredConfirmations with
  | .ok currentBlock, .ok (deposits, nextCursor) =>
    s.moves w (.recording cursor currentBlock requiredConfirmations nextCursor deposits)
  | _, _ => s.moves w .failing

def records (s : State) (w : Nat) (cursor : Option Int) (currentBlock requiredConfirmations nextCursor : Int)
    (raw : RawChainDeposit) (rest : List RawChainDeposit) (succeeds : Bool) : State :=
  let next := .recording cursor currentBlock requiredConfirmations nextCursor rest
  if (addresses.map WatchedAddress.walletAddressId).contains raw.walletAddressId then
    if succeeds then { s.moves w next with observed := ⟨raw, requiredConfirmations⟩ :: s.observed }
    else s.moves w .failing
  else s.moves w next

/-- One await of one worker's `scanOne`. Anything after the lease may throw, and a worker may stop at any
point without releasing what it holds. -/
def step (s : State) : Action → State
  | .acquire w now =>
    if s.workers w = .idle ∧ addresses ≠ [] ∧ isFree s.row now then { s.moves w .leased with row := lease s.row w now }
    else s
  | .read w =>
    match s.workers w with
    | .leased => s.moves w (.started s.row.lastScannedPointer)
    | _ => s
  | .scan w rpc requiredConfirmations =>
    match s.workers w with
    | .started cursor => scans network addresses s w cursor rpc requiredConfirmations
    | _ => s
  | .record w succeeds =>
    match s.workers w with
    | .recording cursor currentBlock requiredConfirmations nextCursor (raw :: rest) =>
      records addresses s w cursor currentBlock requiredConfirmations nextCursor raw rest succeeds
    | _ => s
  | .commit w =>
    match s.workers w with
    | .recording cursor _ _ nextCursor [] =>
      { s.moves w .idle with row := releaseLeaseAfterSuccess s.row w cursor nextCursor }
    | _ => s
  | .throws w => if s.workers w = .idle then s else s.moves w .failing
  | .release w =>
    match s.workers w with
    | .failing => { s.moves w .idle with row := releaseLeaseAfterError s.row w }
    | _ => s
  | .crash w => s.moves w .idle

def Starts (s : State) : Prop :=
  s.row = ⟨none, none, none⟩ ∧ (∀ w, s.workers w = .idle) ∧ s.observed = []

def Reached : State → Prop :=
  Reachable Starts (step network addresses)

end Step

def nextPointer (isNative : Bool) (cursor : Option Int) (currentBlock requiredConfirmations : Int) : Int :=
  -- the pointer a scan returns for a cursor and the tip it saw
  if toBlock isNative cursor currentBlock requiredConfirmations < fromBlock cursor currentBlock then
    cursor.getD (fromBlock cursor currentBlock - 1)
  else toBlock isNative cursor currentBlock requiredConfirmations

section Pointer

variable {isNative : Bool} {cursor : Option Int} {currentBlock requiredConfirmations c : Int}

theorem scanForDeposits_next {rpc : EvmRpc} {network : AssetNetworkContext} {addresses : List WatchedAddress}
    {deposits : List RawChainDeposit} {next : Int} (tip : rpc.blockNumber = .ok currentBlock)
    (done : scanForDeposits rpc network addresses cursor requiredConfirmations = .ok (deposits, next)) :
    next = nextPointer network.isNative cursor currentBlock requiredConfirmations := by
  unfold scanForDeposits at done
  rw [tip] at done
  simp only [Fallible.bind_eq_ok, Except.ok.injEq, exists_eq_left'] at done
  unfold nextPointer
  split at done
  · rename_i empty
    rw [Fallible.pure_eq_ok] at done
    rw [if_pos empty]
    exact (Prod.mk.inj done).2.symm
  · rename_i scanned
    obtain ⟨found, _, done⟩ := Fallible.bind_eq_ok.mp done
    rw [Fallible.pure_eq_ok] at done
    rw [if_neg scanned]
    exact (Prod.mk.inj done).2.symm

theorem fromBlock_some (low : -1 ≤ c) : fromBlock (some c) currentBlock = c + 1 := by
  simp only [fromBlock, Option.getD_some]
  omega

theorem nextPointer_low (low : ∀ c, cursor = some c → -1 ≤ c) :
    -1 ≤ nextPointer isNative cursor currentBlock requiredConfirmations := by
  have positive : 0 ≤ fromBlock cursor currentBlock := le_max_right _ _
  unfold nextPointer
  split
  · cases cursor with
    | none =>
      rw [Option.getD_none]
      omega
    | some c => exact low c rfl
  · omega

theorem nextPointer_mono (low : -1 ≤ c) : c ≤ nextPointer isNative (some c) currentBlock requiredConfirmations := by
  unfold nextPointer
  split
  · exact le_rfl
  · have first : fromBlock (some c) currentBlock = c + 1 := fromBlock_some low
    omega

theorem toBlock_le : toBlock isNative cursor currentBlock requiredConfirmations ≤
    currentBlock - requiredDepth requiredConfirmations := min_le_left _ _

end Pointer

section Steps

variable {network : AssetNetworkContext} {addresses : List WatchedAddress} {s s' : State} {a : Action} {w : Nat}

@[simp] theorem moves_row (s : State) (w : Nat) (phase : Phase) : (s.moves w phase).row = s.row := rfl

@[simp] theorem moves_observed (s : State) (w : Nat) (phase : Phase) : (s.moves w phase).observed = s.observed := rfl

@[simp] theorem moves_self (s : State) (w : Nat) (phase : Phase) : (s.moves w phase).workers w = phase :=
  Function.update_self ..

theorem moves_other {other : Nat} (ne : other ≠ w) (s : State) (phase : Phase) :
    (s.moves w phase).workers other = s.workers other :=
  Function.update_of_ne ne ..

theorem scans_cases (s : State) (w : Nat) (cursor : Option Int) (rpc : EvmRpc) (requiredConfirmations : Int) :
    scans network addresses s w cursor rpc requiredConfirmations = s.moves w .failing ∨
      ∃ currentBlock deposits next, rpc.blockNumber = .ok currentBlock ∧
        scanForDeposits rpc network addresses cursor requiredConfirmations = .ok (deposits, next) ∧
        scans network addresses s w cursor rpc requiredConfirmations =
          s.moves w (.recording cursor currentBlock requiredConfirmations next deposits) := by
  unfold scans
  split
  · rename_i currentBlock deposits next tip done
    exact .inr ⟨currentBlock, deposits, next, tip, done, rfl⟩
  · exact .inl rfl

/-- What a step may do: nothing; take the lease; read the pointer; scan; pass one deposit on or skip it; commit;
throw; give the lease back; or stop. -/
inductive Stepped (network : AssetNetworkContext) (addresses : List WatchedAddress) (s : State) : Action → State → Prop
  | stays (a : Action) : Stepped network addresses s a s
  | acquired {w : Nat} {now : Time} (idle : s.workers w = .idle) (free : isFree s.row now = true) :
      Stepped network addresses s (.acquire w now) { s.moves w .leased with row := lease s.row w now }
  | started {w : Nat} (leased : s.workers w = .leased) :
      Stepped network addresses s (.read w) (s.moves w (.started s.row.lastScannedPointer))
  | scanned {w : Nat} {cursor : Option Int} {rpc : EvmRpc} {requiredConfirmations currentBlock next : Int}
      {deposits : List RawChainDeposit} (was : s.workers w = .started cursor) (tip : rpc.blockNumber = .ok currentBlock)
      (done : scanForDeposits rpc network addresses cursor requiredConfirmations = .ok (deposits, next)) :
      Stepped network addresses s (.scan w rpc requiredConfirmations)
        (s.moves w (.recording cursor currentBlock requiredConfirmations next deposits))
  | recorded {w : Nat} {cursor : Option Int} {currentBlock requiredConfirmations next : Int} {raw : RawChainDeposit}
      {rest : List RawChainDeposit} (was : s.workers w = .recording cursor currentBlock requiredConfirmations next (raw :: rest)) :
      Stepped network addresses s (.record w true)
        { s.moves w (.recording cursor currentBlock requiredConfirmations next rest) with
          observed := ⟨raw, requiredConfirmations⟩ :: s.observed }
  | skipped {w : Nat} {succeeds : Bool} {cursor : Option Int} {currentBlock requiredConfirmations next : Int}
      {raw : RawChainDeposit} {rest : List RawChainDeposit}
      (was : s.workers w = .recording cursor currentBlock requiredConfirmations next (raw :: rest))
      (unknown : raw.walletAddressId ∉ addresses.map WatchedAddress.walletAddressId) :
      Stepped network addresses s (.record w succeeds)
        (s.moves w (.recording cursor currentBlock requiredConfirmations next rest))
  | failed {a : Action} (busy : s.workers a.workerId ≠ .idle) : Stepped network addresses s a (s.moves a.workerId .failing)
  | committed {w : Nat} {cursor : Option Int} {currentBlock requiredConfirmations next : Int}
      (was : s.workers w = .recording cursor currentBlock requiredConfirmations next []) :
      Stepped network addresses s (.commit w)
        { s.moves w .idle with row := releaseLeaseAfterSuccess s.row w cursor next }
  | released {w : Nat} (was : s.workers w = .failing) :
      Stepped network addresses s (.release w) { s.moves w .idle with row := releaseLeaseAfterError s.row w }
  | crashed (w : Nat) : Stepped network addresses s (.crash w) (s.moves w .idle)

theorem step_stepped (s : State) (a : Action) : Stepped network addresses s a (step network addresses s a) := by
  cases a with
  | acquire w now =>
    rw [step]
    split
    · rename_i free
      exact .acquired free.1 free.2.2
    · exact .stays _
  | read w =>
    rw [step]
    split
    · exact .started ‹_›
    · exact .stays _
  | scan w rpc requiredConfirmations =>
    rw [step]
    split
    · rename_i cursor was
      rcases scans_cases s w cursor rpc requiredConfirmations with same | ⟨_, _, _, tip, done, same⟩
      · rw [same]
        exact .failed (show s.workers w ≠ .idle by rw [was]; simp)
      · rw [same]
        exact .scanned was tip done
    · exact .stays _
  | record w succeeds =>
    rw [step]
    split
    · rename_i was
      unfold records
      split
      · cases succeeds with
        | true => exact .recorded was
        | false => exact .failed (show s.workers w ≠ .idle by rw [was]; simp)
      · rename_i unknown
        exact .skipped was (by simpa using unknown)
    · exact .stays _
  | commit w =>
    rw [step]
    split
    · exact .committed ‹_›
    · exact .stays _
  | throws w =>
    rw [step]
    split
    · exact .stays _
    · exact .failed ‹_›
  | release w =>
    rw [step]
    split
    · exact .released ‹_›
    · exact .stays _
  | crash w => exact .crashed w

end Steps

def Phase.cursor? : Phase → Option (Option Int)
  -- the pointer a scan has read, once it has
  | .started cursor | .recording cursor _ _ _ _ => some cursor
  | _ => none

structure Sound (isNative : Bool) (s : State) : Prop where
  -- as long as a scanning worker holds the lease, the pointer is the one it has read
  low : ∀ c, s.row.lastScannedPointer = some c → -1 ≤ c
  cursors : ∀ w cursor, (s.workers w).cursor? = some cursor →
    (∀ c, cursor = some c → -1 ≤ c) ∧ (s.row.lockedBy = some w → cursor = s.row.lastScannedPointer)
  nexts : ∀ w cursor currentBlock requiredConfirmations next deposits,
    s.workers w = .recording cursor currentBlock requiredConfirmations next deposits →
      next = nextPointer isNative cursor currentBlock requiredConfirmations

section Invariant

variable {network : AssetNetworkContext} {addresses : List WatchedAddress} {s s' : State} {a : Action} {w : Nat}
  {isNative : Bool}

theorem Sound.moves (sound : Sound isNative s) {row : WatchCursor} {phase : Phase} {observed : List Observation}
    (others : row = s.row ∨ ∀ other ≠ w, row.lockedBy ≠ some other) (low : ∀ c, row.lastScannedPointer = some c → -1 ≤ c)
    (cursors : ∀ cursor, phase.cursor? = some cursor →
      (∀ c, cursor = some c → -1 ≤ c) ∧ (row.lockedBy = some w → cursor = row.lastScannedPointer))
    (nexts : ∀ cursor currentBlock requiredConfirmations next deposits,
      phase = .recording cursor currentBlock requiredConfirmations next deposits →
        next = nextPointer isNative cursor currentBlock requiredConfirmations) :
    Sound isNative { s.moves w phase with row := row, observed := observed } where
  low := low
  cursors other cursor reads := by
    -- a worker may move on as long as the others' hold on the row is left alone or lost
    by_cases same : other = w
    · subst same
      rw [show (s.moves other phase).workers other = phase from moves_self ..] at reads
      exact cursors cursor reads
    · rw [show (s.moves w phase).workers other = s.workers other from moves_other same ..] at reads
      obtain ⟨bounded, holding⟩ := sound.cursors other cursor reads
      refine ⟨bounded, fun holds => ?_⟩
      rcases others with rfl | lost
      · exact holding holds
      · exact absurd holds (lost other same)
  nexts other cursor currentBlock requiredConfirmations next deposits reads := by
    by_cases same : other = w
    · subst same
      rw [show (s.moves other phase).workers other = phase from moves_self ..] at reads
      exact nexts _ _ _ _ _ reads
    · rw [show (s.moves w phase).workers other = s.workers other from moves_other same ..] at reads
      exact sound.nexts other _ _ _ _ _ reads

theorem advancedCursor_eq {cursor : Option Int} {currentBlock requiredConfirmations : Int}
    (low : ∀ c, cursor = some c → -1 ≤ c) :
    (if shouldAdvanceCursor cursor (nextPointer isNative cursor currentBlock requiredConfirmations) then
        nextPointer isNative cursor currentBlock requiredConfirmations
      else cursor.getD (nextPointer isNative cursor currentBlock requiredConfirmations)) =
      nextPointer isNative cursor currentBlock requiredConfirmations := by
  cases cursor with
  | none => rfl
  | some c =>
    have forward : shouldAdvanceCursor (some c) (nextPointer isNative (some c) currentBlock requiredConfirmations) = true :=
      decide_eq_true (nextPointer_mono (low c rfl))
    rw [if_pos forward]

theorem Sound.committed_row (sound : Sound isNative s) {cursor : Option Int}
    {currentBlock requiredConfirmations next : Int}
    (was : s.workers w = .recording cursor currentBlock requiredConfirmations next []) :
    releaseLeaseAfterSuccess s.row w cursor next =
      if s.row.lockedBy = some w then
        ⟨some (nextPointer isNative s.row.lastScannedPointer currentBlock requiredConfirmations), none, none⟩
      else s.row := by
  -- a scan that commits with the lease in hand sets the pointer it computed; without it, nothing changes
  obtain ⟨low, holding⟩ := sound.cursors w cursor (by rw [was]; rfl)
  have computed := sound.nexts w _ _ _ _ _ was
  subst computed
  unfold releaseLeaseAfterSuccess
  rw [advancedCursor_eq low]
  by_cases holds : s.row.lockedBy = some w
  · rw [if_pos holds, if_pos holds, holding holds]
  · rw [if_neg holds, if_neg holds]

theorem Sound.step (sound : Sound network.isNative s) (stepped : Stepped network addresses s a s') :
    Sound network.isNative s' := by
  cases stepped with
  | stays => exact sound
  | acquired idle free =>
    exact sound.moves (.inr fun other ne same => ne (Option.some.inj same).symm) sound.low (by simp [Phase.cursor?])
      (by simp)
  | started leased =>
    refine sound.moves (.inl rfl) sound.low (fun cursor reads => ?_) (by simp)
    obtain rfl := Option.some.inj reads
    exact ⟨sound.low, fun _ => rfl⟩
  | scanned was tip done =>
    refine sound.moves (.inl rfl) sound.low (fun cursor reads => ?_) ?_
    · obtain rfl := Option.some.inj reads
      exact sound.cursors _ _ (by rw [was]; rfl)
    · rintro _ _ _ _ _ ⟨rfl, rfl, rfl, rfl, rfl⟩
      exact scanForDeposits_next tip done
  | recorded was =>
    refine sound.moves (.inl rfl) sound.low (fun cursor reads => ?_) ?_
    · obtain rfl := Option.some.inj reads
      exact sound.cursors _ _ (by rw [was]; rfl)
    · rintro _ _ _ _ _ ⟨rfl, rfl, rfl, rfl, rfl⟩
      exact sound.nexts _ _ _ _ _ _ was
  | skipped was unknown =>
    refine sound.moves (.inl rfl) sound.low (fun cursor reads => ?_) ?_
    · obtain rfl := Option.some.inj reads
      exact sound.cursors _ _ (by rw [was]; rfl)
    · rintro _ _ _ _ _ ⟨rfl, rfl, rfl, rfl, rfl⟩
      exact sound.nexts _ _ _ _ _ _ was
  | failed busy => exact sound.moves (.inl rfl) sound.low (by simp [Phase.cursor?]) (by simp)
  | committed was =>
    rw [sound.committed_row was]
    split
    · refine sound.moves (.inr fun _ _ => by simp) (fun c set => ?_) (by simp [Phase.cursor?]) (by simp)
      obtain rfl := Option.some.inj set
      exact nextPointer_low sound.low
    · exact sound.moves (.inl rfl) sound.low (by simp [Phase.cursor?]) (by simp)
  | released was =>
    unfold releaseLeaseAfterError
    split
    · exact sound.moves (.inr fun _ _ => by simp) sound.low (by simp [Phase.cursor?]) (by simp)
    · exact sound.moves (.inl rfl) sound.low (by simp [Phase.cursor?]) (by simp)
  | crashed w => exact sound.moves (.inl rfl) sound.low (by simp [Phase.cursor?]) (by simp)

theorem Reached.sound (reached : Reached network addresses s) : Sound network.isNative s := by
  refine Reachable.invariant (Sound network.isNative) (fun s starts => ?_) (fun s a _ sound => sound.step (step_stepped s a))
    reached
  obtain ⟨row, idle, _⟩ := starts
  exact ⟨by simp [row], by simp [idle, Phase.cursor?], by simp [idle]⟩

theorem Sound.pointer_step (sound : Sound network.isNative s) {c : Int} (set : s.row.lastScannedPointer = some c)
    (stepped : Stepped network addresses s a s') : ∃ c', s'.row.lastScannedPointer = some c' ∧ c ≤ c' := by
  cases stepped with
  | committed was =>
    rw [sound.committed_row was]
    split
    · rw [set]
      exact ⟨_, rfl, nextPointer_mono (sound.low c set)⟩
    · exact ⟨c, set, le_rfl⟩
  | released was =>
    refine ⟨c, ?_, le_rfl⟩
    unfold releaseLeaseAfterError
    split
    · exact set
    · exact set
  | stays | acquired | started | scanned | recorded | skipped | failed | crashed => exact ⟨c, set, le_rfl⟩

theorem Reached.pointer_mono (reached : Reached network addresses s) (actions : List Action) {c : Int}
    (set : s.row.lastScannedPointer = some c) :
    ∃ c', (actions.foldl (step network addresses) s).row.lastScannedPointer = some c' ∧ c ≤ c' := by
  induction actions generalizing s c with
  | nil => exact ⟨c, set, le_rfl⟩
  | cons a rest ih =>
    obtain ⟨later, moved, least⟩ := (Reached.sound reached).pointer_step set (step_stepped s a)
    obtain ⟨last, ends, more⟩ := ih (reached.tail a) moved
    exact ⟨last, ends, le_trans least more⟩

theorem Stepped.row_of_lost (stepped : Stepped network addresses s a s') (busy : s.workers a.workerId ≠ .idle)
    (lost : s.row.lockedBy ≠ some a.workerId) : s'.row = s.row := by
  cases stepped with
  | acquired idle free => exact absurd idle busy
  | committed was => exact if_neg lost
  | released was => exact if_neg lost
  | stays | started | scanned | recorded | skipped | failed | crashed => rfl

/-- What any number of workers, interleaved in any way, can do to the pointer of an asset network: it never goes
back once set; a commit's range starts right after it; no commit takes it past what the scan may read, except
that a first scan with nothing to read sets it to where the next one starts; and a worker that has lost its
lease changes neither pointer nor lock. -/
theorem scan_lease_safety (reached : Reached network addresses s) :
    (∀ (actions : List Action) (c : Int), s.row.lastScannedPointer = some c →
      ∃ c', (actions.foldl (step network addresses) s).row.lastScannedPointer = some c' ∧ c ≤ c') ∧
    (∀ w cursor currentBlock requiredConfirmations next,
      s.workers w = .recording cursor currentBlock requiredConfirmations next [] → s.row.lockedBy = some w →
      let first := fromBlock cursor currentBlock
      let last := toBlock network.isNative cursor currentBlock requiredConfirmations
      let after := (step network addresses s (.commit w)).row.lastScannedPointer
      (first ≤ last → after = some last ∧ ∀ c, s.row.lastScannedPointer = some c → first = c + 1) ∧
      (s.row.lastScannedPointer ≠ none ∨ first ≤ last → after ≠ s.row.lastScannedPointer →
        ∀ c, after = some c → c ≤ currentBlock - max 12 (requiredConfirmations - 1)) ∧
      (s.row.lastScannedPointer = none → last < first → after = some (max (currentBlock - 2000) (-1)))) ∧
    (∀ a : Action, s.workers a.workerId ≠ .idle → s.row.lockedBy ≠ some a.workerId →
      (step network addresses s a).row = s.row) := by
  have sound := Reached.sound reached
  refine ⟨fun actions c set => Reached.pointer_mono reached actions set, ?_, fun a busy lost =>
    (step_stepped s a).row_of_lost busy lost⟩
  intro w cursor currentBlock requiredConfirmations next was holds first last after
  obtain ⟨low, holding⟩ := sound.cursors w cursor (by rw [was]; rfl)
  have committed : after = some (nextPointer network.isNative cursor currentBlock requiredConfirmations) := by
    have row := sound.committed_row was
    rw [if_pos holds, ← holding holds] at row
    simp only [after, step, was, row]
  rw [committed, ← holding holds]
  have bound : last ≤ currentBlock - max 12 (requiredConfirmations - 1) := toBlock_le
  refine ⟨fun scanned => ⟨?_, fun c set => ?_⟩, fun known moved c set => ?_, fun none empty => ?_⟩
  · rw [nextPointer, if_neg (not_lt.mpr scanned)]
  · subst set
    exact fromBlock_some (low c rfl)
  · obtain rfl := Option.some.inj set
    -- an empty range leaves a known cursor where it is
    by_cases empty : last < first
    · cases cursor with
      | none => exact absurd empty (not_lt.mpr (known.resolve_left (not_not.mpr rfl)))
      | some c =>
        rw [nextPointer, if_pos empty, Option.getD_some] at moved
        exact absurd rfl moved
    · rw [nextPointer, if_neg empty]
      exact bound
  · subst none
    rw [nextPointer, if_pos empty, Option.getD_none]
    simp only [fromBlock, Option.getD_none, INITIAL_BACKFILL_BLOCKS]
    congr 1
    omega

end Invariant

section Samples

def fresh : State where
  row := ⟨none, none, none⟩
  workers _ := .idle
  observed := []

theorem fresh_reached (network : AssetNetworkContext) (addresses : List WatchedAddress) : Reached network addresses fresh :=
  .refl ⟨rfl, fun _ => rfl, rfl⟩

def ethNetwork : AssetNetworkContext where
  assetDecimals := 18
  contractAddress := none
  isNative := true

def ethAddress : WatchedAddress where
  walletAddressId := 1
  address := "0x00000000000000000000000000000000000000aa"
  destinationTag := none

def emptyChain (currentBlock : Int) : EvmRpc where
  -- a node of a chain this long whose blocks are empty
  blockNumber := .ok currentBlock
  getBlockByNumber number := .ok (some ⟨number, []⟩)
  getTransactionReceipt _ := .ok none
  getLogs _ := .ok []

def firstScan (currentBlock : Int) : List Action :=
  [.acquire 1 0, .read 1, .scan 1 (emptyChain currentBlock) 1]

theorem firstScan_reached (currentBlock : Int) :
    Reached ethNetwork [ethAddress] ((firstScan currentBlock).foldl (step ethNetwork [ethAddress]) fresh) :=
  (fresh_reached ethNetwork [ethAddress]).foldl (firstScan currentBlock)

theorem firstScan_lease_safety :
    (step ethNetwork [ethAddress] ((firstScan 40).foldl (step ethNetwork [ethAddress]) fresh)
      (.commit 1)).row.lastScannedPointer = some 28 ∧ (28 : Int) ≤ 40 - max 12 (1 - 1) := by
  have committed := (scan_lease_safety (firstScan_reached 40)).2.1 1 none 40 1 28 (by decide +kernel) (by decide +kernel)
  exact ⟨(committed.1 (by decide)).1, by decide⟩

/-- On a chain of five blocks nothing may be scanned yet, and the first commit sets the pointer to -1 all the
same, above the tip less twelve. -/
theorem shortChain_pointer :
    Reached ethNetwork [ethAddress] ((firstScan 5).foldl (step ethNetwork [ethAddress]) fresh) ∧
    ((firstScan 5).foldl (step ethNetwork [ethAddress]) fresh).workers 1 = .recording none 5 1 (-1) [] ∧
    (step ethNetwork [ethAddress] ((firstScan 5).foldl (step ethNetwork [ethAddress]) fresh)
      (.commit 1)).row.lastScannedPointer = some (-1) ∧ ¬ (-1 : Int) ≤ 5 - max 12 (1 - 1) :=
  ⟨firstScan_reached 5, by decide +kernel, by decide +kernel, by decide⟩

end Samples

end DepositWatcherService

end VerdictVaut

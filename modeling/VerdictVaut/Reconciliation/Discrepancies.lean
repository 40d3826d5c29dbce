import VerdictVaut.Shared.Runs
import VerdictVaut.Trading.Types

set_option autoImplicit false

namespace VerdictVaut

open Relational Relational.Tx

inductive DiscrepancyStatus
  | opened | acknowledged | resolved | falsePositive
  deriving DecidableEq, Repr

structure ReconciliationDiscrepancy where
  -- the columns that the two reconciliation services select on or decide by
  runId : Nat
  assetNetworkId : Option Nat
  marketId : Option Nat
  type : String
  severity : String
  chainIdentity : String
  status : DiscrepancyStatus
  createdAt : Time
  resolvedAt : Option Time
  resolvedByUserId : Option Nat
  notes : Option String
  idempotencyKey : String
  deriving DecidableEq

namespace ReconciliationDiscrepancy

def isOpen (row : ReconciliationDiscrepancy) : Bool :=
  decide (row.status ∈ [DiscrepancyStatus.opened, .acknowledged])

end ReconciliationDiscrepancy

instance : RowSpec ReconciliationDiscrepancy where
  check row :=
    (row.assetNetworkId.isSome != row.marketId.isSome) &&
    (if row.isOpen then row.resolvedAt.isNone && row.resolvedByUserId.isNone
      else row.resolvedAt.isSome && row.resolvedByUserId.isSome)
  clash a b := uniqueOn ["idempotencyKey"] (a.idempotencyKey = b.idempotencyKey)
  clash_symm a b := by simp only [uniqueOn, eq_comm]

namespace Reconciliation

/-- What a discrepancy is about: a finding of `IndependentReconciliationService` on an asset network, or the one
that `CollateralReconciliationService` has for a market. -/
inductive Finding
  | onAssetNetwork (assetNetworkId : Nat) (type chainIdentity : String)
  | onMarket (marketId : Nat)
  deriving DecidableEq

namespace Finding

def baseKey : Finding → String
  | .onAssetNetwork assetNetworkId type chainIdentity => toString assetNetworkId ++ ":" ++ type ++ ":" ++ chainIdentity
  | .onMarket marketId => "market:" ++ toString marketId ++ ":collateral_balance_mismatch"

/-- The `where` of `stillOpen`, status apart. -/
def selects : Finding → ReconciliationDiscrepancy → Bool
  | .onAssetNetwork assetNetworkId type chainIdentity, row =>
    decide (row.assetNetworkId = some assetNetworkId ∧ row.type = type ∧ row.chainIdentity = chainIdentity)
  | .onMarket marketId, row => decide (row.marketId = some marketId ∧ row.type = "collateral_balance_mismatch")

def selectsOpen (finding : Finding) (row : ReconciliationDiscrepancy) : Bool :=
  finding.selects row && row.isOpen

def assetNetworkId : Finding → Option Nat
  | .onAssetNetwork assetNetworkId _ _ => some assetNetworkId
  | .onMarket _ => none

def marketId : Finding → Option Nat
  | .onAssetNetwork _ _ _ => none
  | .onMarket marketId => some marketId

def type : Finding → String
  | .onAssetNetwork _ type _ => type
  | .onMarket _ => "collateral_balance_mismatch"

def chainIdentity : Finding → String
  | .onAssetNetwork _ _ chainIdentity => chainIdentity
  | .onMarket marketId => "collateral:" ++ toString marketId

end Finding

structure DiscrepancyInput where
  runId : Nat
  finding : Finding
  severity : String
  deriving DecidableEq

def discrepancyRow (input : DiscrepancyInput) (idempotencyKey : String) (now : Time) : ReconciliationDiscrepancy :=
  { runId := input.runId
    assetNetworkId := input.finding.assetNetworkId
    marketId := input.finding.marketId
    type := input.finding.type
    severity := input.severity
    chainIdentity := input.finding.chainIdentity
    status := .opened
    createdAt := now
    resolvedAt := none
    resolvedByUserId := none
    notes := none
    idempotencyKey := idempotencyKey }

/-- Where a `createDiscrepancy` call stands: between two of its database statements. -/
inductive Phase
  | received
  -- no open row was found; the key is computed and the row to be inserted; the key was taken
  | absent
  | inserting (idempotencyKey : String)
  | conflicting (idempotencyKey : String)
  -- the row that the call returned, or none when it threw
  | finished (discrepancyId : Option Nat)
  deriving DecidableEq

structure Call where
  input : DiscrepancyInput
  phase : Phase
  deriving DecidableEq

structure State where
  discrepancies : Table ReconciliationDiscrepancy
  calls : List Call

inductive Outcome
  | resolved | falsePositive
  deriving DecidableEq

def Outcome.status : Outcome → DiscrepancyStatus
  | .resolved => .resolved
  | .falsePositive => .falsePositive

inductive Action
  | createDiscrepancy (input : DiscrepancyInput)
  | advance (call : Nat) (now : Time)
  | abort (call : Nat)
  | acknowledge (discrepancyId : Nat)
  | resolve (discrepancyId actorId : Nat) (notes : String) (outcome : Outcome) (now : Time)

def State.moves (s : State) (k : Nat) (input : DiscrepancyInput) (phase : Phase) : State :=
  { s with calls := s.calls.set k ⟨input, phase⟩ }

section Statements

variable (s : State) (k : Nat) (now : Time)

def findStillOpen (input : DiscrepancyInput) : Phase :=
  match Table.earliest ReconciliationDiscrepancy.createdAt (s.discrepancies.findMany input.finding.selectsOpen) with
  | some stillOpen => .finished (some stillOpen.1)
  | none => .absent

def withKey (idempotencyKey : String) (row : ReconciliationDiscrepancy) : Bool :=
  decide (row.idempotencyKey = idempotencyKey)

def chooseKey (input : DiscrepancyInput) : Phase :=
  -- only the first row of a finding has the base key; the key of a later one ends with the clock
  match s.discrepancies.find? (withKey input.finding.baseKey) with
  | some _ => .inserting (input.finding.baseKey ++ ":" ++ toString now)
  | none => .inserting input.finding.baseKey

def insertRow (input : DiscrepancyInput) (idempotencyKey : String) : State :=
  match s.discrepancies.insert (discrepancyRow input idempotencyKey now) with
  | .ok t => { s.moves k input (.finished (some s.discrepancies.size)) with discrepancies := t }
  | .error (.uniqueViolation target) =>
    s.moves k input (if "idempotencyKey" ∈ target then .conflicting idempotencyKey else .finished none)
  | .error _ => s.moves k input (.finished none)

def findExisting (idempotencyKey : String) : Phase :=
  .finished ((s.discrepancies.find? (withKey idempotencyKey)).map Prod.fst)

/-- The next statement of a `createDiscrepancy` call, of either service. -/
def advance (input : DiscrepancyInput) : Phase → State
  | .received => s.moves k input (findStillOpen s input)
  | .absent => s.moves k input (chooseKey s now input)
  | .inserting idempotencyKey => insertRow s k now input idempotencyKey
  | .conflicting idempotencyKey => s.moves k input (findExisting s idempotencyKey)
  | .finished _ => s

end Statements

def rewrite (s : State) (discrepancyId : Nat) (selected : ReconciliationDiscrepancy → Bool)
    (data : ReconciliationDiscrepancy → ReconciliationDiscrepancy) : State :=
  match s.discrepancies.get? discrepancyId with
  | some row =>
    if selected row then
      match s.discrepancies.update discrepancyId (data row) with
      | .ok t => { s with discrepancies := t }
      | .error _ => s
    else s
  | none => s

def acknowledge (s : State) (discrepancyId : Nat) : State :=
  rewrite s discrepancyId (fun row => decide (row.status = .opened)) fun row => { row with status := .acknowledged }

def resolve (s : State) (discrepancyId actorId : Nat) (notes : String) (outcome : Outcome) (now : Time) : State :=
  rewrite s discrepancyId ReconciliationDiscrepancy.isOpen fun row =>
    { row with
      status := outcome.status
      resolvedByUserId := some actorId
      resolvedAt := some now
      notes := some notes }

def step (s : State) : Action → State
  | .createDiscrepancy input => { s with calls := s.calls ++ [⟨input, .received⟩] }
  | .advance k now =>
    match s.calls[k]? with
    | some call => advance s k now call.input call.phase
    | none => s
  | .abort k =>
    match s.calls[k]? with
    | some call => s.moves k call.input (.finished none)
    | none => s
  | .acknowledge discrepancyId => acknowledge s discrepancyId
  | .resolve discrepancyId actorId notes outcome now => resolve s discrepancyId actorId notes outcome now

def OneOpen (s : State) : Prop :=
  ∀ (finding : Finding) i j a b, s.discrepancies.get? i = some a → s.discrepancies.get? j = some b →
    finding.selectsOpen a = true → finding.selectsOpen b = true → i = j

namespace Call

/-- It has found no open row and is yet to look under the base key. -/
def looked (call : Call) : Bool := decide (call.phase = .absent)

def inserts (call : Call) : Bool :=
  match call.phase with
  | .inserting _ => true
  | _ => false

end Call

/-- A call does not run its insert while another call of its finding is between its first read and its own insert,
unless the finding never had a row and the other call has made both of its reads. -/
def InsertsApart (s : State) : Action → Prop
  | .advance k _ => ∀ call ∈ s.calls[k]?, call.inserts = true → ∀ j < s.calls.length, ∀ other ∈ s.calls[j]?,
    j ≠ k → other.input.finding = call.input.finding →
      other.looked = false ∧
      (other.inserts = true → s.discrepancies.find? (withKey call.input.finding.baseKey) = none)
  | _ => True

section Steps

variable {s s' : State} {k : Nat} {now : Time} {input : DiscrepancyInput} {finding : Finding} {key : String}

theorem selects_discrepancyRow {other : Finding} :
    other.selects (discrepancyRow input key now) = true ↔ input.finding = other := by
  cases other <;> cases found : input.finding <;>
    simp [Finding.selects, discrepancyRow, found, Finding.assetNetworkId, Finding.marketId, Finding.type,
      Finding.chainIdentity]

theorem selectsOpen_discrepancyRow {other : Finding} :
    other.selectsOpen (discrepancyRow input key now) = true ↔ input.finding = other := by
  rw [Finding.selectsOpen, Bool.and_eq_true, selects_discrepancyRow]
  simp [discrepancyRow, ReconciliationDiscrepancy.isOpen]

theorem check_discrepancyRow : RowSpec.check (discrepancyRow input key now) = true := by
  cases found : input.finding <;>
    simp [RowSpec.check, discrepancyRow, found, Finding.assetNetworkId, Finding.marketId,
      ReconciliationDiscrepancy.isOpen]

def Closing (t t' : Table ReconciliationDiscrepancy) : Prop :=
  -- a row of a finding stays one, and what is open was open before
  ∀ i row', t'.get? i = some row' → ∃ row, t.get? i = some row ∧
    ∀ finding : Finding, finding.selectsOpen row' = true → finding.selectsOpen row = true

theorem Closing.oneOpen (closing : Closing s.discrepancies s'.discrepancies) (one : OneOpen s) : OneOpen s' := by
  intro finding i j a b first second openA openB
  obtain ⟨a', first', wasA⟩ := closing i a first
  obtain ⟨b', second', wasB⟩ := closing j b second
  exact one finding i j a' b' first' second' (wasA finding openA) (wasB finding openB)

theorem Closing.refl (t : Table ReconciliationDiscrepancy) : Closing t t :=
  fun _ row found => ⟨row, found, fun _ was => was⟩

theorem rewrite_closing {id : Nat} {selected : ReconciliationDiscrepancy → Bool}
    {data : ReconciliationDiscrepancy → ReconciliationDiscrepancy}
    (kept : ∀ row, selected row = true → ∀ finding : Finding, finding.selectsOpen (data row) = true →
      finding.selectsOpen row = true) : Closing s.discrepancies (rewrite s id selected data).discrepancies := by
  unfold rewrite
  split
  next row found =>
    split
    next picked =>
      split
      next t updated =>
        intro i row' there
        have wrote : s.discrepancies.Wrote t id (data row) := .of_update updated
        rw [wrote i] at there
        split at there
        next same =>
          cases there
          exact ⟨row, by rw [same, found], kept row picked⟩
        next => exact ⟨row', there, fun _ was => was⟩
      next => exact .refl _
    next => exact .refl _
  next => exact .refl _

theorem acknowledge_closing {id : Nat} : Closing s.discrepancies (acknowledge s id).discrepancies := by
  apply rewrite_closing
  intro row picked finding selected
  have opened : row.status = .opened := by simpa using picked
  simp only [Finding.selectsOpen, Bool.and_eq_true] at selected ⊢
  refine ⟨?_, by simp [ReconciliationDiscrepancy.isOpen, opened]⟩
  cases finding <;> exact selected.1

theorem resolve_closing {id actorId : Nat} {notes : String} {outcome : Outcome} :
    Closing s.discrepancies (resolve s id actorId notes outcome now).discrepancies := by
  apply rewrite_closing
  intro row picked finding selected
  simp only [Finding.selectsOpen, Bool.and_eq_true] at selected
  cases outcome <;> simp [ReconciliationDiscrepancy.isOpen, Outcome.status] at selected

theorem oneOpen_inserted {t : Table ReconciliationDiscrepancy} (one : OneOpen s)
    (none_open : s.discrepancies.find? input.finding.selectsOpen = none)
    (inserted : s.discrepancies.insert (discrepancyRow input key now) = .ok t) (calls : List Call) :
    OneOpen ⟨t, calls⟩ := by
  -- an insert that succeeds adds the only open row of its finding when there was none
  have get := Table.get?_of_append (Table.insert_ok inserted).2.2
  intro finding i j a b first second openA openB
  by_cases mine : input.finding = finding
  next =>
    subst mine
    have only {i : Nat} {a : ReconciliationDiscrepancy} (found : t.get? i = some a)
        (opened : input.finding.selectsOpen a = true) : i = s.discrepancies.size := by
      rw [get] at found
      split at found
      next last => exact last
      next => simp [Table.find?_none.mp none_open a (Table.get?_mem found)] at opened
    rw [only first openA, only second openB]
  next =>
    have old {i : Nat} {a : ReconciliationDiscrepancy} (found : t.get? i = some a)
        (opened : finding.selectsOpen a = true) : s.discrepancies.get? i = some a := by
      rw [get] at found
      split at found
      next =>
        cases found
        exact absurd (selectsOpen_discrepancyRow.mp opened) mine
      next => exact found
    exact one finding i j a b (old first openA) (old second openB) openA openB

theorem insertRow_cases :
    (∃ t, s.discrepancies.insert (discrepancyRow input key now) = .ok t ∧
      s.discrepancies.find? (withKey key) = none ∧
      insertRow s k now input key = ⟨t, s.calls.set k ⟨input, .finished (some s.discrepancies.size)⟩⟩) ∨
    s.discrepancies.find? (withKey key) ≠ none ∧
      ∃ phase, (phase = .conflicting key ∨ phase = .finished none) ∧ insertRow s k now input key = s.moves k input phase := by
  -- what an insert statement can do: add the row under a key that was free, or leave the table as it is
  unfold insertRow
  split
  next t inserted =>
    refine .inl ⟨t, inserted, ?_, rfl⟩
    rw [Table.find?_none]
    intro row member
    have apart : ¬ key = row.idempotencyKey := uniqueOn_eq_none.mp ((Table.insert_ok inserted).2.1 row member)
    simpa [withKey] using Ne.symm apart
  next target taken =>
    obtain ⟨other, member, hit⟩ := Table.insert_unique taken
    have same : key = other.idempotencyKey := (uniqueOn_eq_some.mp hit).1
    refine .inr ⟨?_, _, ?_, rfl⟩
    next =>
      intro free
      have apart := Table.find?_none.mp free other member
      simp [withKey, same] at apart
    next => split <;> simp
  next error failed notUnique =>
    -- the row satisfies the table's checks, so only the unique index can refuse it
    unfold Table.insert at notUnique
    rw [dif_pos check_discrepancyRow] at notUnique
    split at notUnique
    next target _ => cases notUnique; exact absurd rfl (failed target)
    next => cases notUnique

/-- What the calls in flight have read still holds: none that is yet to insert has an open row of its finding in the
table, unless its key is taken. -/
structure Looked (t : Table ReconciliationDiscrepancy) (call : Call) : Prop where
  absent : call.looked = true → t.find? call.input.finding.selectsOpen = none
  inserting : ∀ idempotencyKey, call.phase = .inserting idempotencyKey →
    t.find? call.input.finding.selectsOpen = none ∨ t.find? (withKey idempotencyKey) ≠ none
  baseKey : ∀ idempotencyKey, call.phase = .inserting idempotencyKey →
    t.find? (withKey call.input.finding.baseKey) = none → idempotencyKey = call.input.finding.baseKey

structure Kept (s : State) : Prop where
  oneOpen : OneOpen s
  looked : ∀ (j : Nat) (call : Call), s.calls[j]? = some call → Looked s.discrepancies call

theorem Looked.idle {t : Table ReconciliationDiscrepancy} {call : Call} (notLooked : call.looked = false)
    (notInserting : ∀ idempotencyKey, call.phase ≠ .inserting idempotencyKey) : Looked t call where
  absent looked := by simp [notLooked] at looked
  inserting idempotencyKey is := absurd is (notInserting idempotencyKey)
  baseKey idempotencyKey is := absurd is (notInserting idempotencyKey)

def KeysKept (t t' : Table ReconciliationDiscrepancy) : Prop :=
  -- the keys in the table are those that were there
  ∀ key, t'.find? (withKey key) = none ↔ t.find? (withKey key) = none

theorem Looked.closing {t t' : Table ReconciliationDiscrepancy} {call : Call} (looked : Looked t call)
    (closing : Closing t t') (keys : KeysKept t t') : Looked t' call := by
  have still (finding : Finding) (none_open : t.find? finding.selectsOpen = none) :
      t'.find? finding.selectsOpen = none := by
    rw [Table.find?_none] at none_open ⊢
    intro row' member
    by_contra opened
    obtain ⟨i, found⟩ := Table.mem_iff_get?.mp member
    obtain ⟨row, was, opened_before⟩ := closing i row' found
    have closed := none_open row (Table.get?_mem was)
    simp [opened_before finding (by simpa using opened)] at closed
  constructor
  next => exact fun is => still _ (looked.absent is)
  next =>
    intro key is
    rcases looked.inserting key is with none_open | taken
    next => exact .inl (still _ none_open)
    next => exact .inr (mt (keys key).mp taken)
  next => exact fun key is free => looked.baseKey key is ((keys _).mp free)

theorem KeysKept.refl (t : Table ReconciliationDiscrepancy) : KeysKept t t := fun _ => Iff.rfl

theorem rewrite_keys {id : Nat} {selected : ReconciliationDiscrepancy → Bool}
    {data : ReconciliationDiscrepancy → ReconciliationDiscrepancy}
    (same : ∀ row, (data row).idempotencyKey = row.idempotencyKey) :
    KeysKept s.discrepancies (rewrite s id selected data).discrepancies := by
  unfold rewrite
  split
  next row found =>
    split
    next =>
      split
      next t updated =>
        have wrote : s.discrepancies.Wrote t id (data row) := .of_update updated
        intro key
        simp only [Table.find?_none, Table.mem_iff_get?]
        constructor
        next =>
          rintro free other ⟨i, there⟩
          by_cases it : i = id
          next =>
            subst it
            cases there.symm.trans found
            simpa [withKey, same] using free (data row) ⟨i, wrote.get⟩
          next => exact free other ⟨i, (wrote.other it).trans there⟩
        next =>
          rintro free other ⟨i, there⟩
          rw [wrote i] at there
          split at there
          next =>
            cases there
            simpa [withKey, same] using free row ⟨id, found⟩
          next => exact free other ⟨i, there⟩
      next => exact .refl _
    next => exact .refl _
  next => exact .refl _

theorem rewrite_calls {id : Nat} {selected : ReconciliationDiscrepancy → Bool}
    {data : ReconciliationDiscrepancy → ReconciliationDiscrepancy} : (rewrite s id selected data).calls = s.calls := by
  unfold rewrite
  split
  next =>
    split
    next => split <;> rfl
    next => rfl
  next => rfl

theorem Kept.closing (kept : Kept s) (calls : s'.calls = s.calls) (closing : Closing s.discrepancies s'.discrepancies)
    (keys : KeysKept s.discrepancies s'.discrepancies) : Kept s' where
  oneOpen := closing.oneOpen kept.oneOpen
  looked j call there := (kept.looked j call (by rw [← calls, there])).closing closing keys

theorem Kept.moves {phase : Phase} (kept : Kept s) (mine : Looked s.discrepancies ⟨input, phase⟩) :
    Kept (s.moves k input phase) where
  oneOpen := kept.oneOpen
  looked j call there := by
    by_cases here : j = k
    next =>
      subst here
      obtain ⟨inside, -⟩ := List.getElem?_eq_some_iff.mp there
      simp only [State.moves, List.length_set] at inside
      simp only [State.moves, List.getElem?_set_self inside] at there
      cases there
      exact mine
    next =>
      simp only [State.moves, List.getElem?_set_ne (Ne.symm here)] at there
      exact kept.looked j call there

theorem findStillOpen_looked : Looked s.discrepancies ⟨input, findStillOpen s input⟩ := by
  unfold findStillOpen
  split
  next => exact .idle rfl (by simp)
  next nothing =>
    rw [Table.earliest_none] at nothing
    refine ⟨fun _ => ?_, by simp, by simp⟩
    rw [Table.find?_none]
    intro row member
    by_contra opened
    obtain ⟨i, found⟩ := Table.mem_iff_get?.mp member
    have listed := Table.mem_findMany.mpr ⟨found, by simpa using opened⟩
    rw [nothing] at listed
    cases listed

theorem chooseKey_looked (looked : Looked s.discrepancies ⟨input, .absent⟩) :
    Looked s.discrepancies ⟨input, chooseKey s now input⟩ := by
  have none_open := looked.absent rfl
  unfold chooseKey
  split
  next taken =>
    refine ⟨by simp [Call.looked], fun key _ => .inl none_open, fun key _ free => ?_⟩
    simp [taken] at free
  next =>
    refine ⟨by simp [Call.looked], fun key _ => .inl none_open, fun key is _ => ?_⟩
    cases is
    rfl

/-- What another call has read outlives an insert of the same finding that comes apart from it, and any insert of
another finding. -/
theorem Looked.inserted {t : Table ReconciliationDiscrepancy} {other : Call} (looked : Looked s.discrepancies other)
    (inserted : s.discrepancies.insert (discrepancyRow input key now) = .ok t)
    (base : s.discrepancies.find? (withKey input.finding.baseKey) = none → key = input.finding.baseKey)
    (apart : other.input.finding = input.finding → other.looked = false ∧
      (other.inserts = true → s.discrepancies.find? (withKey input.finding.baseKey) = none)) : Looked t other := by
  have rows := (Table.insert_ok inserted).2.2
  have none_after {wanted : ReconciliationDiscrepancy → Bool} : t.find? wanted = none ↔
      s.discrepancies.find? wanted = none ∧ wanted (discrepancyRow input key now) = false := by
    simp only [Table.find?_none, rows, List.mem_append, List.mem_singleton, or_imp, forall_and, forall_eq]
  have still (different : other.input.finding ≠ input.finding)
      (none_open : s.discrepancies.find? other.input.finding.selectsOpen = none) :
      t.find? other.input.finding.selectsOpen = none := by
    rw [none_after]
    refine ⟨none_open, ?_⟩
    by_contra opened
    exact different (selectsOpen_discrepancyRow.mp (by simpa using opened)).symm
  constructor
  next =>
    intro is
    by_cases same : other.input.finding = input.finding
    next => simp [(apart same).1] at is
    next => exact still same (looked.absent is)
  next =>
    intro otherKey is
    by_cases same : other.input.finding = input.finding
    next =>
      -- neither call met a row under the base key, so both insert under it and this insert takes it
      have free := (apart same).2 (by simp [Call.inserts, is])
      have mine : otherKey = input.finding.baseKey := by
        rw [← same]
        exact looked.baseKey otherKey is (by rw [same, free])
      refine .inr fun untaken => ?_
      have missed := (none_after.mp untaken).2
      simp [withKey, discrepancyRow, mine, base free] at missed
    next =>
      rcases looked.inserting otherKey is with none_open | taken
      next => exact .inl (still same none_open)
      next => exact .inr fun free => taken (none_after.mp free).1
  next => exact fun otherKey is free => looked.baseKey otherKey is (none_after.mp free).1

theorem insertRow_kept (kept : Kept s) (here : s.calls[k]? = some ⟨input, .inserting key⟩)
    (apart : InsertsApart s (.advance k now)) : Kept (insertRow s k now input key) := by
  have mine := kept.looked k _ here
  rcases @insertRow_cases s k now input key with
    ⟨t, inserted, free, is⟩ | ⟨-, phase, idle, is⟩
  next =>
    rw [is]
    have none_open := (mine.inserting key rfl).resolve_right (by simp [free])
    refine ⟨oneOpen_inserted kept.oneOpen none_open inserted _, fun j other there => ?_⟩
    by_cases same : j = k
    next =>
      subst same
      obtain ⟨inside, -⟩ := List.getElem?_eq_some_iff.mp there
      simp only [List.length_set] at inside
      simp only [List.getElem?_set_self inside] at there
      cases there
      exact .idle rfl (by simp)
    next =>
      simp only [List.getElem?_set_ne (Ne.symm same)] at there
      have inside := (List.getElem?_eq_some_iff.mp there).1
      exact (kept.looked j other there).inserted inserted (mine.baseKey key rfl)
        fun finding => apart _ here rfl j inside other there same finding
  next =>
    rw [is]
    apply kept.moves
    rcases idle with rfl | rfl <;> exact .idle rfl (by simp)

theorem advance_kept (kept : Kept s) {phase : Phase} (here : s.calls[k]? = some ⟨input, phase⟩)
    (apart : InsertsApart s (.advance k now)) : Kept (advance s k now input phase) := by
  cases phase with
  | received => exact kept.moves findStillOpen_looked
  | absent => exact kept.moves (chooseKey_looked (kept.looked k _ here))
  | inserting key => exact insertRow_kept kept here apart
  | conflicting key => exact kept.moves (.idle rfl (by simp [findExisting]))
  | finished id => exact kept

theorem step_kept (kept : Kept s) (action : Action) (apart : InsertsApart s action) : Kept (step s action) := by
  cases action with
  | createDiscrepancy input =>
    refine ⟨kept.oneOpen, fun j call there => ?_⟩
    rcases List.mem_append.mp (List.mem_of_getElem? there) with old | new
    next =>
      obtain ⟨i, found⟩ := List.mem_iff_getElem?.mp old
      exact kept.looked i call found
    next =>
      cases List.mem_singleton.mp new
      exact .idle rfl (by simp)
  | advance k now =>
    simp only [step]
    split
    next call here => exact advance_kept kept here apart
    next => exact kept
  | abort k =>
    simp only [step]
    split
    next => exact kept.moves (.idle rfl (by simp))
    next => exact kept
  | acknowledge id =>
    exact kept.closing rewrite_calls acknowledge_closing (rewrite_keys fun _ => rfl)
  | resolve id actorId notes outcome now =>
    exact kept.closing rewrite_calls resolve_closing (rewrite_keys fun _ => rfl)

/-- In every state of a run in which no call inserts between another's first read and insert, each finding has at most
one open row. -/
theorem oneOpen_apart (one : OneOpen s) (quiet : s.calls = []) (actions : List Action)
    (apart : Allowed InsertsApart step s actions) (earlier rest : List Action) (split : actions = earlier ++ rest) :
    OneOpen (earlier.foldl step s) := by
  subst split
  have start : Kept s := ⟨one, fun j call there => by simp [quiet] at there⟩
  have guarded : Guarded (fun s => Kept s) InsertsApart step (earlier.foldl step s) :=
    (Guarded.refl start).foldl earlier apart.append_left
  exact (guarded.invariant Kept (fun _ kept => kept) fun s action _ allowed kept => step_kept kept action allowed).oneOpen

end Steps

instance (s : State) (action : Action) : Decidable (InsertsApart s action) := by
  unfold InsertsApart
  cases action <;> infer_instance

def noDiscrepancies : State := ⟨.empty, []⟩

def missingDeposit (runId : Nat) : DiscrepancyInput :=
  ⟨runId, .onAssetNetwork 0 "chain_event_missing_internal_deposit" "0x1:0", "CRITICAL"⟩

/-- Two rescans come upon one finding: the second inserts its row after the first has looked for an open one. -/
def twoRescans : List Action :=
  [.createDiscrepancy (missingDeposit 0), .createDiscrepancy (missingDeposit 1), .advance 0 1, .advance 1 1,
    .advance 1 2, .advance 1 3, .advance 0 4, .advance 0 5]

theorem noDiscrepancies_oneOpen : OneOpen noDiscrepancies := by
  intro finding i j a b first
  simp [noDiscrepancies] at first

/-- The key of the first rescan then carries its clock, so its row is inserted as well. -/
theorem twoRescans_reopen : ¬ OneOpen (twoRescans.foldl step noDiscrepancies) := by
  intro one
  have first : (twoRescans.foldl step noDiscrepancies).discrepancies.get? 0 =
      some (discrepancyRow (missingDeposit 1) "0:chain_event_missing_internal_deposit:0x1:0" 3) := by
    decide +kernel
  have second : (twoRescans.foldl step noDiscrepancies).discrepancies.get? 1 =
      some (discrepancyRow (missingDeposit 0) "0:chain_event_missing_internal_deposit:0x1:0:4" 5) := by
    decide +kernel
  have same := one (missingDeposit 0).finding 0 1 _ _ first second (by decide) (by decide)
  cases same

/-- Both rescans read before either inserts and the second insert finds the key taken; the row is resolved, and a third
rescan opens it again under a key of its own. -/
def rescansApart : List Action :=
  [.createDiscrepancy (missingDeposit 0), .createDiscrepancy (missingDeposit 1), .advance 0 1, .advance 1 1,
    .advance 0 2, .advance 1 2, .advance 1 3, .advance 0 4, .advance 0 5, .resolve 0 7 "credited by hand" .resolved 6,
    .createDiscrepancy (missingDeposit 2), .advance 2 7, .advance 2 8, .advance 2 9]

theorem rescansApart_oneOpen : (rescansApart.foldl step noDiscrepancies).discrepancies.size = 2 ∧
    OneOpen (rescansApart.foldl step noDiscrepancies) :=
  ⟨by decide +kernel, oneOpen_apart noDiscrepancies_oneOpen rfl rescansApart (by decide +kernel) rescansApart [] rfl⟩

end Reconciliation

end VerdictVaut

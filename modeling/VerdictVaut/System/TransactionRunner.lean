import VerdictVaut.Shared.Retry
import VerdictVaut.System.Charged

set_option autoImplicit false

namespace VerdictVaut.SerializableTransactionRunner

open Relational Relational.Tx Retry VerdictVaut.Core

/-- What a transaction may be rejected with: what its body throws, and what the driver reports. -/
inductive TransactionError
  | fault (fault : Fault)
  | knownRequest (code : String) (metaCode : Option String)
  | unknownRequest (message : String)
  | error (message : String)
  deriving DecidableEq

def serializationFailureSqlstate : String := "40001"

def defaultMaxAttempts : Nat := 15

def deadlockSqlstate : String := "40P01"

def isSerializationFailure : TransactionError → Bool
  | .fault (.staleSnapshotConflict _) => true
  | .knownRequest code metaCode => decide (code = "P2034") || decide (metaCode = some serializationFailureSqlstate)
  | _ => false

def includes (text part : String) : Bool := decide (part.toList <:+: text.toList)

def isDeadlock : TransactionError → Bool
  | .knownRequest _ metaCode => decide (metaCode = some deadlockSqlstate)
  | .unknownRequest message => includes message deadlockSqlstate || includes message.toLower "deadlock detected"
  | _ => false

/-- The errors that are documented to mean that the transaction was rolled back: its body has thrown, the client reports a
write conflict, or the database reports a transaction rollback, which is the class `40` of its states. -/
inductive ReportsRollback : TransactionError → Prop
  | thrown (fault : Fault) : ReportsRollback (.fault fault)
  | writeConflict (metaCode : Option String) : ReportsRollback (.knownRequest "P2034" metaCode)
  | transactionRollback (code sqlstate : String) (rollback : "40".toList <+: sqlstate.toList) :
      ReportsRollback (.knownRequest code (some sqlstate))
  | deadlockDetected (message : String)
      (reported : includes message "40P01" = true ∨ includes message.toLower "deadlock detected" = true) :
      ReportsRollback (.unknownRequest message)

theorem retryable_rollback {e : TransactionError} (retryable : (isDeadlock e || isSerializationFailure e) = true) :
    ReportsRollback e := by
  rw [Bool.or_eq_true] at retryable
  cases e with
  | fault fault => exact .thrown fault
  | knownRequest code metaCode =>
    simp only [isDeadlock, isSerializationFailure, Bool.or_eq_true, decide_eq_true_eq] at retryable
    rcases retryable with rfl | rfl | rfl
    · exact .transactionRollback code _ (by decide)
    · exact .writeConflict metaCode
    · exact .transactionRollback code _ (by decide)
  | unknownRequest message =>
    simp only [isDeadlock, isSerializationFailure, Bool.or_eq_true, Bool.false_eq_true, or_false] at retryable
    exact .deadlockDetected message retryable
  | error message => simp [isDeadlock, isSerializationFailure] at retryable

variable {σ α : Type}

/-- Every call of `run` has a body and the same number of attempts. -/
def policy (ledger : Field σ Ledger) (fn : Nat → Tx σ Fault α) (maxAttempts : Nat) : Policy σ TransactionError α where
  body call store :=
    match (runTransaction ledger (fn call)).run store with
    | .ok result => .ok result
    | .error fault => .error (.fault fault)
  retryable error := isDeadlock error || isSerializationFailure error
  maxAttempts := maxAttempts
  exhausted := .error "SerializableTransactionRunner: exhausted retries without a result"

variable {ledger : Field σ Ledger} {fn : Nat → Tx σ Fault α} {maxAttempts : Nat} {store next : σ} {call : Nat} {a : α}

theorem body_ok (done : (policy ledger fn maxAttempts).body call store = .ok (a, next)) :
    next = commit (runTransaction ledger (fn call)) store := by
  simp only [policy] at done
  split at done
  next result ran =>
    cases done
    rw [commit, ran]
  next => cases done

theorem serial_foldl {order : List (Nat × α)} {final : σ} (serial : (policy ledger fn maxAttempts).Serial store order final) :
    final = (order.map Prod.fst).foldl (fun store call => commit (runTransaction ledger (fn call)) store) store := by
  induction order generalizing store with
  | nil => exact serial
  | cons head rest ih =>
    obtain ⟨middle, first, others⟩ := serial
    rw [List.map_cons, List.foldl_cons, ← body_ok first]
    exact ih others

/-- Concurrent calls of `run` are as if the transactions of those that committed had run alone, one after the other, each
once. -/
structure Atomic (ledger : Field σ Ledger) (fn : Nat → Tx σ Fault α) (maxAttempts : Nat) (store : σ)
    (s : Retry.System σ TransactionError α) : Prop where
  folded : ∃ order, List.Perm order (s.committed.map Prod.fst) ∧ order.Nodup ∧
    s.store = order.foldl (fun store call => commit (runTransaction ledger (fn call)) store) store
  returned : ∀ call a, s.phase call = .returned a → (call, a) ∈ s.committed
  threw : ∀ call attempt error, s.phase call = .threw attempt error → ReportsRollback error → call ∉ s.committed.map Prod.fst
  exhausted : ∀ call attempt error, s.phase call = .threw attempt error →
    isDeadlock error = true ∨ isSerializationFailure error = true → maxAttempts ≤ attempt
  unfinished : ∀ call attempt, (s.phase call = .idle attempt ∨ s.phase call = .attempting attempt) →
    1 ≤ attempt ∧ attempt ≤ maxAttempts ∧ call ∉ s.committed.map Prod.fst
  kept : ∀ I : σ → Prop, I store → (∀ call store, I store → I (commit (runTransaction ledger (fn call)) store)) → I s.store
  ends : ∀ call events, (policy ledger fn maxAttempts).moves call s events ≤ 3 * maxAttempts

theorem reached_atomic {s : Retry.System σ TransactionError α}
    (reached : (policy ledger fn maxAttempts).Reached ReportsRollback store s) : Atomic ledger fn maxAttempts store s := by
  have held := reached.atMostOnce fun _ => retryable_rollback
  obtain ⟨order, rearranged, serial⟩ := held.serial
  refine
    { folded := ⟨order.map Prod.fst, rearranged.map _, ?_, serial_foldl serial⟩
      returned := ?_, threw := ?_, exhausted := ?_, unfinished := ?_, kept := ?_, ends := ?_ }
  · exact (rearranged.map Prod.fst).nodup_iff.mpr held.once
  · intro call a phase
    have here := held.consistent call
    rwa [phase] at here
  · intro call attempt error phase
    have here := held.consistent call
    rw [phase] at here
    exact here.2
  · intro call attempt error phase retryable
    have here := held.consistent call
    rw [phase] at here
    exact here.1 (Bool.or_eq_true .. |>.mpr retryable)
  · rintro call attempt (phase | phase)
    · have here := held.consistent call
      rwa [phase] at here
    · have here := held.consistent call
      rwa [phase] at here
  · intro I start kept
    refine serial_invariant serial ?_ start
    intro call store value next done before
    rw [body_ok done]
    exact kept call store before
  · intro call events
    refine (Policy.moves_le call events s).trans ?_
    have here := held.consistent call
    cases phase : s.phase call with
    | idle attempt =>
      rw [phase] at here
      obtain ⟨first, last, -⟩ := here
      change attempt ≤ maxAttempts at last
      change 3 * (maxAttempts - attempt) + 3 ≤ _
      omega
    | attempting attempt =>
      rw [phase] at here
      obtain ⟨first, last, -⟩ := here
      change attempt ≤ maxAttempts at last
      change 3 * (maxAttempts - attempt) + 2 ≤ _
      omega
    | committed attempt value =>
      rw [phase] at here
      obtain ⟨first, last, -⟩ := here
      change attempt ≤ maxAttempts at last
      change 3 * (maxAttempts - attempt) + 1 ≤ _
      omega
    | returned | threw => exact Nat.zero_le _

section Samples

def sold : Core := (Platform.afterUnder percentFees (chargedSale 100)).db.core

def sale : Policy Core TransactionError (Option Nat) :=
  policy ledgerField (fun _ => ExecutionCoordinator.applyExecution percentFees 0 soldShares) defaultMaxAttempts

def afterSale (c : Core) : Core := commit (runTransaction ledgerField (ExecutionCoordinator.applyExecution percentFees 0 soldShares)) c

/-- Two deliveries of one sale start on the same snapshot; the second is given up, and finds the fill when it is run again. -/
def deliveredTwice : List (Retry.Event Core TransactionError (Option Nat)) :=
  [.start 0, .start 1, .commit 0 (some 0) (afterSale sold), .fail 1 (.knownRequest "P2034" none), .reply 0, .start 1,
    .commit 1 none (afterSale (afterSale sold)), .reply 1]

def soldTwice : Retry.System Core TransactionError (Option Nat) := deliveredTwice.foldl sale.step (sale.initially sold)

theorem afterSale_body {c : Core} {a : Option Nat} {call : Nat}
    (done : observe (runTransaction ledgerField (ExecutionCoordinator.applyExecution percentFees 0 soldShares)) c = some a) :
    sale.body call c = .ok (a, afterSale c) := by
  obtain ⟨c', ran⟩ := observe_some done
  simp only [sale, policy, afterSale, commit, ran]

theorem soldTwice_reached : sale.Reached ReportsRollback sold soldTwice := by
  have first : ∀ call, sale.body call sold = .ok (some 0, afterSale sold) := fun _ => afterSale_body (by decide +kernel)
  have second : ∀ call, sale.body call (afterSale sold) = .ok (none, afterSale (afterSale sold)) :=
    fun _ => afterSale_body (by decide +kernel)
  have start : sale.Reached ReportsRollback sold (sale.initially sold) := .refl rfl
  exact start.foldl deliveredTwice ⟨trivial, trivial, ⟨[(0, some 0)], .refl _, _, first 0, rfl⟩, trivial, trivial, trivial,
    ⟨[(0, some 0), (1, none)], .refl _, _, first 0, _, second 1, rfl⟩, trivial, trivial⟩

theorem soldTwice_atomic : soldTwice.committed.map Prod.fst = [0, 1] ∧ soldTwice.store.exchange.fills.size = 1 ∧
    Atomic ledgerField (fun _ => ExecutionCoordinator.applyExecution percentFees 0 soldShares) defaultMaxAttempts sold soldTwice :=
  ⟨by decide +kernel, by decide +kernel, reached_atomic soldTwice_reached⟩

end Samples

end VerdictVaut.SerializableTransactionRunner

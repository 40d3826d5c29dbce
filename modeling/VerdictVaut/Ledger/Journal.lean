import VerdictVaut.Ledger.Entries
import VerdictVaut.Shared.Grouped

set_option autoImplicit false

namespace VerdictVaut.Ledger

open Relational Relational.Tx

section Balances

variable {l : Ledger} {selected : AccountRef → Nat → Bool} {k assetId : Nat}

theorem sumWhere_legs {postings : List Posting} {legs : List LedgerEntry}
    (matched : List.Forall₂ (IsLeg l k assetId) postings legs) :
    sumWhere (isOn selected l.accounts.rows) LedgerEntry.amount legs = posted selected assetId postings := by
  -- the entries of a transaction bring the accounts selected what its postings say
  induction matched with
  | nil => rfl
  | cons leg _ ih =>
    obtain ⟨-, amount, account, found, owner, ofAsset⟩ := leg
    unfold Table.get? at found
    simp only [posted] at ih
    simp only [posted, sumWhere_cons, ih, share, isOn, found, Option.any_some, owner, ofAsset, amount]

theorem held_transactions (books : l.Books) (postings : LedgerTransaction → List Posting)
    (agree : ∀ k t, l.transactions.get? k = some t → PostedAs l k t (postings t)) :
    held selected l = sumWhere (fun _ => true) (fun t => posted selected t.assetId (postings t)) l.transactions.rows := by
  have entries := @sumWhere_entries selected _ _ books.follows.sum
  rw [held, entries, sumWhere_byKey _ _ LedgerEntry.transactionId l.transactions.size _ books.named, sumWhere_rows]
  apply Finset.sum_congr rfl
  intro k inside
  have found := List.getElem?_eq_getElem (Finset.mem_range.mp inside)
  have legs := (agree k _ found).legs
  rw [Table.get?, found]
  exact sumWhere_legs legs

theorem sumWhere_kind (kind : ReferenceType) (value : LedgerTransaction → ℚ) {n : Nat}
    (inside : ∀ t ∈ l.transactions.rows, t.referenceType = kind → t.referenceId < n) :
    sumWhere (fun t => decide (t.referenceType = kind)) value l.transactions.rows =
      ∑ id ∈ Finset.range n, ((l.transactionsFor kind id).map value).sum := by
  -- a sum over the transactions of one kind, one reference after the other
  have mine (t : LedgerTransaction) (member : t ∈ l.transactions.rows.filter fun t => decide (t.referenceType = kind)) :
      t.referenceId < n := by
    obtain ⟨stored, ofKind⟩ := List.mem_filter.mp member
    exact inside t stored (of_decide_eq_true ofKind)
  have all (rows : List LedgerTransaction) : sumWhere (fun _ => true) value rows = (rows.map value).sum := by
    rw [sumWhere, List.filter_eq_self.mpr fun _ _ => rfl]
  rw [sumWhere, ← all, sumWhere_byKey _ value LedgerTransaction.referenceId n _ mine]
  apply Finset.sum_congr rfl
  intro id _
  rw [all, List.filter_filter, transactionsFor]
  simp only [Bool.and_comm]

end Balances

section Rows

theorem PostedAs.unique {l : Ledger} {k k' : Nat} {t t' : LedgerTransaction} {postings : List Posting}
    (posted : PostedAs l k' t' postings) (one : l.transactionsFor t.referenceType t.referenceId = [t'])
    (found : l.transactions.get? k = some t) : PostedAs l k t postings := by
  have inside : t ∈ l.transactionsFor t.referenceType t.referenceId :=
    List.mem_filter.mpr ⟨Table.get?_mem found, by simp⟩
  rw [one, List.mem_singleton] at inside
  subst inside
  by_cases same : k = k'
  · rw [same]
    exact posted
  · -- two rows never share the key
    have apart := Table.clash_of_ne found posted.found same
    simp [RowSpec.clash, uniqueOn] at apart

variable {α : Type} [RowSpec α] {l l' : Ledger} {kinds : ReferenceType → Bool} {kind : ReferenceType} {rows rows' : Table α}
  {postings : α → List Posting}

def Posts (l : Ledger) (kind : ReferenceType) (rows : Table α) (postings : α → List Posting) : Prop :=
  -- each row of a table has its one ledger transaction, with the postings that the row stands for
  ∀ id row, rows.get? id = some row → ∃ k t, l.transactionsFor kind id = [t] ∧ l.PostedAs k t (postings row)

theorem Posts.moved (posts : Posts l kind rows postings) (moved : Moved kinds l l')
    (same : ∀ id, id < rows.size → l'.transactionsFor kind id = l.transactionsFor kind id) :
    Posts l' kind rows postings := by
  intro id row found
  obtain ⟨k, t, one, posted⟩ := posts id row found
  exact ⟨k, t, (same id (Table.get?_lt found)).trans one, posted.moved moved⟩

theorem Entered.transactionsFor {input : PostTransactionInput} {assetId : Nat} (entered : Entered l l' input assetId)
    (type : ReferenceType) (id : Nat) : l'.transactionsFor type id = l.transactionsFor type id ++
      if input.referenceType = type ∧ input.referenceId = id then [input.row assetId] else [] := by
  simp only [Ledger.transactionsFor, entered.transactions, List.filter_append, List.filter_cons, List.filter_nil,
    PostTransactionInput.row, Bool.and_eq_true, decide_eq_true_eq]

theorem Posts.entered {input : PostTransactionInput} {assetId : Nat} {row : α} (posts : Posts l kind rows postings)
    (moved : Moved kinds l l') (entered : Entered l l' input assetId) (ofKind : input.referenceType = kind)
    (last : input.referenceId = rows.size) (fresh : l.transactionsFor kind rows.size = [])
    (appended : rows'.rows = rows.rows ++ [row]) (mine : postings row = input.postings) :
    Posts l' kind rows' postings := by
  intro id stored found
  rw [Table.get?_of_append appended] at found
  split at found
  next new =>
    cases found
    refine ⟨l.transactions.size, input.row assetId, ?_, ?_⟩
    · rw [entered.transactionsFor, new, fresh, if_pos ⟨ofKind, last⟩, List.nil_append]
    · rw [mine]
      exact entered.posted
  next old =>
    obtain ⟨k, t, one, posted⟩ := posts id stored found
    refine ⟨k, t, ?_, posted.moved moved⟩
    have other : ¬ (input.referenceType = kind ∧ input.referenceId = id) := by
      rw [last]
      exact fun both => old both.2.symm
    rw [entered.transactionsFor, if_neg other, List.append_nil, one]

end Rows

end VerdictVaut.Ledger

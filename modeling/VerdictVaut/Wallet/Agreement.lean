import VerdictVaut.Ledger.Agreement
import VerdictVaut.Wallet.Rounded

set_option autoImplicit false

-- recording a deposit, with and without rounding
namespace VerdictVaut.DepositsService

open Relational Relational.Tx Db Decimals

variable {db : Db} {now : Time} {input : ObservedTransactionInput}

/-- The amount that is observed, or was recorded for the same event, and the balances that it is added to. -/
structure DepositFits (places : ℕ) (most more : ℚ) (input : ObservedTransactionInput) (db : Db) : Prop where
  amount : Figure places more input.amount
  recorded : ∀ deposit ∈ db.wallet.deposits.rows, isEvent input deposit = true → Figure places more deposit.amount
  balances : Ledger.CurrencyFits input.assetSymbol places most db.core.ledger

variable {places : ℕ} {most more : ℚ}

instance : Decidable (DepositFits places most more input db) :=
  decidable_of_iff (Figure places more input.amount ∧
      (∀ deposit ∈ db.wallet.deposits.rows, isEvent input deposit = true → Figure places more deposit.amount) ∧
      Ledger.CurrencyFits input.assetSymbol places most db.core.ledger)
    ⟨fun all => ⟨all.1, all.2.1, all.2.2⟩, fun fits => ⟨fits.amount, fits.recorded, fits.balances⟩⟩

theorem upsertDeposit_agree (fits : DepositFits places most more input db) (room : Room places more)
    (assetNetwork : AssetNetwork) (walletAddress : WalletAddress) :
    Agree (fun found _ => Figure places more found.2.amount)
      (Rounded.upsertDeposit now input assetNetwork walletAddress)
      (upsertDeposit now input assetNetwork walletAddress) db := by
  refine .find? ?_
  cases located : (depositsField.get db).find? (isEvent input) with
  | some found =>
    obtain ⟨depositId, existing⟩ := found
    obtain ⟨there, mine⟩ := Table.find?_some located
    exact .update fun t _ => .pure (fits.recorded existing (Table.get?_mem there) mine)
  | none => exact room.write fits.amount (.create fun t _ => .pure fits.amount)

theorem creditDeposit_agree (room : Room places (most + 2 * more)) (nonneg : 0 ≤ most)
    (balances : Ledger.CurrencyFits input.assetSymbol places most db.core.ledger) {depositId userId : Nat} {amount : ℚ}
    (figure : Figure places more amount) :
    Agree (fun _ _ => True) (Rounded.creditDeposit now depositId userId amount input.assetSymbol)
      (creditDeposit now depositId userId amount input.assetSymbol) db := by
  have posts : Agree (fun _ _ => True)
      (Rounded.postTransaction (creditInput depositId userId amount input.assetSymbol))
      (Ledger.postTransaction (creditInput depositId userId amount input.assetSymbol)) db.core.ledger := by
    refine (@Ledger.postTransaction_agree db.core.ledger places most more _ (by exact_mod_cast room) nonneg
      (fun posting member => ?_) balances).weaken fun _ _ _ => trivial
    simp only [creditInput, List.mem_cons, List.not_mem_nil, or_false] at member
    rcases member with rfl | rfl
    next => exact figure
    next => exact figure.neg
  exact Agree.bind (Agree.zoom posts) fun _ _ _ _ => .self fun _ _ _ => trivial

theorem recordObservedTransaction_agree (fits : DepositFits places most more input db)
    (room : Room places (most + 2 * more)) (nonneg : 0 ≤ most) :
    Agree (fun _ _ => True) (Rounded.recordObservedTransaction now input) (recordObservedTransaction now input) db := by
  have some := fits.amount.nonneg
  refine .getOrThrow fun assetNetwork _ => .getOrThrow fun walletAddress _ => .find? ?_
  refine (upsertDeposit_agree fits (room.smaller (by linarith)) assetNetwork walletAddress).bind fun found db₁ made figure => ?_
  obtain ⟨depositId, upserted⟩ := found
  obtain ⟨t₁, rfl, wrote, -⟩ := upsertDeposit_ok made
  refine .after fun _ db₂ advanced => ?_
  obtain ⟨t₂, row, rfl, -⟩ := advanceDeposit_ok advanced wrote.get
  refine Agree.bind (Q := fun _ _ => True) ?_ fun _ _ _ _ => .self fun _ _ _ => trivial
  refine .ite (fun _ => ?_) fun _ => .pure trivial
  refine creditDeposit_agree room nonneg ?_ figure
  exact fits.balances

end VerdictVaut.DepositsService

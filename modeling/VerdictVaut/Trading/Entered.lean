import VerdictVaut.Trading.Applied
import VerdictVaut.Ledger.Entries

set_option autoImplicit false

namespace VerdictVaut.ExecutionCoordinator

open Relational Relational.Tx VerdictVaut.Core

def tradeInput (fillId : Nat) (i : ExecutionInstruction) (q : ℚ) (feeResult : FillFeeResult) (symbol : String) :
    Ledger.PostTransactionInput where
  assetSymbol := symbol
  type := .trade
  referenceType := .fill
  referenceId := fillId
  idempotencyKey := ⟨"trade", [fillId]⟩
  postings := tradePostings i q i.price feeResult

def mintInput (mintId : Nat) (i : MintInstruction) (q : ℚ) (symbol : String) : Ledger.PostTransactionInput where
  assetSymbol := symbol
  type := .mint
  referenceType := .completeSetMint
  referenceId := mintId
  idempotencyKey := ⟨"mint", [mintId]⟩
  postings := mintPostings i q

def EnteredFor (l l' : Ledger) (input : String → Ledger.PostTransactionInput) : Prop :=
  -- the transaction is entered in the settlement currency
  ∃ assetId asset, l.assets.find? Asset.isSettlementCurrency = some (assetId, asset) ∧
    Ledger.Entered l l' (input asset.symbol) assetId

variable {c c' : Core} {u : Unit} {q : ℚ}

theorem LedgerKept.trans {l l' l'' : Ledger} (first : LedgerKept l l') (second : LedgerKept l' l'') : LedgerKept l l'' :=
  ⟨first.moved.trans second.moved, fun ref asset => (second.balance ref asset).trans (first.balance ref asset),
    second.transactions.trans first.transactions⟩

theorem postInSettlementCurrency_entered {input : String → Ledger.PostTransactionInput} {l l' : Ledger}
    {result : Ledger.PostTransactionResult} (done : (postInSettlementCurrency input).run c = .ok (result, c'))
    (sound : l.Sound) (before : LedgerKept l c.ledger) (after : LedgerKept c'.ledger l')
    (symbols : ∀ symbol, (input symbol).assetSymbol = symbol)
    (mine : ∀ symbol, tradingKinds (input symbol).referenceType = true)
    (key : ∀ symbol, (input symbol).idempotencyKey = Ledger.postKey (input symbol).referenceType (input symbol).referenceId)
    (fresh : ∀ symbol, ∀ t ∈ l.transactions.rows, t.idempotencyKey ≠ (input symbol).idempotencyKey) :
    EnteredFor l l' input := by
  -- a posting in the settlement currency, between steps that only draw down or give back reservations
  obtain ⟨assetId, asset, l₂, named, posted, rfl⟩ := postInSettlementCurrency_ok done
  have moved : Ledger.Moved tradingKinds c.ledger l₂ := .postTransaction posted (mine _) (key _)
  rcases Ledger.postTransaction_ok posted with ⟨-, -, t, position, taken⟩ | ⟨-, -, assetId', effect⟩
  · rw [before.transactions] at position
    exact absurd taken (fresh _ t (Table.get?_mem position))
  · have sound₂ := moved.sound (before.moved.sound sound)
    have entered := effect.entered sound before.moved before.transactions sound₂ after.moved after.transactions
    -- the asset that the posting looks up is the settlement asset
    obtain ⟨row, found⟩ := effect.asset
    rw [symbols, named_settlement named] at found
    cases found
    rw [before.moved.assets] at named
    exact ⟨assetId, asset, named, entered⟩

section Fills

variable {i : ExecutionInstruction} {buy sell : Order}

theorem settleFill_entered {t : Table Fill} {feeResult : FillFeeResult} (sound : c.ledger.Sound)
    (fresh : ∀ t ∈ c.ledger.transactions.rows, t.idempotencyKey ≠ ⟨"trade", [c.exchange.fills.size]⟩)
    (different : i.buyOrderId ≠ i.sellOrderId)
    (buyFound : c.exchange.orders.get? i.buyOrderId = some buy)
    (sellFound : c.exchange.orders.get? i.sellOrderId = some sell)
    (buySide : buy.side = .buy) (sellSide : sell.side = .sell)
    (done : (settleFill c.exchange.fills.size i buy sell q feeResult).run (fillsField.set t c) = .ok (u, c')) :
    c'.exchange.fills = t ∧ c'.exchange.mints = c.exchange.mints ∧
      EnteredFor c.ledger c'.ledger (tradeInput c.exchange.fills.size i q feeResult) := by
  simp only [settleFill, consumeReservations, run_bind_ok] at done
  obtain ⟨_, c₃, ⟨_, c₂, consumedB, consumedS⟩, _, c₄, posted, _, c₅, updatedB, _, c₆, updatedS, _, c₈, moved,
    _, c₉, releasedB, releasedS⟩ := done
  obtain ⟨funds, kB, rB, rfl, activeB, -, -, rewrittenB⟩ := consumeFrom_ok consumedB
  obtain ⟨shares, kS, rS, rfl, -⟩ := consumeFrom_ok consumedS
  simp only [postTradeLedger, run_bind_ok, run_pure] at posted
  obtain ⟨result, _, posted, same⟩ := posted
  cases same
  have before : LedgerKept c.ledger { c.ledger with funds := funds } := .rewritten activeB rewrittenB
  obtain ⟨fills, mints, orders⟩ : c₄.exchange.fills = t ∧ c₄.exchange.mints = c.exchange.mints ∧
      c₄.exchange.orders = c.exchange.orders := by
    obtain ⟨assetId, asset, l, -, -, rfl⟩ := postInSettlementCurrency_ok posted
    exact ⟨rfl, rfl, rfl⟩
  rw [← orders] at buyFound sellFound
  obtain ⟨orders₁, rfl, rowsB⟩ := updateOrder_ok updatedB buyFound
  have sellFound' : orders₁.get? i.sellOrderId = some sell := by
    rw [Table.get?_of_set rowsB (Table.get?_lt buyFound), if_neg (Ne.symm different)]
    exact sellFound
  obtain ⟨orders₂, rfl, -⟩ := updateOrder_ok updatedS sellFound'
  obtain ⟨middle, shares₂, rfl, -⟩ := updatePositions_ok moved
  obtain ⟨funds₂, rfl, -, howB⟩ := releaseFilled_ok fundsField (by rw [buySide]; rfl) releasedB
  obtain ⟨shares₃, rfl, -⟩ := releaseFilled_ok sharesField (by rw [sellSide]; rfl) releasedS
  have after : LedgerKept c₄.ledger { c₄.ledger with funds := funds₂ } := .released howB
  exact ⟨fills, mints, postInSettlementCurrency_entered posted sound before after (fun _ => rfl) (fun _ => rfl) (fun _ => rfl)
    fun _ => fresh⟩

theorem executeFill_entered {fees : FeeCalculator} {result : Option Nat} (sound : c.ledger.Sound)
    (fresh : ∀ t ∈ c.ledger.transactions.rows, t.idempotencyKey ≠ ⟨"trade", [c.exchange.fills.size]⟩)
    (done : (executeFill fees i buy sell q).run c = .ok (result, c'))
    (buyFound : c.exchange.orders.get? i.buyOrderId = some buy)
    (sellFound : c.exchange.orders.get? i.sellOrderId = some sell) (fits : FillTerms i buy sell) :
    c' = c ∨ ∃ feeResult : FillFeeResult, feeResult = fees.calculateFillFee (fillFeeContext i q) ∧
      c'.exchange.fills.rows = c.exchange.fills.rows ++ [fillRow i q (feeResult.buyerFee + feeResult.sellerFee)] ∧
      c'.exchange.mints = c.exchange.mints ∧
      EnteredFor c.ledger c'.ledger (tradeInput c.exchange.fills.size i q feeResult) := by
  -- an instruction past the fresh-state checks was filled before, or enters the trade of a new fill
  simp only [executeFill, run_bind_ok] at done
  obtain ⟨_, _, allowed, ⟨fillId, existed⟩, c₁, created, rest⟩ := done
  obtain ⟨-, rfl⟩ := run_throwIf_ok.mp allowed
  rcases run_createOnce_ok created with ⟨rfl, rfl, t, inserted, rfl⟩ | ⟨rfl, rfl, fill, position, holds⟩
  · obtain ⟨-, -, rows⟩ := Table.insert_ok inserted
    simp only [Bool.false_eq_true, if_false, run_bind_ok, run_pure] at rest
    obtain ⟨_, c₂, settled, same⟩ := rest
    cases same
    obtain ⟨fills, mints, entered⟩ := settleFill_entered sound fresh (fits.different buyFound sellFound) buyFound sellFound
      fits.buySide fits.sellSide settled
    rw [fills]
    exact .inr ⟨_, rfl, rows, mints, entered⟩
  · simp only [if_true, run_pure] at rest
    cases rest
    exact .inl rfl

end Fills

section Mints

variable {i : MintInstruction} {a b : Order}

theorem settleMint_entered {t : Table CompleteSetMint} (sound : c.ledger.Sound)
    (fresh : ∀ t ∈ c.ledger.transactions.rows, t.idempotencyKey ≠ ⟨"mint", [c.exchange.mints.size]⟩)
    (different : i.buyOrderAId ≠ i.buyOrderBId)
    (foundA : c.exchange.orders.get? i.buyOrderAId = some a)
    (foundB : c.exchange.orders.get? i.buyOrderBId = some b) (sideA : a.side = .buy) (sideB : b.side = .buy)
    (done : (settleMint c.exchange.mints.size i a b q).run (mintsField.set t c) = .ok (u, c')) :
    c'.exchange.fills = c.exchange.fills ∧ c'.exchange.mints = t ∧
      EnteredFor c.ledger c'.ledger (mintInput c.exchange.mints.size i q) := by
  simp only [settleMint, run_bind_ok] at done
  obtain ⟨_, c₁, consumedA, _, c₂, consumedB, _, c₃, posted, _, c₄, updatedA, _, c₅, updatedB, _, c₆, increasedA,
    _, c₇, increasedB, _, c₈, releasedA, releasedB⟩ := done
  obtain ⟨funds₁, kA, rA, rfl, activeA, -, -, rewrittenA⟩ := consumeFrom_ok consumedA
  obtain ⟨funds₂, kB, rB, rfl, activeB, -, -, rewrittenB⟩ := consumeFrom_ok consumedB
  simp only [postMintLedger, run_bind_ok, run_pure] at posted
  obtain ⟨result, _, posted, same⟩ := posted
  cases same
  have keptA : LedgerKept c.ledger { c.ledger with funds := funds₁ } := .rewritten activeA rewrittenA
  have keptB : LedgerKept { c.ledger with funds := funds₁ } { c.ledger with funds := funds₂ } :=
    .rewritten activeB rewrittenB
  obtain ⟨fills, mints, orders⟩ : c₃.exchange.fills = c.exchange.fills ∧ c₃.exchange.mints = t ∧
      c₃.exchange.orders = c.exchange.orders := by
    obtain ⟨assetId, asset, l, -, -, rfl⟩ := postInSettlementCurrency_ok posted
    exact ⟨rfl, rfl, rfl⟩
  rw [← orders] at foundA foundB
  obtain ⟨orders₁, rfl, rowsA⟩ := updateOrder_ok updatedA foundA
  have foundB' : orders₁.get? i.buyOrderBId = some b := by
    rw [Table.get?_of_set rowsA (Table.get?_lt foundA), if_neg (Ne.symm different)]
    exact foundB
  obtain ⟨orders₂, rfl, -⟩ := updateOrder_ok updatedB foundB'
  obtain ⟨shares₁, rfl, -⟩ := increaseBuyerPosition_ok increasedA
  obtain ⟨shares₂, rfl, -⟩ := increaseBuyerPosition_ok increasedB
  obtain ⟨funds₃, rfl, -, howA⟩ := releaseFilled_ok fundsField (by rw [sideA]; rfl) releasedA
  obtain ⟨funds₄, rfl, -, howB⟩ := releaseFilled_ok fundsField (by rw [sideB]; rfl) releasedB
  have endedA : LedgerKept c₃.ledger { c₃.ledger with funds := funds₃ } := .released howA
  have endedB : LedgerKept { c₃.ledger with funds := funds₃ } { c₃.ledger with funds := funds₄ } := .released howB
  exact ⟨fills, mints, postInSettlementCurrency_entered posted sound (keptA.trans keptB) (endedA.trans endedB) (fun _ => rfl)
    (fun _ => rfl) (fun _ => rfl) fun _ => fresh⟩

theorem executeMint_entered {result : Option Nat} (sound : c.ledger.Sound)
    (fresh : ∀ t ∈ c.ledger.transactions.rows, t.idempotencyKey ≠ ⟨"mint", [c.exchange.mints.size]⟩)
    (done : (executeMint i a b q).run c = .ok (result, c'))
    (foundA : c.exchange.orders.get? i.buyOrderAId = some a)
    (foundB : c.exchange.orders.get? i.buyOrderBId = some b) (fits : MintTerms i a b) :
    c' = c ∨ (c'.exchange.fills = c.exchange.fills ∧
      c'.exchange.mints.rows = c.exchange.mints.rows ++ [mintRow i q] ∧
      EnteredFor c.ledger c'.ledger (mintInput c.exchange.mints.size i q)) := by
  simp only [executeMint, run_bind_ok] at done
  obtain ⟨⟨mintId, existed⟩, c₁, created, rest⟩ := done
  rcases run_createOnce_ok created with ⟨rfl, rfl, t, inserted, rfl⟩ | ⟨rfl, rfl, mint, position, holds⟩
  · obtain ⟨-, -, rows⟩ := Table.insert_ok inserted
    simp only [Bool.false_eq_true, if_false, run_bind_ok, run_pure] at rest
    obtain ⟨_, c₂, settled, same⟩ := rest
    cases same
    obtain ⟨fills, mints, entered⟩ := settleMint_entered sound fresh (fits.different foundA foundB) foundA foundB fits.sideA
      fits.sideB settled
    rw [mints]
    exact .inr ⟨fills, rows, entered⟩
  · simp only [if_true, run_pure] at rest
    cases rest
    exact .inl rfl

end Mints

end VerdictVaut.ExecutionCoordinator

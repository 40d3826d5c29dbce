import VerdictVaut.System.Accounting

set_option autoImplicit false

namespace VerdictVaut

open Relational Relational.Tx VerdictVaut.Core ExecutionCoordinator ResolutionService

variable {c c' c'' : Core}

section Commits

theorem Ordered.commits {α : Type} {body : Tx Core Fault α} {a : α} (ordered : Ordered c')
    (done : body.run c = .ok (a, c')) : (runTransaction ledgerField body).run c = .ok (a, c') := by
  -- the deferred trigger never rejects a transaction that leaves the database in order
  have balanced : checkLedgerTransactionBalance c.ledger c'.ledger = true := by
    refine List.all_eq_true.mpr fun e _ => decide_eq_true ?_
    exact ordered.sound.books.balanced e.transactionId
  unfold runTransaction
  simp only [run] at done ⊢
  rw [done]
  exact if_pos balanced

inductive FillStep (c c' : Core) (now : Time) (i : ExecutionInstruction) (market : Market) (buy sell : Order) : Prop
  -- one instruction applied to the current rows: it is skipped, or it executes
  | skipped (same : c' = c) (reason : ¬ Executable now market i.quantity buy sell ∨
      ∃ fill ∈ c.exchange.fills.rows, fill.idempotencyKey = i.idempotencyKey)
  | executed (fresh : Executable now market i.quantity buy sell)
      (done : Executed c c' i buy sell (minRemaining i.quantity buy sell))

inductive MintStep (c c' : Core) (now : Time) (i : MintInstruction) (market : Market) (a b : Order) : Prop
  | skipped (same : c' = c) (reason : ¬ Executable now market i.quantity a b ∨
      ∃ mint ∈ c.exchange.mints.rows, mint.idempotencyKey = i.idempotencyKey)
  | executed (fresh : Executable now market i.quantity a b)
      (done : Minted c c' i a b (minRemaining i.quantity a b))

theorem Ordered.applyExecution (ordered : Ordered c) {i : ExecutionInstruction} {market : Market} {buy sell : Order}
    (marketFound : c.exchange.markets.get? i.marketId = some market)
    (buyFound : c.exchange.orders.get? i.buyOrderId = some buy)
    (sellFound : c.exchange.orders.get? i.sellOrderId = some sell) (terms : FillTerms i buy sell) (now : Time) :
    ∃ result c', (runTransaction ledgerField (applyExecution zeroFeeCalculator now i)).run c = .ok (result, c') ∧
      Advances c c' ∧ FillStep c c' now i market buy sell := by
  rcases run_applyExecution buyFound sellFound marketFound zeroFeeCalculator now with ⟨stale, ran⟩ | ⟨fresh, ran⟩
  · exact ⟨none, c, ordered.commits ran, .refl ordered, .skipped rfl (.inl stale)⟩
  · obtain ⟨result, c', done⟩ := executeFill_succeeds ordered.backing ordered.sound.agrees buyFound sellFound terms fresh
    rcases executeFill_ok done buyFound sellFound terms with ⟨rfl, existing⟩ | executed
    · exact ⟨result, c', ordered.commits (ran.trans done), .refl ordered, .skipped rfl (.inr existing)⟩
    · have advances := ordered.filled marketFound buyFound sellFound terms fresh executed
      exact ⟨result, c', advances.ordered.commits (ran.trans done), advances, .executed fresh executed⟩

theorem Ordered.applyMintExecution (ordered : Ordered c) {i : MintInstruction} {market : Market} {a b : Order}
    (marketFound : c.exchange.markets.get? i.marketId = some market)
    (foundA : c.exchange.orders.get? i.buyOrderAId = some a) (foundB : c.exchange.orders.get? i.buyOrderBId = some b)
    (terms : MintTerms i a b) (binary : outcomesOf c.exchange.outcomes i.marketId = [i.outcomeAId, i.outcomeBId] ∨
      outcomesOf c.exchange.outcomes i.marketId = [i.outcomeBId, i.outcomeAId]) (now : Time) :
    ∃ result c', (runTransaction ledgerField (applyMintExecution now i)).run c = .ok (result, c') ∧
      Advances c c' ∧ MintStep c c' now i market a b := by
  rcases run_applyMintExecution foundA foundB marketFound now with ⟨stale, ran⟩ | ⟨fresh, ran⟩
  · exact ⟨none, c, ordered.commits ran, .refl ordered, .skipped rfl (.inl stale)⟩
  · obtain ⟨result, c', done⟩ := executeMint_succeeds ordered.backing ordered.sound.agrees foundA foundB terms fresh
    rcases executeMint_ok done foundA foundB terms with ⟨rfl, existing⟩ | executed
    · exact ⟨result, c', ordered.commits (ran.trans done), .refl ordered, .skipped rfl (.inr existing)⟩
    · have advances := ordered.minted marketFound foundA foundB terms binary fresh executed
      exact ⟨result, c', advances.ordered.commits (ran.trans done), advances, .executed fresh executed⟩

end Commits

section Additions

def Narrowed (before after : Reservation) : Prop :=
  -- the reservation holds no more than it did
  (after.isActive = true → before.isActive = true) ∧ after.unconsumed ≤ before.unconsumed

def Reserved.Narrows {H : Type} [Holder H] (s s' : Reserved H) : Prop :=
  -- no reference has a further reservation, and none holds more
  ∀ type id, List.Forall₂ Narrowed (s.forRef type id) (s'.forRef type id)

structure AddsNothing (c c' : Core) : Prop where
  -- no order and no reservation is added, and nothing more is reserved
  orders : c'.exchange.orders.size = c.exchange.orders.size
  funds : c.ledger.funds.Narrows c'.ledger.funds
  shares : c.exchange.shares.Narrows c'.exchange.shares

theorem Narrowed.refl (r : Reservation) : Narrowed r r := ⟨id, le_rfl⟩

theorem forall₂_narrowed_refl (rs : List Reservation) : List.Forall₂ Narrowed rs rs :=
  List.forall₂_same.mpr fun r _ => .refl r

theorem Reserved.Narrows.trans {H : Type} [Holder H] {s s' s'' : Reserved H} (first : s.Narrows s')
    (second : s'.Narrows s'') : s.Narrows s'' := by
  have compose : ∀ {xs ys zs : List Reservation}, List.Forall₂ Narrowed xs ys → List.Forall₂ Narrowed ys zs →
      List.Forall₂ Narrowed xs zs := by
    intro xs ys zs earlier later
    induction earlier generalizing zs with
    | nil => exact later
    | cons head _ ih =>
      cases later with
      | cons head' tail' => exact .cons ⟨head.1 ∘ head'.1, head'.2.trans head.2⟩ (ih tail')
  exact fun type id => compose (first type id) (second type id)

theorem AddsNothing.refl (c : Core) : AddsNothing c c :=
  ⟨rfl, fun _ _ => forall₂_narrowed_refl _, fun _ _ => forall₂_narrowed_refl _⟩

theorem AddsNothing.trans (first : AddsNothing c c') (second : AddsNothing c' c'') : AddsNothing c c'' :=
  ⟨second.orders.trans first.orders, first.funds.trans second.funds, first.shares.trans second.shares⟩

theorem narrowed_finish (ends : Prop) [Decidable ends] {amount : ℚ} (positive : 0 ≤ amount) (r : Reservation) :
    Narrowed r (finish ends (Reserved.draw amount r)) := by
  constructor
  · unfold finish Reserved.settle
    split
    · split
      · simp [Reservation.isActive]
      · exact id
    · exact id
  · rw [finish_unconsumed]
    simp only [Reservation.unconsumed, Reserved.draw]
    linarith

theorem narrows_of_drawn {H : Type} [Holder H] {s s' : Reserved H} {orderId : Nat} {amount : ℚ} {ends : Prop}
    [Decidable ends] {r : Reservation} (single : s.forRef .order orderId = [r]) (positive : 0 ≤ amount)
    (drawn : Drawn s s' orderId amount ends) {type : ReferenceType} {id : Nat}
    (mine : type = .order ∧ id = orderId) : List.Forall₂ Narrowed (s.forRef type id) (s'.forRef type id) := by
  obtain ⟨rfl, rfl⟩ := mine
  rw [single, drawn.mine r single]
  exact .cons (narrowed_finish ends positive r) .nil

theorem FillStep.addsNothing (ordered : Ordered c) {now : Time} {i : ExecutionInstruction} {market : Market}
    {buy sell : Order} (buyFound : c.exchange.orders.get? i.buyOrderId = some buy)
    (sellFound : c.exchange.orders.get? i.sellOrderId = some sell) (terms : FillTerms i buy sell)
    (step : FillStep c c' now i market buy sell) : AddsNothing c c' := by
  cases step with
  | skipped same =>
    rw [same]
    exact .refl c
  | executed fresh done =>
    obtain ⟨-, r, funded, -⟩ := (ordered.backing.orders _ _ buyFound).buy terms.buySide
    obtain ⟨-, r', held, -⟩ := (ordered.backing.orders _ _ sellFound).sell terms.sellSide
    refine ⟨?_, fun type id => ?_, fun type id => ?_⟩
    · simp [Table.size, done.orders]
    · by_cases mine : type = .order ∧ id = i.buyOrderId
      · exact narrows_of_drawn funded (mul_nonneg fresh.positive.le terms.price.1.le) done.funds mine
      · rw [done.fundsOthers type id mine]
        exact forall₂_narrowed_refl _
    · by_cases mine : type = .order ∧ id = i.sellOrderId
      · exact narrows_of_drawn held fresh.positive.le done.shares mine
      · rw [done.sharesOthers type id mine]
        exact forall₂_narrowed_refl _

theorem MintStep.addsNothing (ordered : Ordered c) {now : Time} {i : MintInstruction} {market : Market} {a b : Order}
    (foundA : c.exchange.orders.get? i.buyOrderAId = some a) (foundB : c.exchange.orders.get? i.buyOrderBId = some b)
    (terms : MintTerms i a b) (step : MintStep c c' now i market a b) : AddsNothing c c' := by
  cases step with
  | skipped same =>
    rw [same]
    exact .refl c
  | executed fresh done =>
    obtain ⟨-, r, fundedA, -⟩ := (ordered.backing.orders _ _ foundA).buy terms.sideA
    obtain ⟨-, r', fundedB, -⟩ := (ordered.backing.orders _ _ foundB).buy terms.sideB
    refine ⟨?_, fun type id => ?_, fun type id => ?_⟩
    · simp [Table.size, done.orders]
    · by_cases first : type = .order ∧ id = i.buyOrderAId
      · exact narrows_of_drawn fundedA (mul_nonneg fresh.positive.le terms.positive.1.le) done.fundsA first
      by_cases second : type = .order ∧ id = i.buyOrderBId
      · exact narrows_of_drawn fundedB (mul_nonneg fresh.positive.le terms.positive.2.le) done.fundsB second
      · rw [done.fundsOthers type id first second]
        exact forall₂_narrowed_refl _
    · rw [Reserved.forRef, Reserved.forRef, done.shares]
      exact forall₂_narrowed_refl _

end Additions

section Runs

theorem applyExecutions_succeeds (clock : Nat → Time) (k : Nat) (instructions : List ExecutionInstruction)
    (ordered : Ordered c) (fits : ∀ i ∈ instructions, FillFits c i) :
    ∃ c', (applyExecutions zeroFeeCalculator clock k instructions).run c = .ok ((), c') ∧ Advances c c' ∧
      AddsNothing c c' := by
  induction instructions generalizing c k with
  | nil => exact ⟨c, rfl, .refl ordered, .refl c⟩
  | cons i rest ih =>
    obtain ⟨buy, sell, buyFound, sellFound, terms⟩ := fits i (by simp)
    obtain ⟨market, marketFound⟩ := ordered.market buyFound
    rw [← terms.buyMarket] at marketFound
    obtain ⟨result, c₁, ran, advances, step⟩ := ordered.applyExecution marketFound buyFound sellFound terms (clock k)
    obtain ⟨c₂, others, later, quiet⟩ := ih (k + 1) advances.ordered
      fun i member => advances.persists.fillFits (fits i (List.mem_cons_of_mem _ member))
    refine ⟨c₂, ?_, advances.trans later, (step.addsNothing ordered buyFound sellFound terms).trans quiet⟩
    rw [applyExecutions, run_bind_of_ok ran]
    exact others

theorem applyMintExecutions_succeeds (clock : Nat → Time) (k : Nat) (instructions : List MintInstruction)
    (ordered : Ordered c) (fits : ∀ i ∈ instructions, MintFits c i) :
    ∃ c', (applyMintExecutions clock k instructions).run c = .ok ((), c') ∧ Advances c c' ∧ AddsNothing c c' := by
  induction instructions generalizing c k with
  | nil => exact ⟨c, rfl, .refl ordered, .refl c⟩
  | cons i rest ih =>
    obtain ⟨a, b, foundA, foundB, terms, binary⟩ := fits i (by simp)
    obtain ⟨market, marketFound⟩ := ordered.market foundA
    rw [← terms.marketA] at marketFound
    obtain ⟨result, c₁, ran, advances, step⟩ :=
      ordered.applyMintExecution marketFound foundA foundB terms binary (clock k)
    obtain ⟨c₂, others, later, quiet⟩ := ih (k + 1) advances.ordered
      fun i member => advances.persists.mintFits (fits i (List.mem_cons_of_mem _ member))
    refine ⟨c₂, ?_, advances.trans later, (step.addsNothing ordered foundA foundB terms).trans quiet⟩
    rw [applyMintExecutions, run_bind_of_ok ran]
    exact others

theorem readMintIncoming_succeeds {orderId : Nat} {order : Order} (found : c.exchange.orders.get? orderId = some order)
    (marketId : Nat) : ∃ incoming, (readMintIncoming orderId marketId).run c = .ok (incoming, c) := by
  unfold readMintIncoming
  rw [run_bind_of_ok (run_read _ _), run_ite]
  split
  · exact ⟨none, rfl⟩
  rw [run_bind_of_ok (run_getOrThrow_ok.mpr ⟨found, rfl⟩)]
  split
  · exact ⟨none, rfl⟩
  rw [run_ite]
  split
  · exact ⟨none, rfl⟩
  split
  · exact ⟨none, rfl⟩
  · exact ⟨some _, rfl⟩

theorem readIncoming_succeeds (ordered : Ordered c) {orderId : Nat} {order : Order}
    (found : c.exchange.orders.get? orderId = some order) (now : Time) :
    ∃ incoming, (readIncoming now orderId).run c = .ok (incoming, c) := by
  obtain ⟨market, marketFound⟩ := ordered.market found
  unfold readIncoming
  rw [run_bind_of_ok (run_getOrThrow_ok.mpr ⟨found, rfl⟩), run_ite]
  split
  · exact ⟨none, rfl⟩
  split
  · exact ⟨none, rfl⟩
  rw [run_bind_of_ok (run_getOrThrow_ok.mpr ⟨marketFound, rfl⟩), run_ite]
  split
  · exact ⟨none, rfl⟩
  · exact ⟨some _, rfl⟩

theorem attemptComplementaryMint_succeeds (ordered : Ordered c) {incoming : Incoming} (fits : IncomingFits c incoming)
    (side : incoming.candidate.side = .buy) (clock : Nat → Time) (k : Nat) :
    ∃ c', (attemptComplementaryMint clock k incoming.candidate.orderId incoming.marketId).run c = .ok ((), c') ∧
      Advances c c' ∧ AddsNothing c c' := by
  obtain ⟨order, mine⟩ := fits
  obtain ⟨found, ran⟩ := readMintIncoming_succeeds mine.found incoming.marketId
  have fit := (readMintIncoming_fits ordered.listed ⟨order, mine⟩ side ran).2
  rw [attemptComplementaryMint, run_bind_of_ok ran]
  cases found with
  | none => exact ⟨c, rfl, .refl ordered, .refl c⟩
  | some x =>
    obtain ⟨instructions, read⟩ : ∃ instructions, (readMintInstructions x).run c = .ok (instructions, c) := ⟨_, rfl⟩
    obtain ⟨c', done⟩ := applyMintExecutions_succeeds clock k instructions ordered
      (readMintInstructions_fit (fit x rfl) read).2
    refine ⟨c', ?_, done.2⟩
    simp only [run_bind_of_ok read]
    exact done.1

theorem matchAndExecute_succeeds (ordered : Ordered c) {orderId : Nat} {order : Order}
    (found : c.exchange.orders.get? orderId = some order) (clock : Nat → Time) :
    ∃ c', (matchAndExecute zeroFeeCalculator clock orderId).run c = .ok ((), c') ∧ Advances c c' ∧ AddsNothing c c' := by
  -- a matching pass with nothing else running never throws, and adds neither an order nor a reservation
  obtain ⟨incoming, ran⟩ := readIncoming_succeeds ordered found (clock 0)
  have fit := (readIncoming_fits ran).2
  rw [matchAndExecute, run_bind_of_ok ran]
  cases incoming with
  | none => exact ⟨c, rfl, .refl ordered, .refl c⟩
  | some x =>
    obtain ⟨same, fits⟩ := fit x rfl
    obtain ⟨instructions, read⟩ : ∃ instructions, (readInstructions x).run c = .ok (instructions, c) := ⟨_, rfl⟩
    obtain ⟨c₁, applied, advances, quiet⟩ := applyExecutions_succeeds clock 1 instructions ordered
      (readInstructions_fit fits read).2
    simp only [run_bind_of_ok read, run_bind_of_ok applied, run_ite]
    split
    next side =>
      obtain ⟨order', mine⟩ := fits
      have carried := mine.carried advances.persists.orders
      obtain ⟨c₂, minted, later, quiet'⟩ := attemptComplementaryMint_succeeds advances.ordered carried side clock
        (instructions.length + 1)
      rw [same] at minted
      exact ⟨c₂, minted, advances.trans later, quiet.trans quiet'⟩
    next => exact ⟨c₁, rfl, advances, quiet⟩

end Runs

end VerdictVaut

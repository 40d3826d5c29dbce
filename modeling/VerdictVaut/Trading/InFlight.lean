import VerdictVaut.Trading.MatchAndExecute
import VerdictVaut.Trading.Backing
import VerdictVaut.Markets.Effects

set_option autoImplicit false

namespace VerdictVaut.ExecutionCoordinator

open Relational Relational.Tx VerdictVaut.Core ResolutionService

section Candidates

structure CandidateOf (orders : Table Order) (marketId outcomeId : Nat) (candidate : MatchCandidate) (order : Order) :
    Prop where
  -- a candidate that was read from this order's row
  found : orders.get? candidate.orderId = some order
  market : order.marketId = marketId
  outcome : order.outcomeId = outcomeId
  user : order.userId = candidate.userId
  side : order.side = candidate.side
  price : order.price = some candidate.price
  sequence : order.sequence = candidate.sequence

variable {orders orders' : Table Order} {marketId outcomeId : Nat} {candidate : MatchCandidate} {order : Order}

theorem CandidateOf.carried (fits : CandidateOf orders marketId outcomeId candidate order)
    (carried : Table.Carries terms orders orders') :
    ∃ order', CandidateOf orders' marketId outcomeId candidate order' := by
  obtain ⟨order', found, same⟩ := carried _ _ fits.found
  simp only [terms, Prod.mk.injEq] at same
  obtain ⟨user, market, outcome, side, price, -, sequence⟩ := same
  exact ⟨order', found, market.trans fits.market, outcome.trans fits.outcome, user.trans fits.user,
    side.trans fits.side, price.trans fits.price, sequence.trans fits.sequence⟩

theorem CandidateOf.valid (fits : CandidateOf orders marketId outcomeId candidate order) :
    0 < candidate.price ∧ candidate.price < 1 := by
  have valid := Table.check_of_get? fits.found
  simp only [RowSpec.check, Bool.and_eq_true, fits.price, Option.all_some] at valid
  exact of_decide_eq_true valid.1.1.2

theorem candidate_some {orderId : Nat} (read : OrderBook.candidate orderId order = some candidate) :
    candidate.orderId = orderId ∧ candidate.userId = order.userId ∧ candidate.side = order.side ∧
      order.price = some candidate.price ∧ candidate.remainingQuantity = order.remainingQuantity ∧
      candidate.sequence = order.sequence := by
  simp only [OrderBook.candidate, Option.map_eq_some_iff] at read
  obtain ⟨price, limited, rfl⟩ := read
  exact ⟨rfl, rfl, rfl, limited, rfl, rfl⟩

theorem candidate_of {orderId : Nat} (found : orders.get? orderId = some order)
    (read : OrderBook.candidate orderId order = some candidate) :
    CandidateOf orders order.marketId order.outcomeId candidate order := by
  obtain ⟨id, user, side, price, -, sequence⟩ := candidate_some read
  exact ⟨id ▸ found, rfl, rfl, user.symm, side.symm, price, sequence.symm⟩

theorem mem_getRestingCandidates {side : OrderSide} {bound : OrderBook.CrossingBound} :
    candidate ∈ OrderBook.getRestingCandidates orders marketId outcomeId side bound ↔
      ∃ order, CandidateOf orders marketId outcomeId candidate order ∧ order.side = side ∧
        order.isExecutable = true ∧ bound.admits candidate.price = true ∧
        candidate.remainingQuantity = order.remainingQuantity := by
  simp only [OrderBook.getRestingCandidates, List.mem_insertionSort, List.mem_filterMap]
  constructor
  · rintro ⟨⟨orderId, order⟩, member, read⟩
    obtain ⟨found, picked⟩ := Table.mem_findMany.mp member
    simp only [Bool.and_eq_true, decide_eq_true_eq] at picked
    obtain ⟨⟨⟨⟨market, outcome⟩, ofSide⟩, resting⟩, admitted⟩ := picked
    have fits := candidate_of found read
    have price := fits.price
    rw [price] at admitted
    rw [market, outcome] at fits
    exact ⟨order, fits, ofSide, resting, admitted, (candidate_some read).2.2.2.2.1⟩
  · rintro ⟨order, fits, ofSide, resting, admitted, remaining⟩
    refine ⟨(candidate.orderId, order), Table.mem_findMany.mpr ⟨fits.found, ?_⟩, ?_⟩
    · simp [fits.market, fits.outcome, ofSide, resting, fits.price, admitted]
    · simp only [OrderBook.candidate, fits.price, Option.map_some, Option.some.injEq]
      rw [fits.user, fits.side, fits.sequence, ← remaining]

end Candidates

section Instructions

def FillFits (c : Core) (i : ExecutionInstruction) : Prop :=
  -- an instruction in flight: the orders it names are still there, on the terms it was made from
  ∃ buy sell, c.exchange.orders.get? i.buyOrderId = some buy ∧ c.exchange.orders.get? i.sellOrderId = some sell ∧
    FillTerms i buy sell

def MintFits (c : Core) (i : MintInstruction) : Prop :=
  ∃ a b, c.exchange.orders.get? i.buyOrderAId = some a ∧ c.exchange.orders.get? i.buyOrderBId = some b ∧
    MintTerms i a b ∧ (outcomesOf c.exchange.outcomes i.marketId = [i.outcomeAId, i.outcomeBId] ∨
      outcomesOf c.exchange.outcomes i.marketId = [i.outcomeBId, i.outcomeAId])

def IncomingFits (c : Core) (incoming : Incoming) : Prop :=
  ∃ order, CandidateOf c.exchange.orders incoming.marketId incoming.outcomeId incoming.candidate order

def MintIncomingFits (c : Core) (incoming : MintIncoming) : Prop :=
  incoming.candidate.side = .buy ∧ incoming.outcomeAId ≠ incoming.outcomeBId ∧
    (∃ order, CandidateOf c.exchange.orders incoming.marketId incoming.outcomeAId incoming.candidate order) ∧
    (outcomesOf c.exchange.outcomes incoming.marketId = [incoming.outcomeAId, incoming.outcomeBId] ∨
      outcomesOf c.exchange.outcomes incoming.marketId = [incoming.outcomeBId, incoming.outcomeAId])

variable {c c' : Core} {marketId outcomeId : Nat} {incoming : MatchCandidate}

theorem mem_matchEligible {candidates : List MatchCandidate} {remaining : ℚ} {i : ExecutionInstruction}
    (member : i ∈ PriceTimePriority.matchEligible marketId outcomeId incoming remaining candidates) :
    ∃ resting ∈ candidates, PriceTimePriority.crosses incoming resting ∧
      ∃ q, i = PriceTimePriority.instruction marketId outcomeId incoming resting q := by
  induction candidates generalizing remaining with
  | nil => simp [PriceTimePriority.matchEligible] at member
  | cons resting rest ih =>
    simp only [PriceTimePriority.matchEligible] at member
    split at member
    · simp at member
    split at member
    · obtain ⟨found, inside, more⟩ := ih member
      exact ⟨found, List.mem_cons_of_mem _ inside, more⟩
    split at member
    next crossing =>
      rcases List.mem_cons.mp member with rfl | later
      · exact ⟨resting, by simp, crossing, _, rfl⟩
      · obtain ⟨found, inside, more⟩ := ih later
        exact ⟨found, List.mem_cons_of_mem _ inside, more⟩
    next => simp at member

theorem mem_eligible {restingOpposite : List MatchCandidate} {resting : MatchCandidate} :
    resting ∈ PriceTimePriority.eligible incoming restingOpposite ↔
      resting ∈ restingOpposite ∧ resting.side ≠ incoming.side ∧ resting.userId ≠ incoming.userId := by
  simp [PriceTimePriority.eligible]
  tauto

theorem instruction_fits {resting : MatchCandidate} {order other : Order} {q : ℚ}
    (mine : CandidateOf c.exchange.orders marketId outcomeId incoming order)
    (theirs : CandidateOf c.exchange.orders marketId outcomeId resting other) (sides : resting.side ≠ incoming.side)
    (users : resting.userId ≠ incoming.userId) (crossing : PriceTimePriority.crosses incoming resting) :
    FillFits c (PriceTimePriority.instruction marketId outcomeId incoming resting q) := by
  obtain ⟨positive, below⟩ := theirs.valid
  cases side : incoming.side with
  | buy =>
    have other_side : resting.side = .sell := by
      cases this : resting.side with
      | buy => exact absurd (this.trans side.symm) sides
      | sell => rfl
    simp only [PriceTimePriority.crosses, side, if_true] at crossing
    refine ⟨order, other, ?_, ?_, ?_⟩
    · simpa [PriceTimePriority.instruction, side] using mine.found
    · simpa [PriceTimePriority.instruction, side] using theirs.found
    · exact
        { buySide := mine.side.trans side
          sellSide := theirs.side.trans other_side
          buyer := by simpa [PriceTimePriority.instruction, side] using mine.user.symm
          seller := by simpa [PriceTimePriority.instruction, side] using theirs.user.symm
          apart := by simpa [PriceTimePriority.instruction, side] using users.symm
          buyMarket := mine.market.symm
          sellMarket := theirs.market.symm
          buyOutcome := mine.outcome.symm
          sellOutcome := theirs.outcome.symm
          limit := ⟨incoming.price, mine.price, crossing⟩
          price := ⟨positive, below⟩
          roles := by simp [PriceTimePriority.instruction, side] }
  | sell =>
    have other_side : resting.side = .buy := by
      cases this : resting.side with
      | sell => exact absurd (this.trans side.symm) sides
      | buy => rfl
    refine ⟨other, order, ?_, ?_, ?_⟩
    · simpa [PriceTimePriority.instruction, side] using theirs.found
    · simpa [PriceTimePriority.instruction, side] using mine.found
    · exact
        { buySide := theirs.side.trans other_side
          sellSide := mine.side.trans side
          buyer := by simpa [PriceTimePriority.instruction, side] using theirs.user.symm
          seller := by simpa [PriceTimePriority.instruction, side] using mine.user.symm
          apart := by simpa [PriceTimePriority.instruction, side] using users
          buyMarket := theirs.market.symm
          sellMarket := mine.market.symm
          buyOutcome := theirs.outcome.symm
          sellOutcome := mine.outcome.symm
          limit := ⟨resting.price, theirs.price, le_rfl⟩
          price := ⟨positive, below⟩
          roles := by simp [PriceTimePriority.instruction, side] }

theorem readInstructions_fit {x : Incoming} (fits : IncomingFits c x) {instructions : List ExecutionInstruction}
    (done : (readInstructions x).run c = .ok (instructions, c')) :
    c' = c ∧ ∀ i ∈ instructions, FillFits c i := by
  rw [readInstructions, run_read] at done
  cases done
  refine ⟨rfl, fun i member => ?_⟩
  obtain ⟨order, mine⟩ := fits
  obtain ⟨resting, listed, crossing, q, rfl⟩ := mem_matchEligible member
  obtain ⟨read, sides, users⟩ := mem_eligible.mp listed
  obtain ⟨other, theirs, -⟩ := mem_getRestingCandidates.mp read
  exact instruction_fits mine theirs sides users crossing

theorem readIncoming_fits {now : Time} {orderId : Nat} {x : Option Incoming}
    (done : (readIncoming now orderId).run c = .ok (x, c')) :
    c' = c ∧ ∀ incoming, x = some incoming → incoming.candidate.orderId = orderId ∧ IncomingFits c incoming := by
  simp only [readIncoming, run_bind_ok, run_getOrThrow_ok] at done
  obtain ⟨order, _, ⟨found, rfl⟩, rest⟩ := done
  rw [run_ite] at rest
  split at rest
  · cases rest
    exact ⟨rfl, by simp⟩
  split at rest
  next =>
    cases rest
    exact ⟨rfl, by simp⟩
  next candidate read =>
    simp only [run_bind_ok, run_getOrThrow_ok] at rest
    obtain ⟨market, _, ⟨-, rfl⟩, rest⟩ := rest
    rw [run_ite] at rest
    split at rest
    · cases rest
      exact ⟨rfl, by simp⟩
    · cases rest
      refine ⟨rfl, ?_⟩
      rintro incoming ⟨⟩
      exact ⟨(candidate_some read).1, order, candidate_of found read⟩

end Instructions

section MintInstructions

variable {c c' : Core} {marketId outcomeAId outcomeBId : Nat} {incoming : MatchCandidate}

theorem mem_matchEligibleMints {candidates : List MatchCandidate} {remaining : ℚ} {i : MintInstruction}
    (member : i ∈ CompleteSetMintEngine.matchEligible marketId outcomeAId outcomeBId incoming remaining candidates) :
    ∃ resting ∈ candidates, 1 ≤ incoming.price + resting.price ∧
      ∃ q, i = CompleteSetMintEngine.instruction marketId outcomeAId outcomeBId incoming resting q := by
  induction candidates generalizing remaining with
  | nil => simp [CompleteSetMintEngine.matchEligible] at member
  | cons resting rest ih =>
    simp only [CompleteSetMintEngine.matchEligible] at member
    split at member
    · simp at member
    split at member
    · obtain ⟨found, inside, more⟩ := ih member
      exact ⟨found, List.mem_cons_of_mem _ inside, more⟩
    split at member
    next => simp at member
    next enough =>
      rcases List.mem_cons.mp member with rfl | later
      · exact ⟨resting, by simp, not_lt.mp enough, _, rfl⟩
      · obtain ⟨found, inside, more⟩ := ih later
        exact ⟨found, List.mem_cons_of_mem _ inside, more⟩

theorem readMintInstructions_fit {x : MintIncoming} (fits : MintIncomingFits c x)
    {instructions : List MintInstruction} (done : (readMintInstructions x).run c = .ok (instructions, c')) :
    c' = c ∧ ∀ i ∈ instructions, MintFits c i := by
  rw [readMintInstructions, run_read] at done
  cases done
  refine ⟨rfl, fun i member => ?_⟩
  obtain ⟨side, apart, ⟨order, mine⟩, binary⟩ := fits
  obtain ⟨resting, listed, enough, q, rfl⟩ := mem_matchEligibleMints member
  simp only [CompleteSetMintEngine.eligible, List.mem_insertionSort, List.mem_filter, decide_eq_true_eq] at listed
  obtain ⟨⟨read, ofSide⟩, users⟩ := listed
  obtain ⟨other, theirs, -⟩ := mem_getRestingCandidates.mp read
  obtain ⟨positive, below⟩ := theirs.valid
  exact ⟨order, other, mine.found, theirs.found,
    { sideA := mine.side.trans side
      sideB := theirs.side.trans ofSide
      buyerA := mine.user.symm
      buyerB := theirs.user.symm
      apart := users.symm
      marketA := mine.market.symm
      marketB := theirs.market.symm
      outcomeA := mine.outcome.symm
      outcomeB := theirs.outcome.symm
      outcomes := apart
      limitA := ⟨x.candidate.price, mine.price, sub_le_iff_le_add.mpr enough⟩
      limitB := ⟨resting.price, theirs.price, le_rfl⟩
      prices := sub_add_cancel 1 resting.price
      positive := ⟨sub_pos.mpr below, positive⟩ }, binary⟩

def Listed (c : Core) : Prop :=
  -- every order is for an outcome of its own market
  ∀ order ∈ c.exchange.orders.rows, order.outcomeId ∈ outcomesOf c.exchange.outcomes order.marketId

theorem readMintIncoming_fits (listed : Listed c) {x : Incoming} (fits : IncomingFits c x)
    (side : x.candidate.side = .buy) {y : Option MintIncoming}
    (done : (readMintIncoming x.candidate.orderId x.marketId).run c = .ok (y, c')) :
    c' = c ∧ ∀ incoming, y = some incoming → MintIncomingFits c incoming := by
  obtain ⟨order, mine⟩ := fits
  unfold readMintIncoming at done
  rw [run_bind_of_ok (run_read _ _), run_ite] at done
  split at done
  · cases done
    exact ⟨rfl, by simp⟩
  next two =>
  rw [run_bind_of_ok (run_getOrThrow_ok.mpr ⟨mine.found, rfl⟩)] at done
  split at done
  next =>
    cases done
    exact ⟨rfl, by simp⟩
  next candidate read =>
  rw [run_ite] at done
  split at done
  · cases done
    exact ⟨rfl, by simp⟩
  split at done
  next =>
    cases done
    exact ⟨rfl, by simp⟩
  next complementary picked =>
    cases done
    refine ⟨rfl, ?_⟩
    rintro incoming ⟨⟩
    have own := listed order (Table.get?_mem mine.found)
    have other := List.mem_of_find?_eq_some picked
    have different : complementary ≠ order.outcomeId := by simpa using List.find?_some picked
    have fresh := candidate_of mine.found read
    rw [mine.market] at own fresh
    refine ⟨(candidate_some read).2.2.1.trans (mine.side.trans side), different.symm, ⟨order, fresh⟩, ?_⟩
    change order.outcomeId ∈ (c.exchange.outcomes.findMany _).map Prod.fst at own
    change outcomesOf c.exchange.outcomes x.marketId = _ ∨ outcomesOf c.exchange.outcomes x.marketId = _
    unfold outcomesOf
    generalize (c.exchange.outcomes.findMany fun outcome => decide (outcome.marketId = x.marketId)).map Prod.fst =
      outcomes at two own other
    obtain ⟨first, second, rfl⟩ := List.length_eq_two.mp (not_not.mp two)
    simp only [List.mem_cons, List.not_mem_nil, or_false] at own other
    rcases own with rfl | rfl <;> rcases other with rfl | rfl
    · exact absurd rfl different
    · exact .inl rfl
    · exact .inr rfl
    · exact absurd rfl different

end MintInstructions

end VerdictVaut.ExecutionCoordinator

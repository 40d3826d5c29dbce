import VerdictVaut.System.Trading

set_option autoImplicit false

namespace VerdictVaut

open Relational Relational.Tx VerdictVaut.Core ExecutionCoordinator ResolutionService

variable {c c' : Core} {desk : Desk}

section Effects

inductive TradingEffect (c c' : Core) : Prop
  -- the ways in which a step of trading changes the database
  | unchanged (same : c' = c)
  | filled {i : ExecutionInstruction} {buy sell : Order} {now : Time} {market : Market}
      (marketFound : c.exchange.markets.get? i.marketId = some market)
      (buyFound : c.exchange.orders.get? i.buyOrderId = some buy)
      (sellFound : c.exchange.orders.get? i.sellOrderId = some sell) (fits : FillTerms i buy sell)
      (fresh : Executable now market i.quantity buy sell)
      (done : Executed c c' i buy sell (minRemaining i.quantity buy sell))
  | minted {i : MintInstruction} {a b : Order} {now : Time} {market : Market}
      (marketFound : c.exchange.markets.get? i.marketId = some market)
      (foundA : c.exchange.orders.get? i.buyOrderAId = some a)
      (foundB : c.exchange.orders.get? i.buyOrderBId = some b) (fits : MintTerms i a b)
      (binary : outcomesOf c.exchange.outcomes i.marketId = [i.outcomeAId, i.outcomeBId] ∨
        outcomesOf c.exchange.outcomes i.marketId = [i.outcomeBId, i.outcomeAId])
      (fresh : Executable now market i.quantity a b) (done : Minted c c' i a b (minRemaining i.quantity a b))
  | placed {placement : OrdersService.Placement} {now : Time} {sequence : Nat} (fits : PlacementFits c placement)
      (listed : placement.outcomeId ∈ outcomesOf c.exchange.outcomes placement.marketId)
      (done : OrdersService.Placed c c' placement now sequence)
  | ended {orderId : Nat} {order : Order} {status : OrderStatus}
      (done : OrdersService.Ended c c' orderId order status)
  | restated {marketId : Nat} {market : Market} {status : MarketStatus}
      (plain : (market.status, status) ∈ [(MarketStatus.draft, .opened), (.opened, .paused), (.paused, .opened),
        (.draft, .cancelled)]) (done : MarketsService.Restated c c' marketId market status)
  | closed {marketId : Nat} {market : Market} {c₁ : Core} (running : market.status ∈ [MarketStatus.opened, .paused])
      (restated : MarketsService.Restated c c₁ marketId market .closed) (ended : OrdersService.EndedAll c₁ c')
      (quiet : ∀ o order, c'.exchange.orders.get? o = some order → order.marketId = marketId →
        order.isExecutable = false)
  | created (done : MarketsService.Created c c')
  | resolved {marketId winner : Nat} (done : Resolved c c' marketId winner)
  | settled {positionId : Nat} {position : Position} {rate : Settlement} {now : Time}
      (done : SettlementService.Settled c c' positionId position rate now)
  | finalized {marketId : Nat} {c₁ : Core} {resolutions : Table MarketResolution}
      (finished : Decided c marketId ∧ Finished c marketId)
      (marked : (c₁ = c ∧ ∀ market, c.exchange.markets.get? marketId = some market → market.status ≠ .resolving) ∨
        ∃ market, market.status = .resolving ∧ MarketsService.Restated c c₁ marketId market .resolved)
      (same : c' = resolutionsField.set resolutions c₁)

inductive QuietEffect (c c' : Core) : Prop
  -- the same, for the steps that apply no instruction
  | unchanged (same : c' = c)
  | placed {placement : OrdersService.Placement} {now : Time} {sequence : Nat} (fits : PlacementFits c placement)
      (listed : placement.outcomeId ∈ outcomesOf c.exchange.outcomes placement.marketId)
      (done : OrdersService.Placed c c' placement now sequence)
  | ended {orderId : Nat} {order : Order} {status : OrderStatus}
      (done : OrdersService.Ended c c' orderId order status)
  | restated {marketId : Nat} {market : Market} {status : MarketStatus}
      (plain : (market.status, status) ∈ [(MarketStatus.draft, .opened), (.opened, .paused), (.paused, .opened),
        (.draft, .cancelled)]) (done : MarketsService.Restated c c' marketId market status)
  | closed {marketId : Nat} {market : Market} {c₁ : Core} (running : market.status ∈ [MarketStatus.opened, .paused])
      (restated : MarketsService.Restated c c₁ marketId market .closed) (ended : OrdersService.EndedAll c₁ c')
      (quiet : ∀ o order, c'.exchange.orders.get? o = some order → order.marketId = marketId →
        order.isExecutable = false)
  | created (done : MarketsService.Created c c')
  | resolved {marketId winner : Nat} (done : Resolved c c' marketId winner)
  | settled {positionId : Nat} {position : Position} {rate : Settlement} {now : Time}
      (done : SettlementService.Settled c c' positionId position rate now)
  | finalized {marketId : Nat} {c₁ : Core} {resolutions : Table MarketResolution}
      (finished : Decided c marketId ∧ Finished c marketId)
      (marked : (c₁ = c ∧ ∀ market, c.exchange.markets.get? marketId = some market → market.status ≠ .resolving) ∨
        ∃ market, market.status = .resolving ∧ MarketsService.Restated c c₁ marketId market .resolved)
      (same : c' = resolutionsField.set resolutions c₁)

theorem QuietEffect.trading (effect : QuietEffect c c') : TradingEffect c c' := by
  cases effect with
  | unchanged same => exact .unchanged same
  | placed fits listed done => exact .placed fits listed done
  | ended done => exact .ended done
  | restated plain done => exact .restated plain done
  | closed running restated ended quiet => exact .closed running restated ended quiet
  | created done => exact .created done
  | resolved done => exact .resolved done
  | settled done => exact .settled done
  | finalized finished marked same => exact .finalized finished marked same

theorem TradingEffect.advances (ordered : Ordered c) (effect : TradingEffect c c') : Advances c c' := by
  cases effect with
  | unchanged same =>
    rw [same]
    exact .refl ordered
  | filled marketFound buyFound sellFound fits fresh done =>
    exact ordered.filled marketFound buyFound sellFound fits fresh done
  | minted marketFound foundA foundB fits binary fresh done =>
    exact ordered.minted marketFound foundA foundB fits binary fresh done
  | placed fits listed done => exact ordered.placed fits listed done
  | ended done => exact ordered.ended done
  | restated plain done =>
    refine ordered.restated ?_ done
    simp only [List.mem_cons, Prod.mk.injEq, List.not_mem_nil, or_false] at plain
    rcases plain with ⟨was, rfl⟩ | ⟨was, rfl⟩ | ⟨was, rfl⟩ | ⟨was, rfl⟩ <;> simp [Market.isDecided, was]
  | closed running restated ended quiet =>
    simp only [List.mem_cons, List.not_mem_nil, or_false] at running
    have closed := ordered.restated (by rcases running with was | was <;> simp [Market.isDecided, was]) restated
    exact closed.trans (closed.ordered.endedAll ended)
  | created done => exact ordered.created done
  | resolved done => exact ordered.resolved done
  | settled done => exact ordered.settled done
  | finalized finished marked same =>
    rw [same]
    rcases marked with ⟨rfl, -⟩ | ⟨market, resolving, restated⟩
    · exact ordered.dated _
    · have resolved := ordered.restated (by simp [Market.isDecided, resolving]) restated
      exact resolved.trans (resolved.ordered.dated _)

theorem transact_effect {α : Type} {body : Tx Core Fault α}
    (effect : ∀ a c', body.run c = .ok (a, c') → TradingEffect c c') : TradingEffect c (transact body c) := by
  rcases transact_cases body c with same | ⟨a, done⟩
  · exact .unchanged same
  · exact effect a _ done

theorem applyExecution_ok {i : ExecutionInstruction} (fits : FillFits c i) {fees : FeeCalculator} {now : Time}
    {result : Option Nat} (done : (applyExecution fees now i).run c = .ok (result, c')) : c' = c ∨
    ∃ market buy sell, c.exchange.markets.get? i.marketId = some market ∧
      c.exchange.orders.get? i.buyOrderId = some buy ∧ c.exchange.orders.get? i.sellOrderId = some sell ∧
      FillTerms i buy sell ∧ Executable now market i.quantity buy sell ∧
      Executed c c' i buy sell (minRemaining i.quantity buy sell) := by
  -- an instruction of the engine that is applied: nothing happens, or the fill executes
  obtain ⟨buy, sell, buyFound, sellFound, terms⟩ := fits
  obtain ⟨market, marketFound⟩ : ∃ market, c.exchange.markets.get? i.marketId = some market := by
    simp only [applyExecution, run_bind_ok, run_getOrThrow_ok] at done
    obtain ⟨_, _, ⟨-, rfl⟩, _, _, ⟨-, rfl⟩, market, _, ⟨found, rfl⟩, -⟩ := done
    exact ⟨market, found⟩
  rcases run_applyExecution buyFound sellFound marketFound fees now with ⟨-, stale⟩ | ⟨fresh, ran⟩
  · rw [stale] at done
    cases done
    exact .inl rfl
  · rw [ran] at done
    rcases executeFill_ok done buyFound sellFound terms with ⟨same, -⟩ | executed
    · exact .inl same
    · exact .inr ⟨market, buy, sell, marketFound, buyFound, sellFound, terms, fresh, executed⟩

theorem applyExecution_effect {i : ExecutionInstruction} (fits : FillFits c i) (fees : FeeCalculator) (now : Time)
    {result : Option Nat} (done : (applyExecution fees now i).run c = .ok (result, c')) :
    TradingEffect c c' := by
  rcases applyExecution_ok fits done with same |
    ⟨market, buy, sell, marketFound, buyFound, sellFound, terms, fresh, executed⟩
  · exact .unchanged same
  · exact .filled marketFound buyFound sellFound terms fresh executed

theorem applyMintExecution_ok {i : MintInstruction} (fits : MintFits c i) {now : Time} {result : Option Nat}
    (done : (applyMintExecution now i).run c = .ok (result, c')) : c' = c ∨
    ∃ market a b, c.exchange.markets.get? i.marketId = some market ∧ c.exchange.orders.get? i.buyOrderAId = some a ∧
      c.exchange.orders.get? i.buyOrderBId = some b ∧ MintTerms i a b ∧ Executable now market i.quantity a b ∧
      Minted c c' i a b (minRemaining i.quantity a b) := by
  obtain ⟨a, b, foundA, foundB, terms, -⟩ := fits
  obtain ⟨market, marketFound⟩ : ∃ market, c.exchange.markets.get? i.marketId = some market := by
    simp only [applyMintExecution, run_bind_ok, run_getOrThrow_ok] at done
    obtain ⟨_, _, ⟨-, rfl⟩, _, _, ⟨-, rfl⟩, market, _, ⟨found, rfl⟩, -⟩ := done
    exact ⟨market, found⟩
  rcases run_applyMintExecution foundA foundB marketFound now with ⟨-, stale⟩ | ⟨fresh, ran⟩
  · rw [stale] at done
    cases done
    exact .inl rfl
  · rw [ran] at done
    rcases executeMint_ok done foundA foundB terms with ⟨same, -⟩ | executed
    · exact .inl same
    · exact .inr ⟨market, a, b, marketFound, foundA, foundB, terms, fresh, executed⟩

theorem applyMintExecution_effect {i : MintInstruction} (fits : MintFits c i) (now : Time)
    {result : Option Nat} (done : (applyMintExecution now i).run c = .ok (result, c')) : TradingEffect c c' := by
  rcases applyMintExecution_ok fits done with same | ⟨market, a, b, marketFound, foundA, foundB, terms, fresh, executed⟩
  · exact .unchanged same
  · obtain ⟨-, -, -, -, -, binary⟩ := fits
    exact .minted marketFound foundA foundB terms binary fresh executed

theorem transact_quiet {α : Type} {body : Tx Core Fault α}
    (effect : ∀ a c', body.run c = .ok (a, c') → QuietEffect c c') : QuietEffect c (transact body c) := by
  rcases transact_cases body c with same | ⟨a, done⟩
  · exact .unchanged same
  · exact effect a _ done

theorem transitionStatus_effect {marketId : Nat} {allowedFrom : List MarketStatus} {status : MarketStatus}
    (plain : ∀ current ∈ allowedFrom, (current, status) ∈ [(MarketStatus.draft, .opened), (.opened, .paused),
      (.paused, .opened), (.draft, .cancelled)]) :
    QuietEffect c (transact (MarketsService.transitionStatus marketId allowedFrom status) c) := by
  refine transact_quiet fun _ _ done => ?_
  obtain ⟨market, allowed, restated⟩ := MarketsService.transitionStatus_ok done
  exact .restated (plain _ allowed) restated

theorem settleOnePosition_settled (ordered : Ordered c) {now : Time} {positionId : Nat} {settled : Bool}
    (done : (SettlementService.settleOnePosition now positionId).run c = .ok (settled, c')) :
    c' = c ∨ ∃ position rate, SettlementService.Settled c c' positionId position rate now := by
  rcases SettlementService.settleOnePosition_ok done with ⟨same, -⟩ | ⟨position, found, unsettled, existing, member, key⟩ |
    ⟨position, rate, settled⟩
  · exact .inl same
  · -- a settlement of this position exists only when it is settled
    obtain ⟨-, own⟩ := ordered.solvent.settlements existing member
    have mine : existing.positionId = positionId := by simpa [own] using key
    have settled := (ordered.solvent.settledBy positionId position found).mpr ⟨existing, member, mine⟩
    simp [unsettled] at settled
  · exact .inr ⟨position, rate, settled⟩

theorem settleOnePosition_effect (ordered : Ordered c) {now : Time} {positionId : Nat} {settled : Bool}
    (done : (SettlementService.settleOnePosition now positionId).run c = .ok (settled, c')) : QuietEffect c c' := by
  rcases settleOnePosition_settled ordered done with same | ⟨position, rate, settled⟩
  · exact .unchanged same
  · exact .settled settled

def TradingAction.applies : TradingAction → Bool
  | .applyExecution _ _ | .applyMintExecution _ _ => true
  | _ => false

theorem tradingStep_quiet (ordered : Ordered c) (fits : DeskFits c desk) {action : TradingAction}
    (other : action.applies = false) : QuietEffect c (tradingStep (c, desk) action).1 := by
  have same : QuietEffect c c := .unchanged rfl
  cases action with
  | applyExecution | applyMintExecution => cases other
  | prepareOrder | readIncoming | beginSettlement =>
    simp only [tradingStep]
    split <;> exact same
  | readInstructions k | readMintInstructions k | countRemaining k =>
    simp only [tradingStep]
    split
    · split <;> exact same
    · exact same
  | readMintIncoming k =>
    simp only [tradingStep]
    split
    · split
      · split <;> exact same
      · exact same
    · exact same
  | createOrder k now sequence =>
    simp only [tradingStep]
    split
    next placement listed =>
      obtain ⟨funded, inMarket⟩ := fits.placements placement (List.mem_of_getElem? listed)
      refine transact_quiet fun _ _ done => ?_
      rcases OrdersService.create_ok (fun _ _ => le_rfl) done with ⟨same, -⟩ | ⟨-, placed⟩
      · exact .unchanged same
      · exact .placed funded inMarket placed
    next => exact same
  | cancelOrder userId orderId =>
    refine transact_quiet fun _ _ done => ?_
    obtain ⟨order, ended⟩ := OrdersService.cancel_ok done
    exact .ended ended
  | createMarket dto => exact transact_quiet fun _ _ done => .created (MarketsService.create_ok done)
  | openMarket marketId => exact transitionStatus_effect (by simp)
  | pauseMarket marketId => exact transitionStatus_effect (by simp)
  | resumeMarket marketId => exact transitionStatus_effect (by simp)
  | cancelMarket marketId => exact transitionStatus_effect (by simp)
  | closeMarket marketId =>
    refine transact_quiet fun _ _ done => ?_
    obtain ⟨market, c₁, allowed, restated, ended, quiet⟩ := MarketsService.close_ok done
    exact .closed allowed restated ended quiet
  | resolve now marketId resolverId winningOutcomeId =>
    refine transact_quiet fun _ _ done => ?_
    simp only [run_bind_ok] at done
    obtain ⟨_, _, authorized, resolved⟩ := done
    obtain rfl := assertAuthorized_ok authorized
    exact .resolved (resolve_ok resolved)
  | settleOnePosition now positionId =>
    exact transact_quiet fun _ _ done => settleOnePosition_effect ordered done
  | finalizeResolved k now =>
    simp only [tradingStep]
    split
    next marketId listed =>
      refine transact_quiet fun _ _ done => ?_
      obtain ⟨c₁, resolutions, same, marked⟩ := SettlementService.finalizeResolved_ok done
      exact .finalized (fits.finalizing marketId (List.mem_of_getElem? listed)) marked same
    next => exact same

theorem tradingStep_effect (ordered : Ordered c) (fits : DeskFits c desk) (action : TradingAction) :
    TradingEffect c (tradingStep (c, desk) action).1 := by
  cases action with
  | applyExecution k now =>
    simp only [tradingStep]
    split
    next i listed =>
      exact transact_effect fun _ _ done =>
        applyExecution_effect (fits.instructions i (List.mem_of_getElem? listed)) _ now done
    next => exact .unchanged rfl
  | applyMintExecution k now =>
    simp only [tradingStep]
    split
    next i listed =>
      exact transact_effect fun _ _ done =>
        applyMintExecution_effect (fits.mintInstructions i (List.mem_of_getElem? listed)) now done
    next => exact .unchanged rfl
  | _ => exact (tradingStep_quiet ordered fits rfl).trading

end Effects

section Desk

theorem prepare_fits {now : Time} {userId : Nat} {dto : OrdersService.CreateOrderDto} {randomUUID : String}
    {placement : OrdersService.Placement} {c' : Core}
    (done : (OrdersService.prepare now userId dto randomUUID).run c = .ok (placement, c')) :
    PlacementFits c placement ∧ placement.outcomeId ∈ outcomesOf c.exchange.outcomes placement.marketId := by
  simp only [OrdersService.prepare, run_bind_ok, run_throwIf_ok, run_pure] at done
  obtain ⟨_, _, trader, _, _, ⟨-, rfl⟩, _, _, listing, price, _, amounts, symbol, _, funding, same⟩ := done
  cases same
  obtain rfl := OrdersService.checkTrader_ok trader
  obtain ⟨rfl, outcome, found, mine⟩ := OrdersService.checkListing_ok listing
  obtain rfl := OrdersService.checkAmounts_ok amounts
  obtain ⟨rfl, funded⟩ := OrdersService.fundingSymbol_ok funding
  refine ⟨fun side => ?_, List.mem_map.mpr ⟨(_, outcome), Table.mem_findMany.mpr ⟨found, decide_eq_true mine⟩, rfl⟩⟩
  obtain ⟨assetId, asset, named, rfl⟩ := funded side
  exact ⟨assetId, asset, named, rfl⟩

theorem awaitingSettlement_decided {marketId : Nat}
    (done : (SettlementService.awaitingSettlement marketId).run c = .ok (true, c')) : Decided c marketId := by
  simp only [SettlementService.awaitingSettlement, run_bind_ok, run_getOrThrow_ok] at done
  obtain ⟨market, _, ⟨found, rfl⟩, rest⟩ := done
  rw [run_ite] at rest
  split at rest
  next => cases rest
  next =>
    simp only [run_bind_ok, run_throwIf_ok, not_not] at rest
    obtain ⟨_, _, ⟨resolving, -⟩, -⟩ := rest
    exact ⟨market, found, by simp [Market.isDecided, resolving]⟩

theorem unsettled_nil {marketId : Nat} :
    SettlementService.unsettled c.exchange.positions marketId = [] ↔ Finished c marketId := by
  unfold SettlementService.unsettled
  rw [List.map_eq_nil_iff]
  constructor
  · intro none position member ofMarket
    by_contra open_
    obtain ⟨i, found⟩ := Table.mem_iff_get?.mp member
    have listed : (i, position) ∈ c.exchange.positions.findMany fun position =>
        decide (position.marketId = marketId) && position.settledAt.isNone :=
      Table.mem_findMany.mpr ⟨found, by simpa [ofMarket] using open_⟩
    simp [none] at listed
  · intro finished
    refine List.eq_nil_iff_forall_not_mem.mpr ?_
    rintro ⟨i, position⟩ member
    obtain ⟨found, picked⟩ := Table.mem_findMany.mp member
    simp only [Bool.and_eq_true, decide_eq_true_eq] at picked
    have settled := finished position (Table.get?_mem found) picked.1
    rw [Option.isNone_iff_eq_none.mp picked.2] at settled
    cases settled

theorem tradingStep_fits (ordered : Ordered c) (fits : DeskFits c desk) (action : TradingAction) :
    DeskFits (tradingStep (c, desk) action).1 (tradingStep (c, desk) action).2 := by
  have effect := (tradingStep_effect ordered fits action).advances ordered
  have persists := fits.persist effect.persists
  -- a transaction leaves the desk as it is; a read adds what it has seen
  cases action with
  | prepareOrder now userId dto randomUUID =>
    simp only [tradingStep]
    split
    next placement seen =>
      obtain ⟨c', done⟩ := observe_some seen
      exact { fits with placements := List.forall_mem_append.mpr ⟨fits.placements, by simpa using prepare_fits done⟩ }
    next => exact fits
  | readIncoming now orderId =>
    simp only [tradingStep]
    split
    next incoming seen =>
      obtain ⟨c', done⟩ := observe_some seen
      exact { fits with incomings := List.forall_mem_append.mpr ⟨fits.incomings, by
        simpa using ((readIncoming_fits done).2 incoming rfl).2⟩ }
    next => exact fits
  | readInstructions k =>
    simp only [tradingStep]
    split
    next incoming listed =>
      split
      next instructions seen =>
        obtain ⟨c', done⟩ := observe_some seen
        exact { fits with instructions := List.forall_mem_append.mpr ⟨fits.instructions,
          (readInstructions_fit (fits.incomings incoming (List.mem_of_getElem? listed)) done).2⟩ }
      next => exact fits
    next => exact fits
  | readMintIncoming k =>
    simp only [tradingStep]
    split
    next incoming listed =>
      split
      next side =>
        split
        next found seen =>
          obtain ⟨c', done⟩ := observe_some seen
          have fit := readMintIncoming_fits ordered.listed (fits.incomings incoming (List.mem_of_getElem? listed)) side done
          exact { fits with mintIncomings := List.forall_mem_append.mpr ⟨fits.mintIncomings, by
            simpa using fit.2 found rfl⟩ }
        next => exact fits
      next => exact fits
    next => exact fits
  | readMintInstructions k =>
    simp only [tradingStep]
    split
    next incoming listed =>
      split
      next instructions seen =>
        obtain ⟨c', done⟩ := observe_some seen
        exact { fits with mintInstructions := List.forall_mem_append.mpr ⟨fits.mintInstructions,
          (readMintInstructions_fit (fits.mintIncomings incoming (List.mem_of_getElem? listed)) done).2⟩ }
      next => exact fits
    next => exact fits
  | beginSettlement marketId =>
    simp only [tradingStep]
    split
    next seen =>
      obtain ⟨c', done⟩ := observe_some seen
      exact { fits with settling := List.forall_mem_append.mpr ⟨fits.settling, by
        simpa using awaitingSettlement_decided done⟩ }
    next => exact fits
  | countRemaining k =>
    simp only [tradingStep]
    split
    next marketId listed =>
      split
      next none =>
        have finished := unsettled_nil.mp (List.length_eq_zero_iff.mp none)
        exact { fits with finalizing := List.forall_mem_append.mpr ⟨fits.finalizing, by
          simpa using ⟨fits.settling marketId (List.mem_of_getElem? listed), finished⟩⟩ }
      next => exact fits
    next => exact fits
  | createOrder | applyExecution | applyMintExecution | finalizeResolved =>
    simp only [tradingStep] at persists ⊢
    split at persists <;> exact persists
  | cancelOrder | createMarket | openMarket | pauseMarket | resumeMarket | cancelMarket | closeMarket | resolve
  | settleOnePosition => exact persists

end Desk

end VerdictVaut

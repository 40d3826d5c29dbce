import VerdictVaut.System.MarketRuns
import VerdictVaut.System.RoundedPlatform

set_option autoImplicit false

namespace VerdictVaut.Rounded

open Relational Relational.Tx VerdictVaut.Core ResolutionService

variable {config : WalletConfig} {s : Platform}

/-- The lifecycle of every market, in every state of a run that rounds nothing. -/
theorem reached_lifecycle (reached : Reached config s) :
    (∀ m market, s.db.core.exchange.markets.get? m = some market → market.isOver → AtRest s.db.core m ∧
      ∀ actions : List VerdictVaut.Action, Allowed Few (perform config) s actions →
        Traded s.db.core (actions.foldl (perform config) s).db.core m) ∧
    (∀ m, (s.db.core.exchange.resolutions.rows.filter fun r => decide (r.marketId = m)).length ≤ 1) ∧
    ∀ m market, s.db.core.exchange.markets.get? m = some market → market.status = .resolved →
      ∀ p position, s.db.core.exchange.positions.get? p = some position → position.marketId = m →
        (s.db.core.exchange.positionSettlements.rows.filter fun settlement =>
          decide (settlement.positionId = p)).length = 1 := by
  obtain ⟨atRest, once, settled⟩ := reached.exact.lifecycle
  refine ⟨fun m market listed isOver => ?_, once, settled⟩
  obtain ⟨rest, quiet⟩ := atRest m market listed isOver
  refine ⟨rest, fun actions allowed => ?_⟩
  rw [reached.foldl_eq allowed]
  exact quiet _

section Sample

def performed (actions : List VerdictVaut.Action) : Platform := actions.foldl (perform .sample) (Platform.initial .sample)

def mintedCalls (quantity : ℚ) : List VerdictVaut.Action :=
  -- two buyers of the two outcomes, matched against each other
  [.deposit 1 "0x1" 200, .deposit 2 "0x2" 200,
    .trading (.createMarket ⟨"final", "sports", none, ["YES", "NO"]⟩), .trading (.openMarket 0),
    .trading (.prepareOrder 0 1 ⟨0, 0, .buy, .limit, some (3 / 5), quantity, none⟩ "a"), .trading (.createOrder 0 0 0),
    .trading (.prepareOrder 0 2 ⟨0, 1, .buy, .limit, some (2 / 5), quantity, none⟩ "b"), .trading (.createOrder 1 0 1),
    .trading (.readIncoming 0 1), .trading (.readMintIncoming 0), .trading (.readMintInstructions 0),
    .trading (.applyMintExecution 0 0)]

def resolvedCalls : List VerdictVaut.Action :=
  -- the minted market, closed, decided for its first outcome and settled
  mintedCalls 10 ++ [.trading (.closeMarket 0), .trading (.resolve 5 0 0 0), .trading (.beginSettlement 0),
    .trading (.settleOnePosition 6 0), .trading (.settleOnePosition 6 1), .trading (.countRemaining 0),
    .trading (.finalizeResolved 0 7)]

theorem scale_sample : Scale 0 1 1000 where
  nonneg := by norm_num
  prices := by decide
  room := ⟨by decide, by norm_num [Decimal.PRECISION], by norm_num⟩

theorem reached_performed {actions : List VerdictVaut.Action}
    (small : Allowed (Small 0 1 1000) (perform .sample) (Platform.initial .sample) actions) :
    Reached .sample (performed actions) :=
  Guarded.foldl (.refl ⟨_, rfl⟩) actions (small.mono fun _ _ fits => ⟨_, _, _, scale_sample, fits⟩)

theorem resolvedCalls_lifecycle :
    ((performed resolvedCalls).db.core.exchange.markets.get? 0).map Market.status = some .resolved ∧
    (∀ m, ((performed resolvedCalls).db.core.exchange.resolutions.rows.filter fun r =>
      decide (r.marketId = m)).length ≤ 1) ∧
    ∀ m market, (performed resolvedCalls).db.core.exchange.markets.get? m = some market → market.status = .resolved →
      ∀ p position, (performed resolvedCalls).db.core.exchange.positions.get? p = some position → position.marketId = m →
        ((performed resolvedCalls).db.core.exchange.positionSettlements.rows.filter fun settlement =>
          decide (settlement.positionId = p)).length = 1 :=
  ⟨by decide +kernel, (reached_lifecycle (reached_performed (by decide +kernel))).2⟩

def longSells : List VerdictVaut.Action :=
  -- shares of 21 digits are reserved for two orders, and the market is closed
  mintedCalls 200 ++
    [.trading (.prepareOrder 0 1 ⟨0, 0, .sell, .limit, some (9 / 10), 100 + 1 / 10 ^ 17, none⟩ "c"),
      .trading (.createOrder 2 0 2),
      .trading (.prepareOrder 0 1 ⟨0, 0, .sell, .limit, some (9 / 10), 9 / 10 ^ 18, none⟩ "d"),
      .trading (.createOrder 3 0 3), .trading (.closeMarket 0)]

/-- What is reserved for the first is rounded together with the second, and what is released is not what was reserved. -/
theorem longSells_reserved :
    ((performed longSells).db.core.exchange.markets.get? 0).map Market.status = some .closed ∧
    ((performed longSells).db.core.exchange.positions.get? 1).map (fun position =>
      (position.marketId, position.reservedQuantity)) = some (0, 1 / 10 ^ 18) ∧
    ¬ AtRest (performed longSells).db.core 0 := by
  have left : ((performed longSells).db.core.exchange.positions.get? 1).map (fun position =>
      (position.marketId, position.reservedQuantity)) = some (0, 1 / 10 ^ 18) := by decide +kernel
  refine ⟨by decide +kernel, left, fun atRest => ?_⟩
  obtain ⟨position, found, same⟩ := Option.map_eq_some_iff.mp left
  simp only [Prod.mk.injEq] at same
  have unreserved := atRest.positions 1 position found same.1
  rw [same.2] at unreserved
  norm_num at unreserved

end Sample

end VerdictVaut.Rounded

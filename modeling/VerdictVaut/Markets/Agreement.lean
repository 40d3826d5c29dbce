import VerdictVaut.Markets.Payouts
import VerdictVaut.Trading.OrdersAgreement

set_option autoImplicit false

-- closing a market and settling a position, with and without rounding
namespace VerdictVaut

open Relational Relational.Tx VerdictVaut.Core Decimals

variable {places digits : ℕ} {most more : ℚ} {c : Core}

theorem Solvent.rate_cases (solvent : Solvent c) {rate : Settlement} (member : rate ∈ c.exchange.settlements.rows) :
    rate.payoutPerShare = 0 ∨ rate.payoutPerShare = 1 := by
  obtain ⟨market, listed, decided⟩ := solvent.rated rate member
  obtain ⟨winner, -, rates⟩ := solvent.decided _ market listed decided
  rw [← rateOf_eq _ member, rates]
  by_cases wins : rate.outcomeId = winner
  next => exact .inr (if_pos wins)
  next => exact .inl (if_neg wins)

namespace Core.Ready

theorem close_agree (ready : c.Ready places digits most more) (room : Room (places + digits) more) (marketId : Nat) :
    Agree (fun _ c' => c'.Ready places digits most more) (Rounded.MarketsService.close marketId) (MarketsService.close marketId) c := by
  refine .after fun _ c₁ closed => ?_
  obtain ⟨market, -, -, markets, rfl, -⟩ := MarketsService.transitionStatus_ok closed
  have ready₁ : (marketsField.set markets c).Ready places digits most more := ⟨ready.funds, ready.shares, ready.orders⟩
  exact expireRestingOrders_agree ready₁ room marketId

theorem postPayout_agree (ready : c.Ready places digits most more) (room : Room (places + digits) (more + 2 * more))
    (nonneg : 0 ≤ more) {positionId : Nat} {position : Position} {payout : ℚ} (figure : Figure places more payout) :
    Agree (fun _ _ => True) (Rounded.SettlementService.postPayout positionId position payout)
      (SettlementService.postPayout positionId position payout) c := by
  refine .ite (fun _ => .pure trivial) fun _ => ?_
  refine Agree.bind (@post_agree places digits most more c _ 2 more ready nonneg (by exact_mod_cast room) (fun _ => rfl)
    (fun _ => rfl) (fun _ posting member => ?_) (by positivity)) fun _ _ _ _ => .pure trivial
  have finer := figure.finer (Nat.le_add_right places digits)
  simp only [SettlementService.payoutInput, SettlementService.payoutPostings, List.mem_cons, List.not_mem_nil,
    or_false] at member
  rcases member with rfl | rfl
  next => exact finer
  next => exact finer.neg

theorem settleOnePosition_agree (solvent : Solvent c) (ready : c.Ready places digits most more)
    (room : Room (places + digits) (more + 2 * more)) (nonneg : 0 ≤ more) (now : Time) (positionId : Nat) :
    Agree (fun _ _ => True) (Rounded.SettlementService.settleOnePosition now positionId)
      (SettlementService.settleOnePosition now positionId) c := by
  have tight : Room places more := (room.smaller (by linarith)).coarser (Nat.le_add_right _ _)
  refine .getOrThrow fun position there => .ite (fun _ => .pure trivial) fun _ => .throwIf fun _ => ?_
  refine .findOrThrow fun found located => ?_
  obtain ⟨i, rate⟩ := found
  obtain ⟨listed, -⟩ := Table.find?_some located
  have quantity := (ready.shares.small.holders position (Table.get?_mem there) trivial).1
  have payout : Figure places more (position.quantity * rate.payoutPerShare) := by
    rcases solvent.rate_cases (Table.get?_mem listed) with none | whole
    next =>
      rw [none, mul_zero]
      exact .zero nonneg
    next =>
      rw [whole, mul_one]
      exact quantity
  dsimp only [Rounded.SettlementService.computeSettlementPayout, SettlementService.computeSettlementPayout]
  rw [tight.times payout]
  refine (postPayout_agree ready room nonneg payout).bind fun _ _ _ _ => ?_
  exact tight.write payout (.self fun _ _ _ => trivial)

end Core.Ready

end VerdictVaut

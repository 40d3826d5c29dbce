import VerdictVaut.Markets.Payouts
import VerdictVaut.Trading.InFlight
import VerdictVaut.Trading.Progress

set_option autoImplicit false

namespace VerdictVaut

open Relational Relational.Tx VerdictVaut.Core ExecutionCoordinator ResolutionService

/-- The calls in flight: what they have read and not yet used. Nothing is ever taken out, so that a call
may be retried, may stop, and may use what it has read at any later time. -/
structure Desk where
  placements : List OrdersService.Placement
  incomings : List Incoming
  instructions : List ExecutionInstruction
  mintIncomings : List MintIncoming
  mintInstructions : List MintInstruction
  settling : List Nat
  finalizing : List Nat

def Desk.empty : Desk := ⟨[], [], [], [], [], [], []⟩

inductive TradingAction
  | prepareOrder (now : Time) (userId : Nat) (dto : OrdersService.CreateOrderDto) (randomUUID : String)
  | createOrder (k : Nat) (now : Time) (sequence : Nat)
  | cancelOrder (userId orderId : Nat)
  | readIncoming (now : Time) (orderId : Nat)
  | readInstructions (k : Nat)
  | applyExecution (k : Nat) (now : Time)
  | readMintIncoming (k : Nat)
  | readMintInstructions (k : Nat)
  | applyMintExecution (k : Nat) (now : Time)
  | createMarket (dto : MarketsService.CreateMarketDto)
  | openMarket (marketId : Nat)
  | pauseMarket (marketId : Nat)
  | resumeMarket (marketId : Nat)
  | cancelMarket (marketId : Nat)
  | closeMarket (marketId : Nat)
  | resolve (now : Time) (marketId resolverId winningOutcomeId : Nat)
  | beginSettlement (marketId : Nat)
  | settleOnePosition (now : Time) (positionId : Nat)
  | countRemaining (k : Nat)
  | finalizeResolved (k : Nat) (now : Time)

def transact {α : Type} (body : Tx Core Fault α) (c : Core) : Core := commit (runTransaction ledgerField body) c

def observe {α : Type} (body : Tx Core Fault α) (c : Core) : Option α :=
  -- the value of a plain read, when it does not throw
  match body.run c with
  | .ok (a, _) => some a
  | .error _ => none

def tradingStep (s : Core × Desk) (action : TradingAction) : Core × Desk :=
  let (c, desk) := s
  match action with
  | .prepareOrder now userId dto randomUUID =>
    match observe (OrdersService.prepare now userId dto randomUUID) c with
    | some placement => (c, { desk with placements := desk.placements ++ [placement] })
    | none => (c, desk)
  | .createOrder k now sequence =>
    match desk.placements[k]? with
    | some placement => (transact (OrdersService.create zeroFeeCalculator now placement sequence) c, desk)
    | none => (c, desk)
  | .cancelOrder userId orderId => (transact (OrdersService.cancel userId orderId) c, desk)
  | .readIncoming now orderId =>
    match observe (ExecutionCoordinator.readIncoming now orderId) c with
    | some (some incoming) => (c, { desk with incomings := desk.incomings ++ [incoming] })
    | _ => (c, desk)
  | .readInstructions k =>
    match desk.incomings[k]? with
    | some incoming =>
      match observe (ExecutionCoordinator.readInstructions incoming) c with
      | some instructions => (c, { desk with instructions := desk.instructions ++ instructions })
      | none => (c, desk)
    | none => (c, desk)
  | .applyExecution k now =>
    match desk.instructions[k]? with
    | some instruction =>
      (transact (ExecutionCoordinator.applyExecution zeroFeeCalculator now instruction) c, desk)
    | none => (c, desk)
  | .readMintIncoming k =>
    match desk.incomings[k]? with
    | some incoming =>
      if incoming.candidate.side = .buy then
        match observe (ExecutionCoordinator.readMintIncoming incoming.candidate.orderId incoming.marketId) c with
        | some (some incoming) => (c, { desk with mintIncomings := desk.mintIncomings ++ [incoming] })
        | _ => (c, desk)
      else (c, desk)
    | none => (c, desk)
  | .readMintInstructions k =>
    match desk.mintIncomings[k]? with
    | some incoming =>
      match observe (ExecutionCoordinator.readMintInstructions incoming) c with
      | some instructions => (c, { desk with mintInstructions := desk.mintInstructions ++ instructions })
      | none => (c, desk)
    | none => (c, desk)
  | .applyMintExecution k now =>
    match desk.mintInstructions[k]? with
    | some instruction => (transact (ExecutionCoordinator.applyMintExecution now instruction) c, desk)
    | none => (c, desk)
  | .createMarket dto => (transact (MarketsService.create dto) c, desk)
  | .openMarket marketId => (transact (MarketsService.openMarket marketId) c, desk)
  | .pauseMarket marketId => (transact (MarketsService.pause marketId) c, desk)
  | .resumeMarket marketId => (transact (MarketsService.resume marketId) c, desk)
  | .cancelMarket marketId => (transact (MarketsService.cancel marketId) c, desk)
  | .closeMarket marketId => (transact (MarketsService.close marketId) c, desk)
  | .resolve now marketId resolverId winningOutcomeId =>
    (transact (do
      ResolutionService.assertAuthorized resolverId
      ResolutionService.resolve now marketId resolverId winningOutcomeId) c, desk)
  | .beginSettlement marketId =>
    match observe (SettlementService.awaitingSettlement marketId) c with
    | some true => (c, { desk with settling := desk.settling ++ [marketId] })
    | _ => (c, desk)
  | .settleOnePosition now positionId => (transact (SettlementService.settleOnePosition now positionId) c, desk)
  | .countRemaining k =>
    match desk.settling[k]? with
    | some marketId =>
      if (SettlementService.unsettled c.exchange.positions marketId).length = 0 then
        (c, { desk with finalizing := desk.finalizing ++ [marketId] })
      else (c, desk)
    | none => (c, desk)
  | .finalizeResolved k now =>
    match desk.finalizing[k]? with
    | some marketId => (transact (SettlementService.finalizeResolved now marketId) c, desk)
    | none => (c, desk)

theorem transact_cases {α : Type} (body : Tx Core Fault α) (c : Core) :
    transact body c = c ∨ ∃ a, body.run c = .ok (a, transact body c) := by
  rcases commit_cases (runTransaction ledgerField body) c with same | ⟨a, done⟩
  · exact .inl same
  · exact .inr ⟨a, runTransaction_ok done⟩

theorem observe_some {α : Type} {body : Tx Core Fault α} {c : Core} {a : α} (seen : observe body c = some a) :
    ∃ c', body.run c = .ok (a, c') := by
  unfold observe at seen
  split at seen
  next a' c' ran =>
    cases seen
    exact ⟨c', ran⟩
  next => cases seen

section Invariant

structure Ordered (c : Core) : Prop where
  -- what holds of the database between any two transactions
  sound : c.ledger.Sound
  backing : Backing c
  solvent : Solvent c
  listed : Listed c

def Decided (c : Core) (marketId : Nat) : Prop :=
  ∃ market, c.exchange.markets.get? marketId = some market ∧ market.isDecided = true

def Finished (c : Core) (marketId : Nat) : Prop :=
  ∀ position ∈ c.exchange.positions.rows, position.marketId = marketId → position.settledAt.isSome = true

structure Persists (c c' : Core) : Prop where
  -- what a step leaves in place for the calls that are in flight
  orders : Table.Carries terms c.exchange.orders c'.exchange.orders
  outcomes : ∀ m o, o ∈ outcomesOf c.exchange.outcomes m → outcomesOf c'.exchange.outcomes m = outcomesOf c.exchange.outcomes m
  assets : c'.ledger.assets = c.ledger.assets
  decided : ∀ m, Decided c m → Decided c' m
  finished : ∀ m, Decided c m → Finished c m → Finished c' m

structure DeskFits (c : Core) (desk : Desk) : Prop where
  placements : ∀ placement ∈ desk.placements, PlacementFits c placement ∧
    placement.outcomeId ∈ outcomesOf c.exchange.outcomes placement.marketId
  incomings : ∀ incoming ∈ desk.incomings, IncomingFits c incoming
  instructions : ∀ instruction ∈ desk.instructions, FillFits c instruction
  mintIncomings : ∀ incoming ∈ desk.mintIncomings, MintIncomingFits c incoming
  mintInstructions : ∀ instruction ∈ desk.mintInstructions, MintFits c instruction
  settling : ∀ marketId ∈ desk.settling, Decided c marketId
  finalizing : ∀ marketId ∈ desk.finalizing, Decided c marketId ∧ Finished c marketId

variable {c c' c'' : Core} {desk : Desk}

theorem Persists.refl (c : Core) : Persists c c := ⟨.refl _ _, fun _ _ _ => rfl, rfl, fun _ => id, fun _ _ => id⟩

theorem Persists.trans (first : Persists c c') (second : Persists c' c'') : Persists c c'' := by
  refine ⟨first.orders.trans second.orders, ?_, second.assets.trans first.assets, ?_, ?_⟩
  · intro m o inside
    have same := first.outcomes m o inside
    rw [second.outcomes m o (same ▸ inside), same]
  · exact fun m decided => second.decided m (first.decided m decided)
  · exact fun m decided finished => second.finished m (first.decided m decided) (first.finished m decided finished)

theorem Decided.apart {m i : Nat} {market : Market} {now : Time} (decided : Decided c m)
    (found : c.exchange.markets.get? i = some market) (executable : market.isExecutable now = true) : i ≠ m := by
  rintro rfl
  obtain ⟨market', found', final⟩ := decided
  rw [found] at found'
  cases found'
  simp only [Market.isExecutable, Bool.and_eq_true, decide_eq_true_eq] at executable
  simp [Market.isDecided, executable.1] at final

theorem Persists.traded {opened : Nat × Nat × Nat × Option Time → Prop}
    {change : (Nat × Nat × Nat × Option Time → ℚ) → ℚ}
    (orders : Table.Carries terms c.exchange.orders c'.exchange.orders) (static : Static c c')
    (assets : c'.ledger.assets = c.ledger.assets)
    (moved : Rebalanced c.exchange.shares c'.exchange.shares opened change)
    (apart : ∀ m, Decided c m → ∀ t, opened t → t.2.1 ≠ m) : Persists c c' := by
  refine ⟨orders, ?_, assets, ?_, ?_⟩
  · rw [static.outcomes]
    exact fun _ _ _ => rfl
  · intro m decided
    rw [Decided, static.markets]
    exact decided
  · intro m decided finished position member ofMarket
    rcases moved.origin position member with ⟨before, earlier, same⟩ | new
    · simp only [tag, Prod.mk.injEq] at same
      rw [← same.2.2.2]
      exact finished before earlier (same.2.1.trans ofMarket)
    · exact absurd ofMarket (apart m decided _ new)

theorem Persists.binary (kept : Persists c c') {m a b : Nat} (pair : outcomesOf c.exchange.outcomes m = [a, b]) :
    outcomesOf c'.exchange.outcomes m = [a, b] := by
  rw [kept.outcomes m a (by simp [pair]), pair]

theorem Persists.fillFits (kept : Persists c c') {i : ExecutionInstruction} (fits : FillFits c i) : FillFits c' i := by
  obtain ⟨buy, sell, buyFound, sellFound, terms⟩ := fits
  obtain ⟨buy', buyFound', sameB⟩ := kept.orders _ _ buyFound
  obtain ⟨sell', sellFound', sameS⟩ := kept.orders _ _ sellFound
  exact ⟨buy', sell', buyFound', sellFound', terms.carried sameB sameS⟩

theorem Persists.mintFits (kept : Persists c c') {i : MintInstruction} (fits : MintFits c i) : MintFits c' i := by
  obtain ⟨a, b, foundA, foundB, terms, pair⟩ := fits
  obtain ⟨a', foundA', sameA⟩ := kept.orders _ _ foundA
  obtain ⟨b', foundB', sameB⟩ := kept.orders _ _ foundB
  exact ⟨a', b', foundA', foundB', terms.carried sameA sameB, pair.imp kept.binary kept.binary⟩

theorem DeskFits.persist (fits : DeskFits c desk) (kept : Persists c c') : DeskFits c' desk := by
  constructor
  · intro placement member
    obtain ⟨funded, listed⟩ := fits.placements placement member
    refine ⟨fun side => ?_, by rw [kept.outcomes _ _ listed]; exact listed⟩
    rw [kept.assets]
    exact funded side
  · intro incoming member
    obtain ⟨order, mine⟩ := fits.incomings incoming member
    exact mine.carried kept.orders
  · exact fun i member => kept.fillFits (fits.instructions i member)
  · intro incoming member
    obtain ⟨side, apart, ⟨order, mine⟩, pair⟩ := fits.mintIncomings incoming member
    exact ⟨side, apart, mine.carried kept.orders, pair.imp kept.binary kept.binary⟩
  · exact fun i member => kept.mintFits (fits.mintInstructions i member)
  · exact fun m member => kept.decided m (fits.settling m member)
  · intro m member
    obtain ⟨decided, finished⟩ := fits.finalizing m member
    exact ⟨kept.decided m decided, kept.finished m decided finished⟩

end Invariant

section Steps

variable {c c' : Core}

structure Advances (c c' : Core) : Prop where
  ordered : Ordered c'
  persists : Persists c c'
  moved : Ledger.Moved tradingKinds c.ledger c'.ledger

theorem Advances.refl (ordered : Ordered c) : Advances c c := ⟨ordered, .refl c, .refl _ _⟩

theorem Advances.trans {c'' : Core} (first : Advances c c') (second : Advances c' c'') : Advances c c'' :=
  ⟨second.ordered, first.persists.trans second.persists, first.moved.trans second.moved⟩

theorem listed_carried (listed : Listed c) (outcomes : c'.exchange.outcomes = c.exchange.outcomes)
    (known : ∀ o order', c'.exchange.orders.get? o = some order' →
      (∃ order, c.exchange.orders.get? o = some order ∧ terms order' = terms order) ∨
        order'.outcomeId ∈ outcomesOf c.exchange.outcomes order'.marketId) : Listed c' := by
  intro order' member
  rw [outcomes]
  obtain ⟨o, found⟩ := Table.mem_iff_get?.mp member
  rcases known o order' found with ⟨order, earlier, same⟩ | new
  · simp only [terms, Prod.mk.injEq] at same
    rw [same.2.1, same.2.2.1]
    exact listed order (Table.get?_mem earlier)
  · exact new

theorem carries_of_two_sets {β : Type} (columns : Order → β) {t t' : Table Order} {i j : Nat} {a b a' b' : Order}
    (first : t.get? i = some a) (second : t.get? j = some b) (rows : t'.rows = (t.rows.set i a').set j b')
    (sameA : columns a' = columns a) (sameB : columns b' = columns b) : Table.Carries columns t t' ∧
      ∀ o order', t'.get? o = some order' → ∃ order, t.get? o = some order ∧ columns order' = columns order := by
  constructor
  · intro o order found
    rw [get?_of_two_sets first second rows]
    by_cases atJ : o = j
    · subst atJ
      rw [second] at found
      cases found
      exact ⟨b', by simp, sameB⟩
    · by_cases atI : o = i
      · subst atI
        rw [first] at found
        cases found
        exact ⟨a', by simp [atJ], sameA⟩
      · exact ⟨order, by simp [atJ, atI, found], rfl⟩
  · intro o order' found
    rw [get?_of_two_sets first second rows] at found
    by_cases atJ : o = j
    · subst atJ
      rw [if_pos rfl] at found
      cases found
      exact ⟨b, second, sameB⟩
    · by_cases atI : o = i
      · subst atI
        rw [if_neg atJ, if_pos rfl] at found
        cases found
        exact ⟨a, first, sameA⟩
      · rw [if_neg atJ, if_neg atI] at found
        exact ⟨order', found, rfl⟩

theorem Ordered.filled (ordered : Ordered c) {i : ExecutionInstruction} {buy sell : Order} {now : Time} {market : Market}
    (marketFound : c.exchange.markets.get? i.marketId = some market)
    (buyFound : c.exchange.orders.get? i.buyOrderId = some buy)
    (sellFound : c.exchange.orders.get? i.sellOrderId = some sell) (fits : FillTerms i buy sell)
    (fresh : Executable now market i.quantity buy sell)
    (done : Executed c c' i buy sell (minRemaining i.quantity buy sell)) : Advances c c' := by
  obtain ⟨carried, known⟩ := carries_of_two_sets terms buyFound sellFound done.orders rfl rfl
  obtain ⟨_, _, -, -, moved⟩ := done.positions
  refine ⟨⟨done.ledger.sound ordered.sound, ordered.backing.filled buyFound sellFound fits fresh done,
    ordered.solvent.filled marketFound fresh.market done, listed_carried ordered.listed done.static.outcomes
      fun o order' found => .inl (known o order' found)⟩, .traded carried done.static done.ledger.assets moved ?_, done.ledger⟩
  rintro m decided t (rfl | rfl)
  · exact decided.apart marketFound fresh.market
  · exact decided.apart marketFound fresh.market

theorem Ordered.minted (ordered : Ordered c) {i : MintInstruction} {a b : Order} {now : Time} {market : Market}
    (marketFound : c.exchange.markets.get? i.marketId = some market)
    (foundA : c.exchange.orders.get? i.buyOrderAId = some a)
    (foundB : c.exchange.orders.get? i.buyOrderBId = some b) (fits : MintTerms i a b)
    (binary : outcomesOf c.exchange.outcomes i.marketId = [i.outcomeAId, i.outcomeBId] ∨
      outcomesOf c.exchange.outcomes i.marketId = [i.outcomeBId, i.outcomeAId])
    (fresh : Executable now market i.quantity a b)
    (done : Minted c c' i a b (minRemaining i.quantity a b)) : Advances c c' := by
  obtain ⟨carried, known⟩ := carries_of_two_sets terms foundA foundB done.orders rfl rfl
  obtain ⟨_, _, -, -, moved⟩ := done.positions
  refine ⟨⟨done.ledger.sound ordered.sound, ordered.backing.minted foundA foundB fits fresh done,
    ordered.solvent.minting ordered.sound marketFound fresh.market fits binary done,
    listed_carried ordered.listed done.static.outcomes fun o order' found => .inl (known o order' found)⟩,
    .traded carried done.static done.ledger.assets moved ?_, done.ledger⟩
  rintro m decided t (rfl | rfl)
  · exact decided.apart marketFound fresh.market
  · exact decided.apart marketFound fresh.market

theorem Ordered.placed (ordered : Ordered c) {placement : OrdersService.Placement} {now : Time} {sequence : Nat}
    (fits : PlacementFits c placement)
    (listed : placement.outcomeId ∈ outcomesOf c.exchange.outcomes placement.marketId)
    (done : OrdersService.Placed c c' placement now sequence) : Advances c c' := by
  refine ⟨⟨done.ledger.sound ordered.sound, ordered.backing.placed ordered.sound fits done,
    ordered.solvent.placed done, listed_carried ordered.listed done.static.outcomes ?_⟩,
    .traded (.of_append done.orders) done.static done.ledger.assets done.positions ?_, done.ledger⟩
  · intro o order' found
    rw [Table.get?_of_append done.orders] at found
    split at found
    next =>
      cases found
      exact .inr listed
    next => exact .inl ⟨order', found, rfl⟩
  · rintro m decided t rfl
    obtain ⟨market, found, executable⟩ := done.market
    exact decided.apart found executable

theorem Ordered.ended (ordered : Ordered c) {orderId : Nat} {order : Order} {status : OrderStatus}
    (done : OrdersService.Ended c c' orderId order status) : Advances c c' := by
  refine ⟨⟨done.ledger.sound ordered.sound, ordered.backing.ended done, ordered.solvent.ended done,
    listed_carried ordered.listed done.static.outcomes ?_⟩,
    .traded done.sameTerms done.static done.ledger.assets done.positions (fun _ _ _ new => new.elim), done.ledger⟩
  intro o order' found
  obtain ⟨before, earlier, same, -⟩ := done.origin found
  exact .inl ⟨before, earlier, same⟩

theorem Ordered.endedAll (ordered : Ordered c) (done : OrdersService.EndedAll c c') : Advances c c' := by
  induction done with
  | refl => exact .refl ordered
  | head first _ ih =>
    have advanced := ordered.ended first
    exact advanced.trans (ih advanced.ordered)

theorem Ordered.markets (ordered : Ordered c) {markets : Table Market} {outcomes : Table MarketOutcome}
    {resolutions : Table MarketResolution} {settlements : Table Settlement}
    (solvent : Solvent { c with exchange := { c.exchange with
      markets := markets, outcomes := outcomes, resolutions := resolutions, settlements := settlements } })
    (kept : ∀ m o, o ∈ outcomesOf c.exchange.outcomes m → outcomesOf outcomes m = outcomesOf c.exchange.outcomes m)
    (decided : ∀ m market, c.exchange.markets.get? m = some market → market.isDecided = true →
      ∃ market', markets.get? m = some market' ∧ market'.isDecided = true) :
    Advances c { c with exchange := { c.exchange with
      markets := markets, outcomes := outcomes, resolutions := resolutions, settlements := settlements } } := by
  refine ⟨⟨ordered.sound, ?_, solvent, ?_⟩, ⟨.refl _ _, kept, rfl, ?_, fun _ _ => id⟩, .refl _ _⟩
  · exact ordered.backing.untouched ⟨rfl, .refl _ _, .refl _ _⟩ ordered.backing.agrees rfl rfl rfl (fun _ => rfl) rfl
  · intro order member
    have inside := ordered.listed order member
    change order.outcomeId ∈ outcomesOf outcomes order.marketId
    rw [kept _ _ inside]
    exact inside
  · rintro m ⟨market, found, final⟩
    exact decided m market found final

theorem decided_restated {t t' : Table Market} {marketId : Nat} {market new : Market}
    (found : t.get? marketId = some market) (rows : t'.rows = t.rows.set marketId new)
    (same : market.isDecided = true → new.isDecided = true) (m : Nat) (other : Market) (before : t.get? m = some other)
    (final : other.isDecided = true) : ∃ market', t'.get? m = some market' ∧ market'.isDecided = true := by
  rw [Table.get?_of_set rows (Table.get?_lt found)]
  by_cases mine : m = marketId
  · subst mine
    rw [found] at before
    cases before
    exact ⟨new, if_pos rfl, same final⟩
  · exact ⟨other, (if_neg mine).trans before, final⟩

theorem Ordered.rewritten (ordered : Ordered c) {marketId : Nat} {market new : Market} {markets : Table Market}
    (found : c.exchange.markets.get? marketId = some market)
    (rows : markets.rows = c.exchange.markets.rows.set marketId new) (same : new.isDecided = market.isDecided) :
    Advances c (marketsField.set markets c) :=
  ordered.markets (ordered.solvent.rewritten found rows same) (fun _ _ _ => rfl)
    (decided_restated found rows fun final => same.trans final)

theorem Ordered.restated (ordered : Ordered c) {marketId : Nat} {market : Market} {status : MarketStatus}
    (same : ({ market with status := status } : Market).isDecided = market.isDecided)
    (done : MarketsService.Restated c c' marketId market status) : Advances c c' := by
  obtain ⟨markets, rfl, rows⟩ := done.result
  exact ordered.rewritten done.found rows same

theorem Ordered.created (ordered : Ordered c) (done : MarketsService.Created c c') : Advances c c' := by
  have solvent := ordered.solvent.created done
  obtain ⟨markets, outcomes, market, new, rfl, added, -, rows, mine⟩ := done.result
  refine ordered.markets solvent (fun m o inside => outcomesOf_append rows mine ?_) ?_
  · rintro rfl
    obtain ⟨⟨i, outcome⟩, found, -⟩ := List.mem_map.mp inside
    obtain ⟨place, ofMarket⟩ := Table.mem_findMany.mp found
    have bounded := ordered.solvent.outcomesIn outcome (Table.get?_mem place)
    rw [of_decide_eq_true ofMarket] at bounded
    exact absurd bounded (lt_irrefl _)
  · intro m other found final
    exact ⟨other, ((Table.get?_of_append added m).trans (if_neg (Table.get?_lt found).ne)).trans found, final⟩

theorem Ordered.resolved (ordered : Ordered c) {marketId winner : Nat} (done : Resolved c c' marketId winner) :
    Advances c c' := by
  have solvent := ordered.solvent.resolved done
  obtain ⟨⟨market, -, found, markets, resolutions, settlements, rfl, rows, -⟩, -⟩ := done
  exact ordered.markets solvent (fun _ _ _ => rfl) (decided_restated found rows fun _ => rfl)

theorem Ordered.dated (ordered : Ordered c) (resolutions : Table MarketResolution) :
    Advances c (resolutionsField.set resolutions c) :=
  ordered.markets (ordered.solvent.dated resolutions) (fun _ _ _ => rfl) fun _ market found final => ⟨market, found, final⟩

theorem Ordered.settled (ordered : Ordered c) {positionId : Nat} {position : Position} {rate : Settlement} {now : Time}
    (done : SettlementService.Settled c c' positionId position rate now) : Advances c c' := by
  have solvent := ordered.solvent.settled ordered.sound done
  obtain ⟨l, settlements, positions, transactionId, rfl, -, rewritten, moved, reservations, -, -⟩ := done.result
  refine ⟨⟨moved.sound ordered.sound, ?_, solvent, ordered.listed⟩,
    ⟨.refl _ _, fun _ _ _ => rfl, moved.assets, fun _ => id, ?_⟩, moved⟩
  · refine ordered.backing.untouched ⟨moved.assets, moved.accounts, .of_set done.found rewritten rfl⟩
      (ordered.backing.agrees.rewriteHolder done.found rewritten rfl rfl) rfl rfl rfl ?_ rfl
    intro o
    change l.funds.forRef .order o = _
    rw [Reserved.forRef, reservations, Reserved.forRef]
  · intro m _ finished other member ofMarket
    change other ∈ positions.rows at member
    rw [rewritten] at member
    rcases List.mem_or_eq_of_mem_set member with old | rfl
    · exact finished other old ofMarket
    · rfl

end Steps

end VerdictVaut

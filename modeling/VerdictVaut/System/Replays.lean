import VerdictVaut.System.Matching
import VerdictVaut.System.RoundedRuns

set_option autoImplicit false

namespace VerdictVaut

open Relational Relational.Tx ExecutionCoordinator ResolutionService WithdrawalsService

variable {config : WalletConfig} {s : Platform}

section Kept

structure Kept (db db' : Db) : Prop where
  -- what a step leaves in place for a request that is made once more
  users : db'.core.users = db.core.users
  persists : Persists db.core db'.core
  clientOrderIds : Table.Carries Order.clientOrderId db.core.exchange.orders db'.core.exchange.orders
  networks : db'.wallet.networks = db.wallet.networks
  assetNetworks : db'.wallet.assetNetworks = db.wallet.assetNetworks
  withdrawals : Table.Carries WithdrawalsService.terms db.wallet.withdrawals db'.wallet.withdrawals

variable {db db' db'' : Db} {c c' : Core}

theorem Kept.refl (db : Db) : Kept db db := ⟨rfl, .refl _, .refl _ _, rfl, rfl, .refl _ _⟩

theorem Kept.trans (first : Kept db db') (second : Kept db' db'') : Kept db db'' :=
  ⟨second.users.trans first.users, first.persists.trans second.persists,
    first.clientOrderIds.trans second.clientOrderIds, second.networks.trans first.networks,
    second.assetNetworks.trans first.assetNetworks, first.withdrawals.trans second.withdrawals⟩

theorem OrdersService.EndedAll.clientOrderIds (ended : OrdersService.EndedAll c c') :
    Table.Carries Order.clientOrderId c.exchange.orders c'.exchange.orders := by
  induction ended with
  | refl => exact .refl _ _
  | head first _ ih => exact (Table.Carries.of_set first.found first.orders rfl).trans ih

theorem TradingEffect.kept (effect : TradingEffect c c') : c'.users = c.users ∧
    Table.Carries Order.clientOrderId c.exchange.orders c'.exchange.orders := by
  have frame : ∀ {c c' : Core} {marketId : Nat} {market : Market} {status : MarketStatus},
      MarketsService.Restated c c' marketId market status → c'.users = c.users ∧ c'.exchange.orders = c.exchange.orders := by
    intro c c' marketId market status restated
    obtain ⟨markets, rfl, -⟩ := restated.result
    exact ⟨rfl, rfl⟩
  cases effect with
  | unchanged same =>
    rw [same]
    exact ⟨rfl, .refl _ _⟩
  | filled marketFound buyFound sellFound fits fresh done =>
    exact ⟨done.static.users, (carries_of_two_sets _ buyFound sellFound done.orders rfl rfl).1⟩
  | minted marketFound foundA foundB fits binary fresh done =>
    exact ⟨done.static.users, (carries_of_two_sets _ foundA foundB done.orders rfl rfl).1⟩
  | placed fits listed done => exact ⟨done.static.users, .of_append done.orders⟩
  | ended done => exact ⟨done.static.users, .of_set done.found done.orders rfl⟩
  | restated plain done =>
    obtain ⟨users, orders⟩ := frame done
    rw [orders]
    exact ⟨users, .refl _ _⟩
  | closed running restated ended quiet =>
    obtain ⟨users, orders⟩ := frame restated
    have later := ended.clientOrderIds
    rw [orders] at later
    exact ⟨ended.frame.1.users.trans users, later⟩
  | created done =>
    obtain ⟨markets, outcomes, market, new, rfl, -⟩ := done.result
    exact ⟨rfl, .refl _ _⟩
  | resolved done =>
    obtain ⟨⟨market, -, -, markets, resolutions, settlements, rfl, -⟩, -⟩ := done
    exact ⟨rfl, .refl _ _⟩
  | settled done =>
    obtain ⟨l, settlements, positions, transactionId, rfl, -⟩ := done.result
    exact ⟨rfl, .refl _ _⟩
  | finalized finished marked same =>
    rcases marked with ⟨rfl, -⟩ | ⟨market, -, restated⟩
    · rw [same]
      exact ⟨rfl, .refl _ _⟩
    · obtain ⟨users, orders⟩ := frame restated
      rw [same]
      refine ⟨users, ?_⟩
      rw [← orders]
      exact .refl _ _

theorem WalletEffect.kept (effect : WalletEffect db db') : Kept db db' := by
  have frame := effect.frame
  have persists := frame.persists
  obtain ⟨l, core⟩ := frame.core
  have withdrawals : Table.Carries WithdrawalsService.terms db.wallet.withdrawals db'.wallet.withdrawals := by
    cases effect with
    | unchanged same =>
      rw [same]
      exact .refl _ _
    | changed done =>
      obtain ⟨t, l, rfl, wrote, -⟩ := done.result
      refine Table.Carries.of_wrote wrote fun old found => ?_
      rw [done.found] at found
      cases found
      exact done.moves.terms
    | requested fits done =>
      obtain ⟨t, l, assetId, asset, rfl, wrote, -⟩ := done.result
      exact Table.Carries.of_wrote wrote fun old found => absurd (Table.get?_lt found) (lt_irrefl _)
    | observed done =>
      obtain ⟨t, l, rfl, -⟩ := done.result
      exact .refl _ _
    | rejected found waiting same wrote =>
      subst same
      exact .refl _ _
  refine ⟨?_, persists, ?_, frame.networks, frame.assetNetworks, withdrawals⟩
  · rw [core]
  · rw [core]
    exact .refl _ _

theorem Platform.step_kept (integrity : s.Integrity) (action : Action) : Kept s.db (s.step config action).db := by
  cases action with
  | trading action =>
    have effect := tradingStep_effect integrity.settleable.ordered integrity.fits action
    obtain ⟨users, clientOrderIds⟩ := effect.kept
    exact ⟨users, (effect.advances integrity.settleable.ordered).persists, clientOrderIds, rfl, rfl, .refl _ _⟩
  | wallet action => exact (Platform.walletStep_effect integrity action).kept

theorem Platform.Reached.kept (reached : Platform.Reached config s) (actions : List Action) :
    Kept s.db (actions.foldl (Platform.step config) s).db := by
  induction actions generalizing s with
  | nil => exact .refl _
  | cons action rest ih => exact (Platform.step_kept reached.integrity action).trans (ih (reached.tail action))

end Kept

section Orders

theorem OrderRiskValidator.checkCap_error {c : Core} {cap : Option ℚ} {value : ℚ} {message : String} {e : Fault}
    (failed : (checkCap cap value message).run c = .error e) : DbFault.toDb? e = none := by
  cases cap with
  | none => cases failed
  | some limit =>
    rw [checkCap, run_throwIf_error] at failed
    rw [← failed.2]
    rfl

namespace Rounded.OrderRiskValidator

open VerdictVaut.OrderRiskValidator (Input riskLimit held checkCap checkCap_ok run_checkCap checkCap_error)

variable {c c' : Core} {input : Input} {market : Market}

structure Admits (c : Core) (market : Market) (input : Input) : Prop where
  -- the order keeps within every configured cap, by the figures that the validator computes
  quantity : ∀ cap, (riskLimit c input.userId).bind RiskLimit.maxOrderQuantity = some cap → input.quantity ≤ cap
  notional : ∀ cap, (riskLimit c input.userId).bind RiskLimit.maxOrderNotional = some cap →
    Decimal.times input.quantity input.price ≤ cap
  position : input.side = .buy → ∀ cap, (riskLimit c input.userId).bind RiskLimit.maxPositionSize = some cap →
    Decimal.plus (held c input) input.quantity ≤ cap
  exposure : input.side = .buy → ∀ cap, market.maxExposure = some cap →
    Decimal.plus (restingExposure c.exchange.orders input.marketId input.outcomeId)
      (Decimal.times input.quantity input.price) ≤ cap

theorem run_checkMarketExposure (found : c.exchange.markets.get? input.marketId = some market) :
    (checkMarketExposure input).run c = .ok ((), c) ↔ (input.side = .buy → ∀ cap, market.maxExposure = some cap →
      Decimal.plus (restingExposure c.exchange.orders input.marketId input.outcomeId)
        (Decimal.times input.quantity input.price) ≤ cap) := by
  unfold checkMarketExposure
  rw [run_ite]
  split
  next sell => simp [sell]
  next buy =>
    rw [not_not] at buy
    rw [run_bind_of_ok (run_getOrThrow_ok.mpr ⟨found, rfl⟩), run_bind_of_ok (run_read _ _), run_checkCap]
    simp only [buy, true_implies]

theorem run_validate (found : c.exchange.markets.get? input.marketId = some market) :
    (validate input).run c = .ok ((), c) ↔ Admits c market input := by
  have unchanged : ∀ {cap : Option ℚ} {value : ℚ} {message : String} (u : Unit) (c' : Core),
      (checkCap cap value message).run c = .ok (u, c') → c' = c := fun _ _ done => checkCap_ok done
  unfold validate
  rw [run_bind_of_ok (run_read _ _), run_bind_check unchanged, run_bind_check unchanged, run_bind_of_ok run_find?,
    run_bind_check unchanged, run_checkCap, run_checkCap, run_checkCap, run_checkMarketExposure found]
  constructor
  · rintro ⟨quantity, notional, position, exposure⟩
    refine ⟨quantity, notional, fun buy => ?_, exposure⟩
    rw [if_pos buy] at position
    exact position
  · intro admits
    refine ⟨admits.quantity, admits.notional, ?_, admits.exposure⟩
    split
    next buy => exact admits.position buy
    next => simp

theorem validate_ends (found : c.exchange.markets.get? input.marketId = some market) :
    (∀ u c', (validate input).run c = .ok (u, c') → c' = c) ∧
      ∀ e, (validate input).run c = .error e → DbFault.toDb? e = none := by
  -- the validator changes nothing, and throws nothing that could be taken for a unique violation
  have exposure : (∀ u c', (checkMarketExposure input).run c = .ok (u, c') → c' = c) ∧
      ∀ e, (checkMarketExposure input).run c = .error e → DbFault.toDb? e = none := by
    unfold checkMarketExposure
    rw [run_ite]
    split
    next =>
      refine ⟨fun u c' done => ?_, fun e failed => ?_⟩
      · cases done
        rfl
      · cases failed
    next =>
      rw [run_bind_of_ok (run_getOrThrow_ok.mpr ⟨found, rfl⟩), run_bind_of_ok (run_read _ _)]
      exact ⟨fun _ _ done => checkCap_ok done, fun _ failed => checkCap_error failed⟩
  unfold validate
  rw [run_bind_of_ok (run_read _ _)]
  constructor
  · intro u c' done
    obtain ⟨_, _, quantity, done₁⟩ := run_bind_ok.mp done
    obtain rfl := checkCap_ok quantity
    obtain ⟨_, _, notional, done₂⟩ := run_bind_ok.mp done₁
    obtain rfl := checkCap_ok notional
    rw [run_bind_of_ok run_find?] at done₂
    obtain ⟨_, _, position, done₃⟩ := run_bind_ok.mp done₂
    obtain rfl := checkCap_ok position
    exact exposure.1 u c' done₃
  · intro e failed
    rcases run_bind_error.mp failed with refused | ⟨_, _, quantity, failed₁⟩
    · exact checkCap_error refused
    obtain rfl := checkCap_ok quantity
    rcases run_bind_error.mp failed₁ with refused | ⟨_, _, notional, failed₂⟩
    · exact checkCap_error refused
    obtain rfl := checkCap_ok notional
    rw [run_bind_of_ok run_find?] at failed₂
    rcases run_bind_error.mp failed₂ with refused | ⟨_, _, position, failed₃⟩
    · exact checkCap_error refused
    obtain rfl := checkCap_ok position
    exact exposure.2 e failed₃

end Rounded.OrderRiskValidator

namespace OrdersService

variable {c c' c'' : Core} {now : Time} {userId : Nat} {dto : CreateOrderDto} {placement : Placement} {market : Market}

theorem run_checkMarketOpen : (checkMarketOpen now market).run c = .ok ((), c) ↔ market.isExecutable now = true := by
  simp [checkMarketOpen, Market.isExecutable]

theorem checkMarketOpen_error {e : Fault} (failed : (checkMarketOpen now market).run c = .error e) :
    DbFault.toDb? e = none := by
  simp only [checkMarketOpen, run_bind_error, run_throwIf_error] at failed
  rcases failed with ⟨-, rfl⟩ | ⟨_, _, -, -, rfl⟩ <;> rfl

theorem insert_replayed {o sequence : Nat} {row : Order} (found : c.exchange.orders.get? o = some row)
    (mine : row.userId = placement.userId) (key : row.clientOrderId = placement.clientOrderId)
    (unused : ∀ order ∈ c.exchange.orders.rows, order.sequence ≠ sequence)
    (valid : RowSpec.check (orderRow placement sequence) = true) :
    c.exchange.orders.insert (orderRow placement sequence) = .error (.uniqueViolation ["userId", "clientOrderId"]) := by
  refine Table.insert_taken valid (Table.get?_mem found) ?_ ?_
  · simp [RowSpec.clash, orderRow, mine, key, uniqueOn]
  · intro other member target hit
    simp only [RowSpec.clash, Option.or_eq_some_iff, uniqueOn_eq_some] at hit
    rcases hit with ⟨-, rfl⟩ | ⟨-, same, -⟩
    · rfl
    · exact absurd same.symm (unused other member)

/-- Once its order is there, the funding transaction returns it exactly when it would admit the order a second
time. -/
theorem create_replayed {o sequence : Nat} {row : Order} (found : c.exchange.orders.get? o = some row)
    (marketFound : c.exchange.markets.get? placement.marketId = some market)
    (mine : row.userId = placement.userId) (key : row.clientOrderId = placement.clientOrderId)
    (fits : placement.matchesRow row) (unused : ∀ order ∈ c.exchange.orders.rows, order.sequence ≠ sequence)
    (valid : RowSpec.check (orderRow placement sequence) = true)
    (kept : (Rounded.write placement.quantity : Tx Core Fault ℚ).run c = .ok (placement.quantity, c)) :
    ((∃ c', (Rounded.OrdersService.create zeroFeeCalculator now placement sequence).run c = .ok (o, c')) →
        market.isExecutable now = true ∧ Rounded.OrderRiskValidator.Admits c market placement.riskInput) ∧
      (market.isExecutable now = true ∧ Rounded.OrderRiskValidator.Admits c market placement.riskInput →
        (Rounded.OrdersService.create zeroFeeCalculator now placement sequence).run c = .ok (o, c)) := by
  have looked : (getOrThrow Core.marketsField placement.marketId : Tx Core Fault Market).run c = .ok (market, c) :=
    run_getOrThrow_ok.mpr ⟨marketFound, rfl⟩
  obtain ⟨validated, refusal⟩ := @Rounded.OrderRiskValidator.validate_ends c placement.riskInput market marketFound
  constructor
  · rintro ⟨c', done⟩
    simp only [Rounded.OrdersService.create, run_bind_ok] at done
    obtain ⟨⟨i, existed⟩, _, created, -⟩ := done
    have passed : (checkMarketOpen now market).run c = .ok ((), c) ∧
        (Rounded.OrderRiskValidator.validate placement.riskInput).run c = .ok ((), c) := by
      rcases run_createIdempotent_ok created with ⟨-, body⟩ | ⟨-, -, e, target, failed, reported, -⟩
      · rw [run_bind_of_ok looked] at body
        obtain ⟨_, c₁, opened, body₁⟩ := run_bind_ok.mp body
        obtain ⟨rfl, -⟩ := checkMarketOpen_ok opened
        obtain ⟨_, c₂, checked, -⟩ := run_bind_ok.mp body₁
        obtain rfl := validated _ _ checked
        exact ⟨opened, checked⟩
      · rw [run_bind_of_ok looked] at failed
        rcases run_bind_error.mp failed with refused | ⟨_, c₁, opened, failed₁⟩
        · rw [checkMarketOpen_error refused] at reported
          cases reported
        obtain ⟨rfl, -⟩ := checkMarketOpen_ok opened
        rcases run_bind_error.mp failed₁ with refused | ⟨_, c₂, checked, -⟩
        · rw [refusal _ refused] at reported
          cases reported
        obtain rfl := validated _ _ checked
        exact ⟨opened, checked⟩
    exact ⟨run_checkMarketOpen.mp passed.1, (Rounded.OrderRiskValidator.run_validate marketFound).mp passed.2⟩
  · rintro ⟨executable, admits⟩
    have opened := @run_checkMarketOpen c now market |>.mpr executable
    have checked := (Rounded.OrderRiskValidator.run_validate marketFound).mpr admits
    have taken := insert_replayed found mine key unused valid
    have located : c.exchange.orders.find? (fun order => decide (order.userId = placement.userId) &&
        decide (order.clientOrderId = placement.clientOrderId)) = some (o, row) := by
      refine Table.find?_of_unique found (by simp [mine, key]) fun a b first second => ?_
      simp only [Bool.and_eq_true, decide_eq_true_eq] at first second
      simp [RowSpec.clash, uniqueOn, first, second]
    unfold Rounded.OrdersService.create
    refine run_bind_ok.mpr ⟨(o, true), c, run_createIdempotent_of_existing
      (run_bind_error.mpr (.inr ⟨market, c, looked, run_bind_error.mpr (.inr ⟨(), c, opened,
        run_bind_error.mpr (.inr ⟨(), c, checked, run_bind_error.mpr (.inr ⟨_, c, kept,
          run_create_error.mpr ⟨_, taken, rfl⟩⟩)⟩)⟩)⟩)) (by simp)
      (run_bind_ok.mpr ⟨(o, row), c, run_findOrThrow_ok.mpr ⟨located, rfl⟩, rfl⟩), ?_⟩
    simp only [if_true, run_bind_ok, run_getOrThrow_ok, run_throwIf_ok, run_pure]
    exact ⟨row, c, ⟨found, rfl⟩, (), c, ⟨not_not.mpr fits, rfl⟩, rfl⟩

theorem checkTrader_again {u : Unit} (done : (checkTrader userId).run c = .ok (u, c'))
    (users : c''.users = c.users) : c' = c ∧ (checkTrader userId).run c'' = .ok ((), c'') := by
  simp only [checkTrader, run_bind_ok, run_read, run_orThrow_ok, run_throwIf_ok, Except.ok.injEq, Prod.mk.injEq] at done ⊢
  obtain ⟨_, _, ⟨rfl, rfl⟩, user, _, ⟨found, rfl⟩, active, rfl⟩ := done
  exact ⟨rfl, _, _, ⟨rfl, rfl⟩, user, _, ⟨by rw [users]; exact found, rfl⟩, active, rfl⟩

theorem checkAmounts_again {price : ℚ} (done : (checkAmounts dto).run c = .ok (price, c')) (c'' : Core) :
    (checkAmounts dto).run c'' = .ok (price, c'') ∧ 0 < dto.quantity ∧ 0 < price ∧ price < 1 := by
  simp only [checkAmounts, run_bind_ok, run_orThrow_ok, run_throwIf_ok, run_pure, Except.ok.injEq,
    Prod.mk.injEq] at done ⊢
  obtain ⟨_, _, ⟨positive, rfl⟩, _, _, ⟨scale, rfl⟩, _, _, ⟨priced, rfl⟩, _, _, ⟨between, rfl⟩, _, _, ⟨scale', rfl⟩,
    rfl, rfl⟩ := done
  have bounds := not_or.mp between
  exact ⟨⟨(), _, ⟨positive, rfl⟩, (), _, ⟨scale, rfl⟩, _, _, ⟨priced, rfl⟩, (), _, ⟨between, rfl⟩, (), _, ⟨scale', rfl⟩,
    rfl, rfl⟩, not_le.mp positive, not_le.mp bounds.1, not_le.mp bounds.2⟩

theorem fundingSymbol_again {side : OrderSide} {symbol : Option String}
    (done : (fundingSymbol side).run c = .ok (symbol, c')) (assets : c''.ledger.assets = c.ledger.assets) :
    (fundingSymbol side).run c'' = .ok (symbol, c'') := by
  cases side with
  | sell =>
    cases done
    rfl
  | buy =>
    simp only [fundingSymbol, Core.settlementAsset, run_bind_ok, run_findOrThrow_ok, run_pure, Except.ok.injEq,
      Prod.mk.injEq] at done ⊢
    obtain ⟨found, _, ⟨named, rfl⟩, rfl, rfl⟩ := done
    exact ⟨found, c'', ⟨by change c''.ledger.assets.find? _ = _; rw [assets]; exact named, rfl⟩, rfl, rfl⟩

theorem run_checkListing {marketId outcomeId : Nat} (found : c.exchange.markets.get? marketId = some market)
    (listed : outcomeId ∈ outcomesOf c.exchange.outcomes marketId) :
    (checkListing now marketId outcomeId).run c = .ok ((), c) ↔ market.isExecutable now = true := by
  obtain ⟨⟨i, outcome⟩, member, same⟩ := List.mem_map.mp listed
  obtain ⟨place, ofMarket⟩ := Table.mem_findMany.mp member
  obtain rfl : i = outcomeId := same
  have unchanged : ∀ (u : Unit) (c' : Core), (checkMarketOpen now market).run c = .ok (u, c') → c' = c :=
    fun _ _ done => (checkMarketOpen_ok done).1
  unfold checkListing
  rw [run_bind_of_ok (run_read _ _), found, run_bind_of_ok (run_orThrow_ok.mpr ⟨rfl, rfl⟩), run_bind_check unchanged,
    run_bind_of_ok (run_read _ _), run_checkMarketOpen, run_throwIf_ok]
  simp [place, of_decide_eq_true ofMarket]

theorem prepare_request {before : Time} {randomUUID : String}
    (done : (prepare before userId dto randomUUID).run c = .ok (placement, c')) :
    dto.price = some placement.price ∧ placement.marketId = dto.marketId ∧
      placement.riskInput =
        { userId := userId, marketId := dto.marketId, outcomeId := dto.outcomeId, side := dto.side,
          price := placement.price, quantity := dto.quantity } := by
  simp only [prepare, checkAmounts, run_bind_ok, run_orThrow_ok, run_throwIf_ok, run_pure, Except.ok.injEq,
    Prod.mk.injEq] at done
  obtain ⟨_, _, -, _, _, -, _, _, -, price, _, ⟨_, _, -, _, _, -, _, _, ⟨priced, -⟩, _, _, -, _, _, -, rfl, -⟩, _, _, -, rfl,
    -⟩ := done
  exact ⟨priced, rfl, rfl⟩

theorem prepare_again {db db'' : Db} {before : Time} {randomUUID : String} {c' : Core}
    (done : (prepare before userId dto randomUUID).run db.core = .ok (placement, c')) (kept : Kept db db'')
    (supplied : dto.clientOrderId ≠ none) (found : db''.core.exchange.markets.get? dto.marketId = some market)
    (now : Time) (randomUUID' : String) :
    ((∃ result, (prepare now userId dto randomUUID').run db''.core = .ok result) ↔ market.isExecutable now = true) ∧
      (market.isExecutable now = true →
        (prepare now userId dto randomUUID').run db''.core = .ok (placement, db''.core)) := by
  -- what the reads of a placement have found, they find again while the market is open
  obtain ⟨key, given⟩ := Option.ne_none_iff_exists'.mp supplied
  obtain ⟨-, inMarket⟩ := prepare_fits done
  simp only [prepare, run_bind_ok, run_throwIf_ok, run_pure] at done
  obtain ⟨_, _, trader, _, _, ⟨limit, rfl⟩, _, _, listing, price, _, amounts, symbol, _, funding, same⟩ := done
  cases same
  obtain ⟨rfl, trader'⟩ := checkTrader_again trader kept.users
  obtain ⟨rfl, -⟩ := checkListing_ok listing
  obtain ⟨amounts', -⟩ := checkAmounts_again amounts db''.core
  obtain rfl := checkAmounts_ok amounts
  have funding' := fundingSymbol_again funding kept.persists.assets
  have listed : dto.outcomeId ∈ outcomesOf db''.core.exchange.outcomes dto.marketId := by
    rw [kept.persists.outcomes _ _ inMarket]
    exact inMarket
  have listing' := @run_checkListing db''.core now market dto.marketId dto.outcomeId found listed
  have unchanged : ∀ (u : Unit) (c' : Core), (checkListing now dto.marketId dto.outcomeId).run db''.core = .ok (u, c') →
      c' = db''.core := fun _ _ done => (checkListing_ok done).1
  unfold prepare
  rw [run_bind_of_ok trader', run_bind_of_ok (run_throwIf_ok (u := ()) |>.mpr ⟨limit, rfl⟩)]
  simp only [run_bind_check unchanged, listing', run_bind_of_ok amounts', run_bind_of_ok funding', run_pure]
  refine ⟨⟨?_, ?_⟩, ?_⟩
  · rintro ⟨_, executable, -⟩
    exact executable
  · exact fun executable => ⟨_, executable, rfl⟩
  · intro executable
    refine ⟨executable, ?_⟩
    simp only [given, Option.getD_some]

end OrdersService

/-- A call of `create` by this user with these fields has just created the order. -/
inductive OrderCreated (config : WalletConfig) (userId : Nat) (dto : OrdersService.CreateOrderDto) (o : Nat) : Platform → Prop
  | intro {s : Platform} {before now : Time} {randomUUID : String} {placement : OrdersService.Placement}
      {k sequence : Nat} {c : Core} (reached : Rounded.Reached config s)
      (looked : observe (OrdersService.prepare before userId dto randomUUID) s.db.core = some placement)
      (between : List Action) (allowed : Allowed Rounded.Few (Rounded.perform config) s between)
      (listed : (between.foldl (Rounded.perform config) s).desk.placements[k]? = some placement)
      (few : Rounded.Few (between.foldl (Rounded.perform config) s) (.trading (.createOrder k now sequence)))
      (committed : (runTransaction Core.ledgerField
        (Rounded.OrdersService.create zeroFeeCalculator now placement sequence)).run
          (between.foldl (Rounded.perform config) s).db.core = .ok (o, c))
      (new : (between.foldl (Rounded.perform config) s).db.core.exchange.orders.get? o = none) :
      OrderCreated config userId dto o (Rounded.perform config (between.foldl (Rounded.perform config) s) (.trading (.createOrder k now sequence)))

/-- The call returns the order, without a further order or reservation and with nothing more reserved. -/
def ReturnsOrder (c : Core) (clock : Nat → Time) (userId : Nat) (dto : OrdersService.CreateOrderDto)
    (randomUUID : String) (sequence o : Nat) : Prop :=
  ∃ c', (Rounded.OrdersService.place clock userId dto randomUUID sequence).run c = .ok (o, c') ∧ AddsNothing c c'

def OrdersService.CreateOrderDto.riskInput (dto : OrdersService.CreateOrderDto) (userId : Nat) (price : ℚ) :
    OrderRiskValidator.Input where
  userId := userId
  marketId := dto.marketId
  outcomeId := dto.outcomeId
  side := dto.side
  price := price
  quantity := dto.quantity

def TakesAgain (c : Core) (clock : Nat → Time) (userId : Nat) (dto : OrdersService.CreateOrderDto) : Prop :=
  -- the market would take the order at both checks, and every cap would admit it a second time
  ∃ market price, c.exchange.markets.get? dto.marketId = some market ∧ dto.price = some price ∧
    market.isExecutable (clock 0) = true ∧ market.isExecutable (clock 1) = true ∧
    Rounded.OrderRiskValidator.Admits c market (dto.riskInput userId price)

def PassFits (c : Core) (o : Nat) : Prop :=
  -- while the order rests, what the matching pass reads is small
  ∀ order, c.exchange.orders.get? o = some order → order.isExecutable = true →
    ∃ places digits most, Rounded.Scale places digits most ∧ c.Few places digits most

theorem matchAndExecute_replayed {c : Core} (ordered : Ordered c) {clock : Nat → Time} {o : Nat} {order : Order}
    (found : c.exchange.orders.get? o = some order) (fits : PassFits c o) :
    (Rounded.ExecutionCoordinator.matchAndExecute zeroFeeCalculator clock o).run c =
      (matchAndExecute zeroFeeCalculator clock o).run c := by
  -- the pass that a replay makes: with rounding it does what it does without, or there is nothing for it to do
  by_cases rests : order.isExecutable = true
  next =>
    obtain ⟨places, digits, most, scale, few⟩ := fits order found rests
    have nonneg := scale.nonneg
    exact ((ordered.ready few).matchAndExecute_agree nonneg (scale.times (by linarith)) scale.prices o).same
  next =>
    have idle : (readIncoming (clock 0) o).run c = .ok (none, c) := by
      unfold readIncoming
      rw [run_bind_of_ok (run_getOrThrow_ok.mpr ⟨found, rfl⟩), if_pos (by simpa using rests)]
      rfl
    unfold Rounded.ExecutionCoordinator.matchAndExecute matchAndExecute
    rw [run_bind_of_ok idle, run_bind_of_ok idle]

theorem Rounded.Reached.kept (reached : Rounded.Reached config s) {actions : List VerdictVaut.Action}
    (allowed : Allowed Rounded.Few (Rounded.perform config) s actions) :
    VerdictVaut.Kept s.db (actions.foldl (Rounded.perform config) s).db := by
  rw [reached.foldl_eq allowed]
  exact reached.exact.kept _

/-- Where the step rounds nothing, the funding transaction is the one in exact arithmetic, and the column takes the
quantity as it is. -/
theorem create_committed (reached : Rounded.Reached config s) {k sequence o : Nat} {now : Time}
    {placement : OrdersService.Placement} {c : Core} (listed : s.desk.placements[k]? = some placement)
    (few : Rounded.Few s (.trading (.createOrder k now sequence)))
    (committed : (runTransaction Core.ledgerField (Rounded.OrdersService.create zeroFeeCalculator now placement sequence)).run
      s.db.core = .ok (o, c)) :
    (OrdersService.create zeroFeeCalculator now placement sequence).run s.db.core = .ok (o, c) ∧
      ∀ c' : Core, (Rounded.write placement.quantity : Tx Core Fault ℚ).run c' = .ok (placement.quantity, c') := by
  obtain ⟨places, digits, most, scale, small, placeable⟩ := few
  have integrity := reached.exact.integrity
  have nonneg := scale.nonneg
  have room : Room (places + digits) (most + most) := scale.times (by linarith)
  have sized := placeable placement listed
  have funded := (integrity.fits.placements placement (List.mem_of_getElem? listed)).1
  have agree := Core.Ready.create_agree (integrity.settleable.ordered.ready small) sized room funded now sequence
  constructor
  next =>
    rw [(runTransaction_agree agree).same] at committed
    exact runTransaction_ok committed
  next => exact fun c' => scale.tight.run_write sized.quantity

def replayedOrder : OrdersService.CreateOrderDto := ⟨0, 0, .buy, .limit, some (3 / 5), 10, some "k"⟩

def openedMarket : List Action :=
  [.deposit 1 "0x1" 100, .trading (.createMarket ⟨"final", "sports", none, ["YES", "NO"]⟩), .trading (.openMarket 0)]

def orderedMarket : List Action :=
  openedMarket ++ [.trading (.prepareOrder 0 1 replayedOrder "u"), .trading (.createOrder 0 0 0)]

theorem orderedMarket_created : OrderCreated .sample 1 replayedOrder 0 (Rounded.performed orderedMarket) := by
  have committed : observe (runTransaction Core.ledgerField (Rounded.OrdersService.create zeroFeeCalculator 0
      ⟨1, 0, 0, .buy, 3 / 5, 10, "k", some "USDC"⟩ 0)) (Rounded.performed (openedMarket ++
        [.trading (.prepareOrder 0 1 replayedOrder "u")])).db.core = some 0 := by decide +kernel
  obtain ⟨c, done⟩ := observe_some committed
  have small : Rounded.Small 0 1 1000 (Rounded.performed (openedMarket ++
    [.trading (.prepareOrder 0 1 replayedOrder "u")])) (.trading (.createOrder 0 0 0)) := by decide +kernel
  exact @OrderCreated.intro _ _ _ _ _ 0 0 "u" _ 0 0 _ (Rounded.reached_performed (by decide +kernel : Allowed
    (Rounded.Small 0 1 1000) (Rounded.perform .sample) (Platform.initial .sample) openedMarket)) (by decide +kernel)
    [.trading (.prepareOrder 0 1 replayedOrder "u")]
    ⟨⟨0, 1, 1000, Rounded.scale_sample, trivial⟩, trivial⟩ (by decide +kernel) ⟨_, _, _, Rounded.scale_sample, small⟩ done
    (Option.isNone_iff_eq_none.mp (by decide +kernel))

end Orders

end VerdictVaut

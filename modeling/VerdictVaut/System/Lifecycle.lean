import VerdictVaut.System.Steps

set_option autoImplicit false

namespace VerdictVaut

open Relational VerdictVaut.Core ExecutionCoordinator ResolutionService

structure Lifecycle (c : Core) : Prop where
  -- which orders a market may have, by its status
  running : ∀ o order, c.exchange.orders.get? o = some order → order.isExecutable = true → ∃ market,
    c.exchange.markets.get? order.marketId = some market ∧ market.status ∈ [MarketStatus.opened, .paused]
  traded : ∀ o order market, c.exchange.orders.get? o = some order →
    c.exchange.markets.get? order.marketId = some market → market.status ∉ [MarketStatus.draft, .cancelled]
  finished : ∀ m market, c.exchange.markets.get? m = some market → market.status = .resolved → Finished c m

def Market.isOver (market : Market) : Prop :=
  -- the statuses in which a market takes no order and makes no trade
  market.status ∈ [MarketStatus.closed, .resolving, .resolved, .cancelled]

variable {c c' : Core}

section Steps

theorem Decided.of_resolved {m : Nat} {market : Market} (found : c.exchange.markets.get? m = some market)
    (resolved : market.status = .resolved) : Decided c m :=
  ⟨market, found, by simp [Market.isDecided, resolved]⟩

theorem isExecutable_opened {now : Time} {market : Market} (executable : market.isExecutable now = true) :
    market.status = .opened := by
  simp only [Market.isExecutable, Bool.and_eq_true, decide_eq_true_eq] at executable
  exact executable.1

theorem Lifecycle.orders (lifecycle : Lifecycle c) (persists : Persists c c')
    (markets : c'.exchange.markets = c.exchange.markets)
    (origin : ∀ o order', c'.exchange.orders.get? o = some order' →
      (∃ order, c.exchange.orders.get? o = some order ∧ order'.marketId = order.marketId ∧
        (order'.isExecutable = true → order.isExecutable = true)) ∨
      ∃ market, c.exchange.markets.get? order'.marketId = some market ∧ market.status = .opened) : Lifecycle c' := by
  -- steps that leave the markets alone: an order that rests was resting, or is new in an open market
  constructor
  · intro o order' found resting
    rw [markets]
    rcases origin o order' found with ⟨order, earlier, same, active⟩ | ⟨market, listed, opened⟩
    · rw [same]
      exact lifecycle.running o order earlier (active resting)
    · exact ⟨market, listed, by simp [opened]⟩
  · intro o order' market found listed
    rw [markets] at listed
    rcases origin o order' found with ⟨order, earlier, same, -⟩ | ⟨market', listed', opened⟩
    · rw [same] at listed
      exact lifecycle.traded o order market earlier listed
    · rw [listed] at listed'
      cases listed'
      simp [opened]
  · intro m market listed resolved
    rw [markets] at listed
    exact persists.finished m (.of_resolved listed resolved) (lifecycle.finished m market listed resolved)

theorem Lifecycle.restated (lifecycle : Lifecycle c) (persists : Persists c c') {marketId : Nat} {old new : Market}
    (found : c.exchange.markets.get? marketId = some old)
    (rows : c'.exchange.markets.rows = c.exchange.markets.rows.set marketId new)
    (origin : ∀ o order', c'.exchange.orders.get? o = some order' →
      ∃ order, c.exchange.orders.get? o = some order ∧ order'.marketId = order.marketId ∧
        (order'.isExecutable = true → order.isExecutable = true))
    (running : old.status ∈ [MarketStatus.opened, .paused] → (∃ o order', c'.exchange.orders.get? o = some order' ∧
      order'.marketId = marketId ∧ order'.isExecutable = true) → new.status ∈ [MarketStatus.opened, .paused])
    (traded : old.status ∉ [MarketStatus.draft, .cancelled] → new.status ∉ [MarketStatus.draft, .cancelled])
    (finished : new.status = .resolved → Decided c marketId ∧ Finished c marketId) : Lifecycle c' := by
  have at_ := Table.get?_of_set rows (Table.get?_lt found)
  constructor
  · intro o order' present resting
    obtain ⟨order, earlier, same, active⟩ := origin o order' present
    obtain ⟨market, listed, open_⟩ := lifecycle.running o order earlier (active resting)
    rw [← same] at listed
    rw [at_]
    by_cases mine : order'.marketId = marketId
    · rw [mine, found] at listed
      cases listed
      exact ⟨new, if_pos mine, running open_ ⟨o, order', present, mine, resting⟩⟩
    · exact ⟨market, (if_neg mine).trans listed, open_⟩
  · intro o order' market present listed
    obtain ⟨order, earlier, same, -⟩ := origin o order' present
    rw [at_] at listed
    by_cases mine : order'.marketId = marketId
    · rw [if_pos mine] at listed
      cases listed
      refine traded (lifecycle.traded o order old earlier ?_)
      rw [← same, mine]
      exact found
    · rw [if_neg mine, same] at listed
      exact lifecycle.traded o order market earlier listed
  · intro m market listed resolved
    rw [at_] at listed
    by_cases mine : m = marketId
    · rw [if_pos mine] at listed
      cases listed
      subst mine
      exact persists.finished m (finished resolved).1 (finished resolved).2
    · rw [if_neg mine] at listed
      exact persists.finished m (.of_resolved listed resolved) (lifecycle.finished m market listed resolved)

theorem Lifecycle.created (lifecycle : Lifecycle c) (ordered : Ordered c) (persists : Persists c c')
    (done : MarketsService.Created c c') : Lifecycle c' := by
  obtain ⟨markets, outcomes, market, new, rfl, added, draft, rows, mine⟩ := done.result
  have at_ : ∀ m, markets.get? m = if m = c.exchange.markets.size then some market else c.exchange.markets.get? m :=
    Table.get?_of_append added
  -- an order's market was listed before the order was placed
  have inside : ∀ o order, c.exchange.orders.get? o = some order → order.marketId ≠ c.exchange.markets.size := by
    intro o order found
    obtain ⟨⟨i, outcome⟩, member, -⟩ := List.mem_map.mp (ordered.listed order (Table.get?_mem found))
    obtain ⟨place, ofMarket⟩ := Table.mem_findMany.mp member
    rw [← of_decide_eq_true ofMarket]
    exact (ordered.solvent.outcomesIn outcome (Table.get?_mem place)).ne
  constructor
  · intro o order found resting
    obtain ⟨market', listed, open_⟩ := lifecycle.running o order found resting
    exact ⟨market', ((at_ _).trans (if_neg (inside o order found))).trans listed, open_⟩
  · intro o order market' found listed
    exact lifecycle.traded o order market' found (((at_ _).trans (if_neg (inside o order found))).symm.trans listed)
  · intro m market' listed resolved
    by_cases last : m = c.exchange.markets.size
    · have same := (((at_ m).trans (if_pos last)).symm.trans listed)
      cases same
      rw [draft] at resolved
      cases resolved
    · have listed' := ((at_ m).trans (if_neg last)).symm.trans listed
      exact persists.finished m (.of_resolved listed' resolved) (lifecycle.finished m market' listed' resolved)

theorem origin_of_two_sets {t t' : Table Order} {i j : Nat} {a b a' b' : Order} (first : t.get? i = some a)
    (second : t.get? j = some b) (rows : t'.rows = (t.rows.set i a').set j b') (sameA : a'.marketId = a.marketId)
    (sameB : b'.marketId = b.marketId) (restingA : a.isExecutable = true) (restingB : b.isExecutable = true) (o : Nat)
    (order' : Order) (found : t'.get? o = some order') :
    ∃ order, t.get? o = some order ∧ order'.marketId = order.marketId ∧
      (order'.isExecutable = true → order.isExecutable = true) := by
  rw [get?_of_two_sets first second rows] at found
  by_cases atJ : o = j
  · subst atJ
    rw [if_pos rfl] at found
    cases found
    exact ⟨b, second, sameB, fun _ => restingB⟩
  · by_cases atI : o = i
    · subst atI
      rw [if_neg atJ, if_pos rfl] at found
      cases found
      exact ⟨a, first, sameA, fun _ => restingA⟩
    · rw [if_neg atJ, if_neg atI] at found
      exact ⟨order', found, rfl, id⟩

theorem marketId_of_terms {a b : Order} (same : terms a = terms b) : a.marketId = b.marketId := by
  simp only [terms, Prod.mk.injEq] at same
  exact same.2.1

theorem TradingEffect.origin (effect : TradingEffect c c') (o : Nat) (order' : Order)
    (found : c'.exchange.orders.get? o = some order') :
    (∃ order, c.exchange.orders.get? o = some order ∧ order'.marketId = order.marketId ∧
        (order'.isExecutable = true → order.isExecutable = true)) ∨
      ∃ market, c.exchange.markets.get? order'.marketId = some market ∧ market.status = .opened := by
  have same : c'.exchange.orders = c.exchange.orders →
      (∃ order, c.exchange.orders.get? o = some order ∧ order'.marketId = order.marketId ∧
        (order'.isExecutable = true → order.isExecutable = true)) ∨
      ∃ market, c.exchange.markets.get? order'.marketId = some market ∧ market.status = .opened := by
    intro same
    rw [same] at found
    exact .inl ⟨order', found, rfl, id⟩
  cases effect with
  | unchanged this => exact same (by rw [this])
  | filled marketFound buyFound sellFound fits fresh done =>
    exact .inl (origin_of_two_sets buyFound sellFound done.orders rfl rfl fresh.first fresh.second o order' found)
  | minted marketFound foundA foundB fits binary fresh done =>
    exact .inl (origin_of_two_sets foundA foundB done.orders rfl rfl fresh.first fresh.second o order' found)
  | placed fits listed done =>
    rw [Table.get?_of_append done.orders] at found
    split at found
    next =>
      cases found
      obtain ⟨market, open_, executable⟩ := done.market
      exact .inr ⟨market, open_, isExecutable_opened executable⟩
    next => exact .inl ⟨order', found, rfl, id⟩
  | ended done =>
    obtain ⟨before, earlier, terms, active⟩ := done.origin found
    exact .inl ⟨before, earlier, marketId_of_terms terms, active⟩
  | restated plain done =>
    obtain ⟨markets, rfl, -⟩ := done.result
    exact same rfl
  | closed open_ restated ended quiet =>
    obtain ⟨before, earlier, terms, active⟩ := ended.origin found
    obtain ⟨markets, rfl, -⟩ := restated.result
    exact .inl ⟨before, earlier, marketId_of_terms terms, active⟩
  | created done =>
    obtain ⟨markets, outcomes, market, new, rfl, -⟩ := done.result
    exact same rfl
  | resolved done =>
    obtain ⟨⟨market, -, -, markets, resolutions, settlements, rfl, -⟩, -⟩ := done
    exact same rfl
  | settled done =>
    obtain ⟨l, settlements, positions, transactionId, rfl, -⟩ := done.result
    exact same rfl
  | finalized finished marked this =>
    rcases marked with ⟨rfl, -⟩ | ⟨market, -, restated⟩
    · exact same (by rw [this]; rfl)
    · obtain ⟨markets, rfl, -⟩ := restated.result
      exact same (by rw [this]; rfl)

theorem Lifecycle.kept (lifecycle : Lifecycle c) (ordered : Ordered c) (effect : TradingEffect c c') : Lifecycle c' := by
  have persists := (effect.advances ordered).persists
  have origin := effect.origin
  have earlier : c'.exchange.orders = c.exchange.orders → ∀ o order', c'.exchange.orders.get? o = some order' →
      ∃ order, c.exchange.orders.get? o = some order ∧ order'.marketId = order.marketId ∧
        (order'.isExecutable = true → order.isExecutable = true) := by
    intro same o order' found
    rw [same] at found
    exact ⟨order', found, rfl, id⟩
  cases effect with
  | unchanged same =>
    rw [same]
    exact lifecycle
  | filled marketFound buyFound sellFound fits fresh done => exact lifecycle.orders persists done.static.markets origin
  | minted marketFound foundA foundB fits binary fresh done => exact lifecycle.orders persists done.static.markets origin
  | placed fits listed done => exact lifecycle.orders persists done.static.markets origin
  | ended done => exact lifecycle.orders persists done.static.markets origin
  | restated plain done =>
    obtain ⟨markets, rfl, rows⟩ := done.result
    simp only [List.mem_cons, Prod.mk.injEq, List.not_mem_nil, or_false] at plain
    refine lifecycle.restated persists done.found rows (earlier rfl) ?_ ?_ ?_ <;>
      rcases plain with ⟨was, rfl⟩ | ⟨was, rfl⟩ | ⟨was, rfl⟩ | ⟨was, rfl⟩ <;> simp [was]
  | closed open_ restated ended quiet =>
    have found := restated.found
    have static := ended.frame.1
    have endings := @OrdersService.EndedAll.origin _ _ ended
    obtain ⟨markets, rfl, rows⟩ := restated.result
    refine lifecycle.restated persists found (by rw [static.markets]; exact rows) ?_ ?_ (by simp) (by simp)
    · intro o order' present
      obtain ⟨before, earlier, terms, active⟩ := endings present
      exact ⟨before, earlier, marketId_of_terms terms, active⟩
    · rintro - ⟨o, order', present, mine, resting⟩
      rw [quiet o order' present mine] at resting
      cases resting
  | created done => exact lifecycle.created ordered persists done
  | resolved done =>
    obtain ⟨⟨market, closed, found, markets, resolutions, settlements, rfl, rows, -⟩, -⟩ := done
    refine lifecycle.restated persists found rows (earlier rfl) ?_ (by simp) (by simp)
    intro running
    simp [closed] at running
  | settled done =>
    obtain ⟨l, settlements, positions, transactionId, rfl, -⟩ := done.result
    exact lifecycle.orders persists rfl origin
  | finalized finished marked this =>
    rcases marked with ⟨rfl, -⟩ | ⟨market, resolving, restated⟩
    · subst this
      exact lifecycle.orders persists rfl origin
    · have found := restated.found
      obtain ⟨markets, rfl, rows⟩ := restated.result
      subst this
      refine lifecycle.restated persists found rows (earlier rfl) ?_ (by simp) fun _ => finished
      intro running
      simp [resolving] at running

end Steps

section Over

variable {m : Nat} {market : Market}

theorem isOver_not_opened (isOver : market.isOver) : market.status ≠ .opened := by
  rintro opened
  simp [Market.isOver, opened] at isOver

/-- The statuses that a market may go through in one step; it is resolved only once it is finished. -/
inductive MarketMove (c : Core) (m : Nat) : MarketStatus → MarketStatus → Prop
  | stays (status : MarketStatus) : MarketMove c m status status
  | plain {old new : MarketStatus} (allowed : (old, new) ∈ [(MarketStatus.draft, .opened), (.opened, .paused),
      (.paused, .opened), (.draft, .cancelled)]) : MarketMove c m old new
  | closes {old : MarketStatus} (running : old ∈ [MarketStatus.opened, .paused]) : MarketMove c m old .closed
  | decides : MarketMove c m .closed .resolving
  | resolves (finished : Finished c m) : MarketMove c m .resolving .resolved

theorem MarketMove.restated {t t' : Table Market} {marketId : Nat} {old new : Market} (found : t.get? marketId = some old)
    (rows : t'.rows = t.rows.set marketId new) (move : MarketMove c marketId old.status new.status)
    (listed : t.get? m = some market) :
    ∃ market', t'.get? m = some market' ∧ MarketMove c m market.status market'.status := by
  rw [Table.get?_of_set rows (Table.get?_lt found)]
  by_cases mine : m = marketId
  · subst mine
    rw [found] at listed
    cases listed
    exact ⟨new, if_pos rfl, move⟩
  · exact ⟨market, (if_neg mine).trans listed, .stays _⟩

theorem TradingEffect.marketMove (effect : TradingEffect c c') (listed : c.exchange.markets.get? m = some market) :
    ∃ market', c'.exchange.markets.get? m = some market' ∧ MarketMove c m market.status market'.status := by
  have same : c'.exchange.markets = c.exchange.markets →
      ∃ market', c'.exchange.markets.get? m = some market' ∧ MarketMove c m market.status market'.status := by
    intro same
    rw [same]
    exact ⟨market, listed, .stays _⟩
  cases effect with
  | unchanged this => exact same (by rw [this])
  | filled marketFound buyFound sellFound fits fresh done => exact same done.static.markets
  | minted marketFound foundA foundB fits binary fresh done => exact same done.static.markets
  | placed fits listed' done => exact same done.static.markets
  | ended done => exact same done.static.markets
  | restated plain done =>
    obtain ⟨markets, rfl, rows⟩ := done.result
    exact MarketMove.restated done.found rows (.plain plain) listed
  | closed running restated ended quiet =>
    rw [ended.frame.1.markets]
    have found := restated.found
    obtain ⟨markets, rfl, rows⟩ := restated.result
    exact MarketMove.restated found rows (.closes running) listed
  | created done =>
    obtain ⟨markets, outcomes, new, outcomes', rfl, added, -⟩ := done.result
    exact ⟨market, ((Table.get?_of_append added m).trans (if_neg (Table.get?_lt listed).ne)).trans listed, .stays _⟩
  | resolved done =>
    obtain ⟨⟨old, closed, found, markets, resolutions, settlements, rfl, rows, -⟩, -⟩ := done
    refine MarketMove.restated found rows ?_ listed
    rw [closed]
    exact .decides
  | settled done =>
    obtain ⟨l, settlements, positions, transactionId, rfl, -⟩ := done.result
    exact same rfl
  | finalized finished marked this =>
    rcases marked with ⟨rfl, -⟩ | ⟨old, resolving, restated⟩
    · exact same (by rw [this]; rfl)
    · have found := restated.found
      obtain ⟨markets, rfl, rows⟩ := restated.result
      subst this
      refine MarketMove.restated found rows ?_ listed
      rw [resolving]
      exact .resolves finished.2

theorem TradingEffect.stays_over (effect : TradingEffect c c') (listed : c.exchange.markets.get? m = some market)
    (isOver : market.isOver) : ∃ market', c'.exchange.markets.get? m = some market' ∧ market'.isOver := by
  obtain ⟨market', listed', move⟩ := effect.marketMove listed
  refine ⟨market', listed', ?_⟩
  unfold Market.isOver at isOver ⊢
  generalize market'.status = new at move
  generalize market.status = old at move isOver
  cases move with
  | stays => exact isOver
  | plain allowed =>
    simp only [List.mem_cons, Prod.mk.injEq, List.not_mem_nil, or_false] at allowed
    rcases allowed with ⟨rfl, -⟩ | ⟨rfl, -⟩ | ⟨rfl, -⟩ | ⟨rfl, -⟩ <;> simp at isOver
  | closes | decides | resolves => simp

/-- All trading rows of the market in `c'` were already there in `c`. -/
structure Traded (c c' : Core) (m : Nat) : Prop where
  orders : ∀ o order, c'.exchange.orders.get? o = some order → order.marketId = m → o < c.exchange.orders.size
  fills : ∀ f fill, c'.exchange.fills.get? f = some fill → fill.marketId = m → f < c.exchange.fills.size
  mints : ∀ k mint, c'.exchange.mints.get? k = some mint → mint.marketId = m → k < c.exchange.mints.size

theorem TradingEffect.trades (effect : TradingEffect c c') :
    (c'.exchange.fills = c.exchange.fills ∨ ∃ fill market, c'.exchange.fills.rows = c.exchange.fills.rows ++ [fill] ∧
      c.exchange.markets.get? fill.marketId = some market ∧ market.status = .opened) ∧
    (c'.exchange.mints = c.exchange.mints ∨ ∃ mint market, c'.exchange.mints.rows = c.exchange.mints.rows ++ [mint] ∧
      c.exchange.markets.get? mint.marketId = some market ∧ market.status = .opened) := by
  cases effect with
  | unchanged this =>
    rw [this]
    exact ⟨.inl rfl, .inl rfl⟩
  | filled marketFound buyFound sellFound fits fresh done =>
    obtain ⟨fee, fills⟩ := done.fills
    exact ⟨.inr ⟨_, _, fills, marketFound, isExecutable_opened fresh.market⟩, .inl done.mints⟩
  | minted marketFound foundA foundB fits binary fresh done =>
    exact ⟨.inl done.fills, .inr ⟨_, _, done.mints, marketFound, isExecutable_opened fresh.market⟩⟩
  | placed fits listed' done => exact ⟨.inl done.fills, .inl done.mints⟩
  | ended done => exact ⟨.inl done.fills, .inl done.mints⟩
  | restated plain done =>
    obtain ⟨markets, rfl, -⟩ := done.result
    exact ⟨.inl rfl, .inl rfl⟩
  | closed open_ restated ended quiet =>
    obtain ⟨-, fills, mints, -⟩ := ended.frame
    obtain ⟨markets, rfl, -⟩ := restated.result
    exact ⟨.inl fills, .inl mints⟩
  | created done =>
    obtain ⟨markets, outcomes, new, outcomes', rfl, -⟩ := done.result
    exact ⟨.inl rfl, .inl rfl⟩
  | resolved done =>
    obtain ⟨⟨old, -, found, markets, resolutions, settlements, rfl, -⟩, -⟩ := done
    exact ⟨.inl rfl, .inl rfl⟩
  | settled done =>
    obtain ⟨l, settlements, positions, transactionId, rfl, -⟩ := done.result
    exact ⟨.inl rfl, .inl rfl⟩
  | finalized finished marked this =>
    subst this
    rcases marked with ⟨rfl, -⟩ | ⟨old, -, restated⟩
    · exact ⟨.inl rfl, .inl rfl⟩
    · obtain ⟨markets, rfl, -⟩ := restated.result
      exact ⟨.inl rfl, .inl rfl⟩

theorem Traded.kept {c₀ : Core} (before : Traded c₀ c m) (effect : TradingEffect c c')
    (listed : c.exchange.markets.get? m = some market) (isOver : market.isOver) : Traded c₀ c' m := by
  have elsewhere : ∀ {m' : Nat} {market' : Market}, c.exchange.markets.get? m' = some market' →
      market'.status = .opened → m' ≠ m := by
    rintro m' market' found opened rfl
    rw [listed] at found
    cases found
    exact isOver_not_opened isOver opened
  obtain ⟨fills, mints⟩ := effect.trades
  constructor
  · intro o order found mine
    rcases effect.origin o order found with ⟨order', earlier, same, -⟩ | ⟨market', found', opened⟩
    · exact before.orders o order' earlier (same ▸ mine)
    · exact absurd mine (elsewhere found' opened)
  · intro f fill found mine
    rcases fills with same | ⟨new, market', rows, found', opened⟩
    · rw [same] at found
      exact before.fills f fill found mine
    · rw [Table.get?_of_append rows] at found
      split at found
      next =>
        cases found
        exact absurd mine (elsewhere found' opened)
      next => exact before.fills f fill found mine
  · intro k mint found mine
    rcases mints with same | ⟨new, market', rows, found', opened⟩
    · rw [same] at found
      exact before.mints k mint found mine
    · rw [Table.get?_of_append rows] at found
      split at found
      next =>
        cases found
        exact absurd mine (elsewhere found' opened)
      next => exact before.mints k mint found mine

theorem Traded.refl (c : Core) (m : Nat) : Traded c c m :=
  ⟨fun _ _ found _ => Table.get?_lt found, fun _ _ found _ => Table.get?_lt found, fun _ _ found _ => Table.get?_lt found⟩

theorem Lifecycle.at_rest (lifecycle : Lifecycle c) (listed : c.exchange.markets.get? m = some market)
    (isOver : market.isOver) {o : Nat} {order : Order} (found : c.exchange.orders.get? o = some order)
    (mine : order.marketId = m) : order.isExecutable = false := by
  by_contra active
  obtain ⟨market', found', running⟩ := lifecycle.running o order found (by simpa using active)
  rw [mine, listed] at found'
  cases found'
  simp only [List.mem_cons, List.not_mem_nil, or_false] at running
  rcases running with was | was <;> simp [Market.isOver, was] at isOver

theorem Backing.released (backing : Backing c) {o : Nat} {order : Order}
    (found : c.exchange.orders.get? o = some order) (idle : order.isExecutable = false) :
    (∀ r ∈ c.ledger.funds.forRef .order o, r.isActive = false) ∧
      ∀ r ∈ c.exchange.shares.forRef .order o, r.isActive = false := by
  -- no order of a market that is over has funds or shares held back for it
  have backed := backing.orders o order found
  cases side : order.side with
  | buy =>
    obtain ⟨none, r, single, held, -⟩ := backed.buy side
    rw [none, single]
    exact ⟨by simp [held.active, idle], by simp⟩
  | sell =>
    obtain ⟨none, r, single, held, -⟩ := backed.sell side
    rw [none, single]
    exact ⟨by simp, by simp [held.active, idle]⟩

theorem Backing.unreserved (backing : Backing c) (lifecycle : Lifecycle c)
    (listed : c.exchange.markets.get? m = some market) (isOver : market.isOver) {i : Nat} {position : Position}
    (found : c.exchange.positions.get? i = some position) (mine : position.marketId = m) :
    position.reservedQuantity = 0 := by
  have agreed := backing.agrees.reserved i position found
  refine agreed.trans (sumWhere_eq_zero _ _ _ ?_)
  intro r member
  -- a reservation on this position is for an order of its market, and that order is at rest no more
  by_cases here : r.holderId = i
  · obtain ⟨ofOrder, -⟩ := backing.shareKeys r member
    have inside : r ∈ c.exchange.shares.forRef .order r.referenceId :=
      List.mem_filter.mpr ⟨member, Reserved.isFor_iff.mpr ⟨ofOrder, rfl⟩⟩
    have known : r.referenceId < c.exchange.orders.size := by
      by_contra outside
      rw [backing.noShares r.referenceId (not_lt.mp outside)] at inside
      cases inside
    have order := List.getElem?_eq_getElem known
    have backed := backing.orders r.referenceId _ order
    cases side : (c.exchange.orders.rows[r.referenceId]).side with
    | buy =>
      rw [(backed.buy side).1] at inside
      cases inside
    | sell =>
      obtain ⟨-, r', single, held, shares⟩ := backed.sell side
      rw [single] at inside
      obtain rfl := List.mem_singleton.mp inside
      obtain ⟨position', found', isPosition⟩ := shares.position
      rw [here, found] at found'
      cases found'
      have ofMarket := (isPosition_iff.mp isPosition).2.1
      have idle := lifecycle.at_rest listed isOver order (ofMarket.symm.trans mine)
      have inactive : r.isActive = false := held.active.trans idle
      simp [share, inactive]
  · simp [share, here]

end Over

end VerdictVaut

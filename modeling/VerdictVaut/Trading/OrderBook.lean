import VerdictVaut.Trading.InFlight
import VerdictVaut.Shared.Tally

set_option autoImplicit false

namespace VerdictVaut.OrderBook

open Relational Tally ExecutionCoordinator

structure OrderBookLevel where
  price : ℚ
  remainingQuantity : ℚ
  deriving DecidableEq

structure OrderBookView where
  marketId : Nat
  outcomeId : Nat
  bids : List OrderBookLevel
  asks : List OrderBookLevel
  deriving DecidableEq

inductive Direction
  | asc
  | desc
  deriving DecidableEq

/-- The `where` of the query. -/
def isResting (marketId outcomeId : Nat) (order : Order) : Bool :=
  decide (order.marketId = marketId) && decide (order.outcomeId = outcomeId) && order.isExecutable && order.price.isSome

def restingLevels (orders : Table Order) (marketId outcomeId : Nat) : List ((OrderSide × Option ℚ) × ℚ) :=
  -- the query's groups, by side and price, with the sum of what remains
  tally ((orders.rows.filter (isResting marketId outcomeId)).map fun order =>
    ((order.side, order.price), order.remainingQuantity))

def aggregateLevels (orders : List (Option ℚ × ℚ)) : List (ℚ × ℚ) :=
  -- an order without a price is passed over
  tally (orders.filterMap fun (price, remainingQuantity) => price.map fun price => (price, remainingQuantity))

def precedesIn (direction : Direction) (a b : OrderBookLevel) : Bool :=
  let cmp := comparedTo a.price b.price
  decide ((if direction = .asc then cmp else -cmp) ≤ 0)

def sortLevels (levels : List (ℚ × ℚ)) (direction : Direction) : List OrderBookLevel :=
  (levels.map fun (price, remainingQuantity) => OrderBookLevel.mk price remainingQuantity).insertionSort
    fun a b => precedesIn direction a b = true

def levelsOf (orders : Table Order) (marketId outcomeId : Nat) (side : OrderSide) : List (ℚ × ℚ) :=
  aggregateLevels (((restingLevels orders marketId outcomeId).filter fun level => decide (level.1.1 = side)).map
    fun level => (level.1.2, level.2))

def getBook (x : Exchange) (marketId outcomeId : Nat) : Except Fault OrderBookView :=
  match x.outcomes.get? outcomeId with
  | none => .error (.notFound "Outcome does not belong to this market")
  | some outcome =>
    if outcome.marketId ≠ marketId then .error (.notFound "Outcome does not belong to this market")
    else .ok
      { marketId := marketId
        outcomeId := outcomeId
        bids := sortLevels (levelsOf x.orders marketId outcomeId .buy) .desc
        asks := sortLevels (levelsOf x.orders marketId outcomeId .sell) .asc }

section Levels

variable {orders : Table Order} {marketId outcomeId : Nat} {side : OrderSide} {price quantity : ℚ}

def restsAt (marketId outcomeId : Nat) (side : OrderSide) (price : ℚ) (order : Order) : Bool :=
  isResting marketId outcomeId order && decide (order.side = side) && decide (order.price = some price)

structure IsLevel (orders : Table Order) (marketId outcomeId : Nat) (side : OrderSide) (level : OrderBookLevel) : Prop where
  -- a level of the book: the orders that rest on one side at one price
  resting : ∃ order ∈ orders.rows, restsAt marketId outcomeId side level.price order = true
  whole : level.remainingQuantity =
    sumWhere (restsAt marketId outcomeId side level.price) Order.remainingQuantity orders.rows

theorem totalOf_map {α K : Type} [DecidableEq K] (rows : List α) (selected : α → Bool) (key : α → K) (value : α → ℚ) (k : K) :
    totalOf k ((rows.filter selected).map fun row => (key row, value row)) =
      sumWhere (fun row => selected row && decide (key row = k)) value rows := by
  induction rows with
  | nil => rfl
  | cons head rest ih =>
    unfold totalOf at ih ⊢
    rw [sumWhere_cons, ← ih]
    by_cases kept : selected head = true
    · rw [List.filter_cons_of_pos kept, List.map_cons, sumWhere_cons]
      simp [share, kept]
    · rw [List.filter_cons_of_neg kept]
      simp [share, kept]

theorem mem_restingLevels : ((side, some price), quantity) ∈ restingLevels orders marketId outcomeId ↔
    IsLevel orders marketId outcomeId side ⟨price, quantity⟩ := by
  rw [restingLevels, mem_tally, totalOf_map]
  have same : (fun order : Order => isResting marketId outcomeId order && decide ((order.side, order.price) = (side, some price))) =
      restsAt marketId outcomeId side price := by
    funext order
    simp only [restsAt, Prod.mk.injEq, Bool.decide_and, Bool.and_assoc]
  rw [same]
  constructor
  · rintro ⟨occurs, whole⟩
    simp only [List.map_map, List.mem_map, List.mem_filter, Function.comp] at occurs
    obtain ⟨order, ⟨member, resting⟩, key⟩ := occurs
    simp only [Prod.mk.injEq] at key
    exact ⟨⟨order, member, by simp [restsAt, resting, key.1, key.2]⟩, whole⟩
  · rintro ⟨⟨order, member, resting⟩, whole⟩
    simp only [restsAt, Bool.and_eq_true, decide_eq_true_eq] at resting
    refine ⟨?_, whole⟩
    simp only [List.map_map, List.mem_map, List.mem_filter, Function.comp]
    exact ⟨order, ⟨member, resting.1.1⟩, by rw [resting.1.2, resting.2]⟩

theorem restingLevels_nodup (orders : Table Order) (marketId outcomeId : Nat) :
    ((restingLevels orders marketId outcomeId).map Prod.fst).Nodup := tally_nodup _

def sideEntries (levels : List ((OrderSide × Option ℚ) × ℚ)) (side : OrderSide) : List (ℚ × ℚ) :=
  -- what a side's levels are aggregated from
  ((levels.filter fun level => decide (level.1.1 = side)).map fun level => (level.1.2, level.2)).filterMap
    fun (price, remainingQuantity) => price.map fun price => (price, remainingQuantity)

theorem mem_sideEntries {levels : List ((OrderSide × Option ℚ) × ℚ)} :
    (price, quantity) ∈ sideEntries levels side ↔ ((side, some price), quantity) ∈ levels := by
  constructor
  · intro member
    obtain ⟨⟨limit, q⟩, listed, priced⟩ := List.mem_filterMap.mp member
    obtain ⟨⟨⟨ofSide, offered⟩, total⟩, kept, same⟩ := List.mem_map.mp listed
    obtain ⟨grouped, mine⟩ := List.mem_filter.mp kept
    obtain rfl : ofSide = side := of_decide_eq_true mine
    cases same
    obtain ⟨p, limited, pair⟩ := Option.map_eq_some_iff.mp priced
    cases pair
    rw [← limited]
    exact grouped
  · intro grouped
    apply List.mem_filterMap.mpr
    refine ⟨(some price, quantity), List.mem_map.mpr ⟨((side, some price), quantity), ?_, rfl⟩, rfl⟩
    exact List.mem_filter.mpr ⟨grouped, by simp⟩

theorem sideEntries_nodup {levels : List ((OrderSide × Option ℚ) × ℚ)} (distinct : (levels.map Prod.fst).Nodup)
    (side : OrderSide) : ((sideEntries levels side).map Prod.fst).Nodup := by
  induction levels with
  | nil => simp [sideEntries]
  | cons head rest ih =>
    obtain ⟨⟨ofSide, limit⟩, q⟩ := head
    rw [List.map_cons, List.nodup_cons] at distinct
    have others := ih distinct.2
    by_cases mine : ofSide = side
    · subst mine
      cases limit with
      | none =>
        have same : sideEntries (((ofSide, none), q) :: rest) ofSide = sideEntries rest ofSide := by simp [sideEntries]
        rw [same]
        exact others
      | some p =>
        have split : sideEntries (((ofSide, some p), q) :: rest) ofSide = (p, q) :: sideEntries rest ofSide := by
          simp [sideEntries]
        rw [split, List.map_cons, List.nodup_cons]
        refine ⟨fun again => ?_, others⟩
        obtain ⟨⟨p', total⟩, member, rfl⟩ := List.mem_map.mp again
        exact distinct.1 (List.mem_map.mpr ⟨_, mem_sideEntries.mp member, rfl⟩)
    · have same : sideEntries (((ofSide, limit), q) :: rest) side = sideEntries rest side := by simp [sideEntries, mine]
      rw [same]
      exact others

theorem levelsOf_eq (orders : Table Order) (marketId outcomeId : Nat) (side : OrderSide) :
    levelsOf orders marketId outcomeId side = tally (sideEntries (restingLevels orders marketId outcomeId) side) := rfl

theorem mem_levelsOf : (price, quantity) ∈ levelsOf orders marketId outcomeId side ↔
    IsLevel orders marketId outcomeId side ⟨price, quantity⟩ := by
  have distinct := sideEntries_nodup (restingLevels_nodup orders marketId outcomeId) side
  rw [levelsOf_eq, mem_tally]
  constructor
  · rintro ⟨occurs, whole⟩
    obtain ⟨⟨p, q⟩, member, rfl⟩ := List.mem_map.mp occurs
    rw [totalOf_of_mem distinct member] at whole
    rw [whole]
    exact mem_restingLevels.mp (mem_sideEntries.mp member)
  · intro level
    have member := mem_sideEntries.mpr (mem_restingLevels.mpr level)
    exact ⟨List.mem_map.mpr ⟨_, member, rfl⟩, (totalOf_of_mem distinct member).symm⟩

theorem sideEntries_weigh (weight : ℚ → ℚ) (levels : List ((OrderSide × Option ℚ) × ℚ)) (side : OrderSide) :
    weigh weight (sideEntries levels side) =
      weigh (fun key => if key.1 = side then (key.2.map weight).getD 0 else 0) levels := by
  induction levels with
  | nil => rfl
  | cons head rest ih =>
    obtain ⟨⟨ofSide, limit⟩, q⟩ := head
    rw [show weigh (fun key : OrderSide × Option ℚ => if key.1 = side then (key.2.map weight).getD 0 else 0)
        (((ofSide, limit), q) :: rest) = (if ofSide = side then (limit.map weight).getD 0 else 0) * q +
          weigh (fun key => if key.1 = side then (key.2.map weight).getD 0 else 0) rest from rfl, ← ih]
    by_cases mine : ofSide = side
    · subst mine
      cases limit with
      | none => simp [sideEntries]
      | some p => simp [sideEntries, weigh]
    · simp [sideEntries, mine]

theorem levelsOf_weigh (weight : ℚ → ℚ) (orders : Table Order) (marketId outcomeId : Nat) (side : OrderSide) :
    weigh weight (levelsOf orders marketId outcomeId side) =
      sumWhere (fun order => isResting marketId outcomeId order && decide (order.side = side))
        (fun order => (order.price.map weight).getD 0 * order.remainingQuantity) orders.rows := by
  -- a side's levels add up to what rests on that side, at any weight of its prices
  rw [levelsOf_eq, tally_weigh, sideEntries_weigh, restingLevels, tally_weigh, weigh, List.map_map]
  generalize orders.rows = rows
  induction rows with
  | nil => rfl
  | cons head rest ih =>
    rw [sumWhere_cons, ← ih]
    by_cases resting : isResting marketId outcomeId head = true
    · rw [List.filter_cons_of_pos resting, List.map_cons, List.sum_cons]
      by_cases mine : head.side = side
      · simp [share, resting, mine]
      · simp [share, resting, mine]
    · rw [List.filter_cons_of_neg resting]
      simp [share, resting]

def Direction.ahead : Direction → ℚ → ℚ → Prop
  -- better prices first: the lowest of the asks, the highest of the bids
  | .asc, a, b => a < b
  | .desc, a, b => b < a

theorem precedesIn_iff {direction : Direction} {a b : OrderBookLevel} :
    precedesIn direction a b = true ↔ direction.ahead a.price b.price ∨ a.price = b.price := by
  unfold precedesIn comparedTo
  cases direction <;> rcases lt_trichotomy a.price b.price with less | same | greater
  · simp [Direction.ahead, less]
  · simp [same]
  · simp [Direction.ahead, not_lt.mpr greater.le, greater, greater.ne']
  · simp [Direction.ahead, not_lt.mpr less.le, less, less.ne]
  · simp [same]
  · simp [Direction.ahead, not_lt.mpr greater.le, greater]

instance (direction : Direction) : Std.Total fun a b : OrderBookLevel => precedesIn direction a b = true where
  total a b := by
    rw [precedesIn_iff, precedesIn_iff]
    cases direction <;> rcases lt_trichotomy a.price b.price with less | same | greater <;>
      simp [Direction.ahead, *]

instance (direction : Direction) : IsTrans OrderBookLevel fun a b => precedesIn direction a b = true where
  trans a b c := by
    rw [precedesIn_iff, precedesIn_iff, precedesIn_iff]
    cases direction <;> simp only [Direction.ahead] <;> grind

end Levels

section Book

variable {x : Exchange} {marketId outcomeId : Nat} {side : OrderSide} {direction : Direction}

structure Displays (orders : Table Order) (marketId outcomeId : Nat) (side : OrderSide) (direction : Direction)
    (levels : List OrderBookLevel) : Prop where
  -- one side of a book: the resting orders, level by level, better prices first
  sorted : levels.Pairwise fun a b => direction.ahead a.price b.price
  exactly : ∀ level, level ∈ levels ↔ IsLevel orders marketId outcomeId side level
  depth : ∀ weight : ℚ → ℚ, (levels.map fun level => weight level.price * level.remainingQuantity).sum =
    sumWhere (fun order => isResting marketId outcomeId order && decide (order.side = side))
      (fun order => (order.price.map weight).getD 0 * order.remainingQuantity) orders.rows

theorem sortLevels_sorted {levels : List (ℚ × ℚ)} (distinct : (levels.map Prod.fst).Nodup) :
    (sortLevels levels direction).Pairwise fun a b => direction.ahead a.price b.price := by
  have sorted := List.pairwise_insertionSort (fun a b => precedesIn direction a b = true)
    (levels.map fun (price, remainingQuantity) => OrderBookLevel.mk price remainingQuantity)
  have prices : ((sortLevels levels direction).map OrderBookLevel.price).Nodup := by
    have perm := (List.perm_insertionSort (fun a b => precedesIn direction a b = true)
      (levels.map fun (price, remainingQuantity) => OrderBookLevel.mk price remainingQuantity)).map OrderBookLevel.price
    apply perm.nodup_iff.mpr
    rw [List.map_map]
    exact distinct
  refine (sorted.and (List.pairwise_map.mp prices)).imp ?_
  rintro a b ⟨before, different⟩
  exact (precedesIn_iff.mp before).resolve_right different

theorem sortLevels_displays (orders : Table Order) (marketId outcomeId : Nat) (side : OrderSide) (direction : Direction) :
    Displays orders marketId outcomeId side direction (sortLevels (levelsOf orders marketId outcomeId side) direction) where
  sorted := sortLevels_sorted (tally_nodup _)
  exactly level := by
    rw [sortLevels, List.mem_insertionSort, List.mem_map]
    constructor
    · rintro ⟨⟨price, quantity⟩, member, rfl⟩
      exact mem_levelsOf.mp member
    · intro isLevel
      exact ⟨(level.price, level.remainingQuantity), mem_levelsOf.mpr isLevel, rfl⟩
  depth weight := by
    have perm := (List.perm_insertionSort (fun a b => precedesIn direction a b = true)
      ((levelsOf orders marketId outcomeId side).map fun (price, remainingQuantity) =>
        OrderBookLevel.mk price remainingQuantity)).map fun level => weight level.price * level.remainingQuantity
    rw [sortLevels, perm.sum_eq, List.map_map, ← levelsOf_weigh]
    rfl

theorem findMany_snd (orders : Table Order) (wanted : Order → Bool) :
    (orders.findMany wanted).map Prod.snd = orders.rows.filter wanted := by
  have rows : orders.rows = orders.rows.zipIdx.map Prod.fst := (List.zipIdx_map_fst 0 orders.rows).symm
  rw [Table.findMany, List.map_map]
  conv_rhs => rw [rows, List.filter_map]
  rfl

theorem Displays.swept {orders : Table Order} {levels : List OrderBookLevel}
    (displays : Displays orders marketId outcomeId side direction levels) (bound : CrossingBound) :
    ((getRestingCandidates orders marketId outcomeId side bound).map MatchCandidate.remainingQuantity).sum =
      ((levels.filter fun level => bound.admits level.price).map OrderBookLevel.remainingQuantity).sum := by
  -- what an engine may sweep within a bound is what the levels within the bound show
  let within (price : ℚ) : ℚ := if bound.admits price then 1 else 0
  have shown : ((levels.filter fun level => bound.admits level.price).map OrderBookLevel.remainingQuantity).sum =
      (levels.map fun level => within level.price * level.remainingQuantity).sum := by
    clear displays
    induction levels with
    | nil => rfl
    | cons head rest ih =>
      by_cases admitted : bound.admits head.price = true
      · simp [admitted, ih, within]
      · simp [admitted, ih, within]
  rw [shown, displays.depth within]
  let wanted (order : Order) : Bool := decide (order.marketId = marketId) && decide (order.outcomeId = outcomeId) &&
    decide (order.side = side) && order.isExecutable && order.price.any bound.admits
  have sorted := (List.perm_insertionSort (fun a b => precedes side a b = true)
    ((orders.findMany wanted).filterMap fun entry => candidate entry.1 entry.2)).map MatchCandidate.remainingQuantity
  have rows : (((orders.findMany wanted).filterMap fun entry => candidate entry.1 entry.2).map
      MatchCandidate.remainingQuantity).sum = (((orders.findMany wanted).map Prod.snd).map Order.remainingQuantity).sum := by
    have priced : ∀ found ∈ orders.findMany wanted, wanted found.2 = true := fun found member => (Table.mem_findMany.mp member).2
    generalize orders.findMany wanted = found at priced
    induction found with
    | nil => rfl
    | cons head rest ih =>
      have others := ih fun found member => priced found (List.mem_cons_of_mem _ member)
      have here := priced head List.mem_cons_self
      obtain ⟨orderId, order⟩ := head
      obtain ⟨price, limited⟩ : ∃ price, order.price = some price := by
        simp only [wanted, Bool.and_eq_true] at here
        obtain ⟨price, limited, -⟩ := (Option.any_eq_true _ _).mp here.2
        exact ⟨price, limited⟩
      obtain ⟨read, reading⟩ : ∃ read, candidate orderId order = some read := by simp [candidate, limited]
      simp only [List.filterMap_cons, reading, List.map_cons, List.sum_cons, others, (candidate_some reading).2.2.2.2.1]
  apply Eq.trans sorted.sum_eq
  rw [rows, findMany_snd]
  change sumWhere wanted Order.remainingQuantity orders.rows = _
  apply sumWhere_congr
  intro order _
  -- an order is a candidate when it rests within the bound
  cases limited : order.price with
  | none => simp [share, wanted, isResting, limited]
  | some price =>
    by_cases admitted : bound.admits price = true
    · simp only [share, wanted, isResting, limited, within, admitted, Option.any_some, Option.isSome_some, Bool.and_true,
        Option.map_some, Option.getD_some, if_true, one_mul]
      congr 1
      simp only [Bool.and_assoc, Bool.and_comm, Bool.and_left_comm]
    · simp [share, wanted, isResting, limited, within, admitted]

theorem getBook_iff {view : OrderBookView} : getBook x marketId outcomeId = .ok view ↔
    (∃ outcome, x.outcomes.get? outcomeId = some outcome ∧ outcome.marketId = marketId) ∧
    view = ⟨marketId, outcomeId, sortLevels (levelsOf x.orders marketId outcomeId .buy) .desc,
      sortLevels (levelsOf x.orders marketId outcomeId .sell) .asc⟩ := by
  unfold getBook
  cases x.outcomes.get? outcomeId with
  | none => simp
  | some outcome =>
    by_cases mine : outcome.marketId = marketId
    · simp [mine, eq_comm]
    · simp [mine]

theorem getBook_displays {view : OrderBookView} (read : getBook x marketId outcomeId = .ok view) :
    Displays x.orders marketId outcomeId .buy .desc view.bids ∧
      Displays x.orders marketId outcomeId .sell .asc view.asks := by
  obtain ⟨-, rfl⟩ := getBook_iff.mp read
  exact ⟨sortLevels_displays _ _ _ _ _, sortLevels_displays _ _ _ _ _⟩

end Book

end VerdictVaut.OrderBook

import VerdictVaut.Ledger.Decimal
import VerdictVaut.Trading.Progress

set_option autoImplicit false

namespace VerdictVaut

open Relational Relational.Tx VerdictVaut.Core Decimals

namespace CostBasis

section Writes

-- The two writers of a position, with the average price as its column keeps it.

def increaseBuyerPosition (userId marketId outcomeId : Nat) (executedQuantity price : ℚ) :
    Tx Core Fault Unit := do
  let (positionId, position) ← upsert positionsField (ExecutionCoordinator.isPosition userId marketId outcomeId)
    (ExecutionCoordinator.emptyPosition userId marketId outcomeId)
  let newQuantity := position.quantity + executedQuantity
  let newAvgPrice :=
    if position.quantity = 0 then price
    else (position.quantity * position.avgPrice + executedQuantity * price) / newQuantity
  update positionsField positionId
    { position with quantity := newQuantity, avgPrice := toPlaces avgPricePlaces newAvgPrice }

def updatePositions (instruction : ExecutionInstruction) (executedQuantity executionPrice : ℚ) :
    Tx Core Fault Unit := do
  increaseBuyerPosition instruction.buyerUserId instruction.marketId instruction.outcomeId
    executedQuantity executionPrice
  let (positionId, sellerPosition) ← findOrThrow positionsField
    (ExecutionCoordinator.isPosition instruction.sellerUserId instruction.marketId instruction.outcomeId)
  let realizedPnlDelta := (executionPrice - sellerPosition.avgPrice) * executedQuantity
  update positionsField positionId
    { sellerPosition with
      quantity := sellerPosition.quantity - executedQuantity
      realizedPnl := sellerPosition.realizedPnl + realizedPnlDelta }

end Writes

section Basis

structure Basis where
  -- what a position says of its trades
  quantity : ℚ
  avgPrice : ℚ
  realizedPnl : ℚ

structure Key where
  -- a user, a market and an outcome of it
  userId : Nat
  marketId : Nat
  outcomeId : Nat
  deriving DecidableEq

def Key.selects (key : Key) : Position → Bool :=
  ExecutionCoordinator.isPosition key.userId key.marketId key.outcomeId

def basis (position : Position) : Basis where
  quantity := position.quantity
  avgPrice := position.avgPrice
  realizedPnl := position.realizedPnl

def Basis.empty : Basis where
  quantity := 0
  avgPrice := 0
  realizedPnl := 0

def basisOf (positions : Table Position) (key : Key) : Basis :=
  -- the basis of the position with this key, of an empty one while there is none
  ((positions.find? key.selects).map fun found => basis found.2).getD .empty

inductive Leg
  -- one side of an execution, as the position it is booked on sees it
  | bought (quantity price : ℚ)
  | sold (quantity price : ℚ)

def Basis.weighted (held : Basis) (quantity price : ℚ) : ℚ :=
  -- the average price of a position after a purchase, before it is rounded
  if held.quantity = 0 then price
  else (held.quantity * held.avgPrice + quantity * price) / (held.quantity + quantity)

def Basis.after (held : Basis) : Leg → Basis
  | .bought quantity price =>
    { held with
      quantity := held.quantity + quantity
      avgPrice := toPlaces avgPricePlaces (held.weighted quantity price) }
  | .sold quantity price =>
    { held with
      quantity := held.quantity - quantity
      realizedPnl := held.realizedPnl + (price - held.avgPrice) * quantity }

end Basis

section Rows

variable {t t' : Table Position} {i : Nat} {row : Position} {key other : Key}

theorem Key.selects_iff : key.selects row = true ↔
    row.userId = key.userId ∧ row.marketId = key.marketId ∧ row.outcomeId = key.outcomeId :=
  ExecutionCoordinator.isPosition_iff

theorem Key.eq_of_selects (mine : key.selects row = true) (also : other.selects row = true) : other = key := by
  obtain ⟨u, m, o⟩ := Key.selects_iff.mp mine
  obtain ⟨u', m', o'⟩ := Key.selects_iff.mp also
  obtain ⟨user, market, outcome⟩ := key
  obtain ⟨user', market', outcome'⟩ := other
  subst u m o u' m' o'
  rfl

theorem basisOf_of_get? (found : t.get? i = some row) (mine : key.selects row = true) : basisOf t key = basis row := by
  rw [basisOf, Table.find?_of_unique found mine ExecutionCoordinator.isPosition_clash]
  rfl

theorem basisOf_of_find? (absent : t.find? key.selects = none) : basisOf t key = .empty := by
  rw [basisOf, absent]
  rfl

theorem basisOf_wrote (wrote : Table.Wrote t t' i row) (mine : key.selects row = true)
    (before : ∀ old, t.get? i = some old → key.selects old = true) (different : other ≠ key) :
    basisOf t' other = basisOf t other := by
  cases found : t.find? other.selects with
  | none =>
    rw [basisOf_of_find? found, basisOf_of_find?]
    rw [Table.find?_none] at found ⊢
    intro held member
    obtain ⟨j, position⟩ := Table.mem_iff_get?.mp member
    by_cases here : j = i
    next =>
      rw [here, wrote.get] at position
      cases position
      exact Bool.eq_false_iff.mpr fun also => different (Key.eq_of_selects mine also)
    next =>
      rw [wrote.other here] at position
      exact found held (Table.get?_mem position)
  | some hit =>
    obtain ⟨j, held⟩ := hit
    obtain ⟨position, also⟩ := Table.find?_some found
    have elsewhere : j ≠ i := by
      rintro rfl
      exact different (Key.eq_of_selects (before held position) also)
    rw [basisOf_of_get? position also, basisOf_of_get? (by rw [wrote.other elsewhere, position]) also]

theorem basisOf_nonneg (t : Table Position) (key : Key) : 0 ≤ (basisOf t key).quantity := by
  cases found : t.find? key.selects with
  | none =>
    rw [basisOf_of_find? found]
    exact le_refl 0
  | some hit =>
    obtain ⟨i, row⟩ := hit
    obtain ⟨position, mine⟩ := Table.find?_some found
    rw [basisOf_of_get? position mine]
    exact (ExecutionCoordinator.position_valid (Table.get?_mem position)).1

end Rows

section Booked

variable {c c' : Core} {q price : ℚ} {u : Unit} {key own : Key}

theorem increaseBuyerPosition_basis
    (done : (increaseBuyerPosition own.userId own.marketId own.outcomeId q price).run c = .ok (u, c')) :
    basisOf c'.exchange.positions own = (basisOf c.exchange.positions own).after (.bought q price) ∧
      ∀ key, key ≠ own → basisOf c'.exchange.positions key = basisOf c.exchange.positions key := by
  simp only [increaseBuyerPosition, run_bind_ok] at done
  obtain ⟨⟨positionId, position⟩, c₁, upserted, updated⟩ := done
  rw [run_update_ok] at updated
  obtain ⟨t, updated, rfl⟩ := updated
  change basisOf t own = _ ∧ ∀ key, key ≠ own → basisOf t key = _
  rw [run_upsert_ok] at upserted
  -- either the position exists and is rewritten, or it is opened empty and rewritten at once
  obtain ⟨wrote, mine, before, held⟩ : (∃ row, Table.Wrote c.exchange.positions t positionId row ∧
        basis row = (basis position).after (.bought q price) ∧ own.selects row = true) ∧
      own.selects position = true ∧
      (∀ old, c.exchange.positions.get? positionId = some old → own.selects old = true) ∧
      basisOf c.exchange.positions own = basis position := by
    rcases upserted with ⟨found, rfl⟩ | ⟨absent, t₁, inserted, fresh, rfl⟩
    next =>
      obtain ⟨place, mine⟩ := Table.find?_some found
      refine ⟨⟨_, Table.Wrote.of_update updated, rfl, mine⟩, mine, fun old same => ?_, basisOf_of_get? place mine⟩
      cases place.symm.trans same
      exact mine
    next =>
      cases fresh
      have mine : own.selects (ExecutionCoordinator.emptyPosition own.userId own.marketId own.outcomeId) = true :=
        Key.selects_iff.mpr ⟨rfl, rfl, rfl⟩
      refine ⟨⟨_, (Table.Wrote.of_insert inserted).again (Table.Wrote.of_update updated), rfl, mine⟩, mine,
        fun old same => ?_, basisOf_of_find? absent⟩
      exact absurd (Table.get?_lt same) (lt_irrefl _)
  obtain ⟨row, wrote, same, selected⟩ := wrote
  rw [held]
  exact ⟨(basisOf_of_get? wrote.get selected).trans same, fun key different => basisOf_wrote wrote selected before different⟩

def buyer (instruction : ExecutionInstruction) : Key where
  userId := instruction.buyerUserId
  marketId := instruction.marketId
  outcomeId := instruction.outcomeId

def seller (instruction : ExecutionInstruction) : Key where
  userId := instruction.sellerUserId
  marketId := instruction.marketId
  outcomeId := instruction.outcomeId

theorem updatePositions_basis {instruction : ExecutionInstruction}
    (done : (updatePositions instruction q price).run c = .ok (u, c')) :
    ∃ middle : Core,
      (increaseBuyerPosition instruction.buyerUserId instruction.marketId instruction.outcomeId q price).run c =
        .ok ((), middle) ∧
      basisOf c'.exchange.positions (seller instruction) =
        (basisOf middle.exchange.positions (seller instruction)).after (.sold q price) ∧
      ∀ key, key ≠ seller instruction → basisOf c'.exchange.positions key = basisOf middle.exchange.positions key := by
  simp only [updatePositions, run_bind_ok, run_findOrThrow_ok] at done
  obtain ⟨_, middle, increased, ⟨positionId, position⟩, _, ⟨found, rfl⟩, updated⟩ := done
  rw [run_update_ok] at updated
  obtain ⟨t, updated, rfl⟩ := updated
  obtain ⟨place, mine⟩ := Table.find?_some found
  have wrote := Table.Wrote.of_update updated
  have before : basisOf middle.exchange.positions (seller instruction) = basis position := basisOf_of_get? place mine
  have later : basisOf t (seller instruction) = (basis position).after (.sold q price) := basisOf_of_get? wrote.get mine
  refine ⟨middle, increased, by rw [before]; exact later, fun key different => ?_⟩
  refine basisOf_wrote wrote (show (seller instruction).selects _ = true from mine) (fun old same => ?_) different
  cases place.symm.trans same
  exact mine

end Booked

section Calls

inductive Call
  -- the two uses of the writers: a buyer of a complete-set mint, and a trade
  | minted (buyer : Key) (quantity price : ℚ)
  | traded (instruction : ExecutionInstruction) (quantity price : ℚ)

def Call.run : Call → Tx Core Fault Unit
  | .minted buyer quantity price =>
    increaseBuyerPosition buyer.userId buyer.marketId buyer.outcomeId quantity price
  | .traded instruction quantity price => updatePositions instruction quantity price

def Call.Valid : Call → Prop
  -- a positive quantity at a price of the column's decimals
  | .minted _ quantity price => 0 < quantity ∧ Places avgPricePlaces price
  | .traded _ quantity price => 0 < quantity ∧ Places avgPricePlaces price

def Call.legs (key : Key) : Call → List Leg
  -- what a call books on a position, in this order
  | .minted buyer quantity price => if key = buyer then [.bought quantity price] else []
  | .traded instruction quantity price =>
    (if key = buyer instruction then [.bought quantity price] else []) ++
      if key = seller instruction then [.sold quantity price] else []

variable {c c' : Core} {u : Unit}

theorem Call.basis_run {call : Call} (done : call.run.run c = .ok (u, c')) (key : Key) :
    basisOf c'.exchange.positions key = (call.legs key).foldl Basis.after (basisOf c.exchange.positions key) := by
  have increases {own : Key} {q price : ℚ} {u : Unit} {c' : Core}
      (increased : (increaseBuyerPosition own.userId own.marketId own.outcomeId q price).run c = .ok (u, c')) :
      basisOf c'.exchange.positions key =
        (if key = own then [Leg.bought q price] else []).foldl Basis.after (basisOf c.exchange.positions key) := by
    obtain ⟨mine, others⟩ := increaseBuyerPosition_basis increased
    split
    next same =>
      subst same
      exact mine
    next different => exact others key different
  cases call with
  | minted own q price => exact increases done
  | traded instruction q price =>
    obtain ⟨middle, increased, mine, others⟩ := updatePositions_basis done
    have first := @increases (buyer instruction) q price () middle increased
    rw [legs, List.foldl_append, ← first]
    split
    next same =>
      subst same
      exact mine
    next different => exact others key different

end Calls

section Law

structure History where
  -- the history of a position that the law speaks of
  proceeds : ℚ
  costs : ℚ
  /-- The prices bought at since a purchase last found the quantity zero. -/
  prices : List ℚ
  /-- The sum, over the purchases made while the quantity was not zero, of the quantity after the purchase. -/
  exposure : ℚ
  /-- Whether an average has been rounded. -/
  rounded : Bool

def History.empty : History where
  proceeds := 0
  costs := 0
  prices := []
  exposure := 0
  rounded := false

def History.after (held : Basis) (history : History) : Leg → History
  | .bought quantity price =>
    { history with
      costs := history.costs + quantity * price
      prices := if held.quantity = 0 then [price] else price :: history.prices
      exposure := if held.quantity = 0 then history.exposure else history.exposure + (held.quantity + quantity)
      rounded := history.rounded ||
        decide (toPlaces avgPricePlaces (held.weighted quantity price) ≠ held.weighted quantity price) }
  | .sold quantity price => { history with proceeds := history.proceeds + quantity * price }

def drift (held : Basis) (history : History) : ℚ :=
  -- the profit that the books show but the trades do not
  held.realizedPnl - (history.proceeds - history.costs + held.quantity * held.avgPrice)

structure Law (held : Basis) (history : History) : Prop where
  between : held.quantity = 0 ∧ history.prices = [] ∨
    ∃ low ∈ history.prices, ∃ high ∈ history.prices, low ≤ held.avgPrice ∧ held.avgPrice ≤ high
  bounded : |drift held history| ≤ 1 / 2 / 10 ^ avgPricePlaces * history.exposure
  exact : history.rounded = false → drift held history = 0

def Leg.Valid : Leg → Prop
  | .bought quantity price => 0 < quantity ∧ Places avgPricePlaces price
  | .sold quantity _ => 0 < quantity

variable {held : Basis} {history : History} {q price : ℚ}

theorem weighted_between {low high : ℚ} (positive : 0 < held.quantity) (bought : 0 < q)
    (below : low ≤ held.avgPrice) (above : held.avgPrice ≤ high) (least : low ≤ price) (most : price ≤ high) :
    low ≤ held.weighted q price ∧ held.weighted q price ≤ high := by
  have total : 0 < held.quantity + q := add_pos positive bought
  rw [Basis.weighted, if_neg positive.ne', le_div_iff₀ total, div_le_iff₀ total]
  constructor
  next =>
    have first : low * held.quantity ≤ held.quantity * held.avgPrice := by nlinarith
    have second : low * q ≤ q * price := by nlinarith
    linarith
  next =>
    have first : held.quantity * held.avgPrice ≤ high * held.quantity := by nlinarith
    have second : q * price ≤ high * q := by nlinarith
    linarith

theorem drift_bought (nonneg : 0 ≤ held.quantity) (bought : 0 < q) :
    drift (held.after (.bought q price)) (history.after held (.bought q price)) =
      drift held history +
        (held.quantity + q) * (held.weighted q price - toPlaces avgPricePlaces (held.weighted q price)) := by
  -- a purchase shifts the drift by what the rounding of the average is worth
  have total : held.quantity + q ≠ 0 := by linarith
  have worth : (held.quantity + q) * held.weighted q price = held.quantity * held.avgPrice + q * price := by
    unfold Basis.weighted
    split
    next none => rw [none]; ring
    next => field_simp
  simp only [drift, Basis.after, History.after]
  linarith

theorem drift_sold : drift (held.after (.sold q price)) (history.after held (.sold q price)) = drift held history := by
  simp only [drift, Basis.after, History.after]
  ring

structure Kept (held : Basis) (history : History) : Prop extends Law held history where
  -- the law, with what carries it through a purchase and a sale
  nonneg : 0 ≤ held.quantity
  places : ∀ price ∈ history.prices, Places avgPricePlaces price

theorem Kept.empty : Kept .empty .empty where
  between := .inl ⟨rfl, rfl⟩
  bounded := by simp [drift, Basis.empty, History.empty]
  exact := fun _ => by simp [drift, Basis.empty, History.empty]
  nonneg := le_refl _
  places := fun _ member => absurd member List.not_mem_nil

theorem Kept.opens (kept : Kept held history) (bought : 0 < q) (places : Places avgPricePlaces price)
    (none : held.quantity = 0) : Kept (held.after (.bought q price)) (history.after held (.bought q price)) := by
  -- the first price is its own average, so nothing is rounded
  have same : held.weighted q price = price := by rw [Basis.weighted, if_pos none]
  have whole : toPlaces avgPricePlaces price = price := toPlaces_eq_self_iff.mpr places
  have drifts : drift (held.after (.bought q price)) (history.after held (.bought q price)) = _ :=
    drift_bought kept.nonneg bought
  rw [same, whole, sub_self, mul_zero, add_zero] at drifts
  have prices : (history.after held (.bought q price)).prices = [price] := by simp [History.after, none]
  have exposure : (history.after held (.bought q price)).exposure = history.exposure := by simp [History.after, none]
  have rounded : (history.after held (.bought q price)).rounded = history.rounded := by
    simp [History.after, same, whole]
  have average : (held.after (.bought q price)).avgPrice = price := by simp [Basis.after, same, whole]
  constructor
  case toLaw =>
    constructor
    case between =>
      rw [prices, average]
      exact .inr ⟨price, List.mem_singleton_self _, price, List.mem_singleton_self _, le_refl _, le_refl _⟩
    case bounded =>
      rw [drifts, exposure]
      exact kept.bounded
    case exact =>
      rw [rounded, drifts]
      exact kept.exact
  case nonneg =>
    change 0 ≤ held.quantity + q
    linarith [kept.nonneg]
  case places =>
    rw [prices]
    intro p member
    rwa [List.mem_singleton.mp member]

theorem Kept.adds (kept : Kept held history) (bought : 0 < q) (places : Places avgPricePlaces price)
    (some : held.quantity ≠ 0) : Kept (held.after (.bought q price)) (history.after held (.bought q price)) := by
  have positive : 0 < held.quantity := lt_of_le_of_ne kept.nonneg (Ne.symm some)
  have drifts : drift (held.after (.bought q price)) (history.after held (.bought q price)) = _ :=
    drift_bought kept.nonneg bought
  have prices : (history.after held (.bought q price)).prices = price :: history.prices := by simp [History.after, some]
  have exposure : (history.after held (.bought q price)).exposure = history.exposure + (held.quantity + q) := by
    simp [History.after, some]
  constructor
  case toLaw =>
    constructor
    case between =>
      obtain ⟨none, -⟩ | ⟨low, lowBought, high, highBought, below, above⟩ := kept.between
      · exact absurd none some
      obtain ⟨least, leastBought, least_le, least_price⟩ :
          ∃ least ∈ price :: history.prices, least ≤ low ∧ least ≤ price := by
        rcases le_total low price with le | le
        · exact ⟨low, List.mem_cons_of_mem _ lowBought, le_refl _, le⟩
        · exact ⟨price, List.mem_cons_self, le, le_refl _⟩
      obtain ⟨most, mostBought, le_most, price_most⟩ :
          ∃ most ∈ price :: history.prices, high ≤ most ∧ price ≤ most := by
        rcases le_total high price with le | le
        · exact ⟨price, List.mem_cons_self, le, le_refl _⟩
        · exact ⟨high, List.mem_cons_of_mem _ highBought, le_refl _, le⟩
      have fits (p : ℚ) (member : p ∈ price :: history.prices) : toPlaces avgPricePlaces p = p := by
        rw [toPlaces_eq_self_iff]
        rcases List.mem_cons.mp member with rfl | earlier
        · exact places
        · exact kept.places p earlier
      obtain ⟨from_below, from_above⟩ := weighted_between positive bought
        (least_le.trans below) (above.trans le_most) least_price price_most
      rw [prices]
      -- rounding is monotone and leaves the two bounds, which are prices, as they are
      refine .inr ⟨least, leastBought, most, mostBought, ?_, ?_⟩
      · rw [← fits least leastBought]
        exact toPlaces_mono avgPricePlaces from_below
      · rw [← fits most mostBought]
        exact toPlaces_mono avgPricePlaces from_above
    case bounded =>
      have total : 0 < held.quantity + q := add_pos positive bought
      have half := abs_sub_toPlaces avgPricePlaces (held.weighted q price)
      rw [drifts, exposure, mul_add]
      refine (abs_add_le _ _).trans (add_le_add kept.bounded ?_)
      rw [abs_mul, abs_of_pos total, mul_comm]
      exact mul_le_mul_of_nonneg_right half total.le
    case exact =>
      intro never
      simp only [History.after, Bool.or_eq_false_iff, decide_eq_false_iff_not, not_not] at never
      rw [drifts, kept.exact never.1, never.2, sub_self, mul_zero, add_zero]
  case nonneg =>
    change 0 ≤ held.quantity + q
    linarith [kept.nonneg]
  case places =>
    rw [prices]
    intro p member
    rcases List.mem_cons.mp member with rfl | earlier
    · exact places
    · exact kept.places p earlier

theorem Kept.sells (kept : Kept held history) (sold : 0 < q) (enough : 0 ≤ (held.after (.sold q price)).quantity) :
    Kept (held.after (.sold q price)) (history.after held (.sold q price)) := by
  constructor
  case toLaw =>
    constructor
    case between =>
      obtain ⟨none, -⟩ | between := kept.between
      · change 0 ≤ held.quantity - q at enough
        linarith
      · exact .inr between
    case bounded =>
      rw [drift_sold]
      exact kept.bounded
    case exact =>
      rw [drift_sold]
      exact kept.exact
  case nonneg => exact enough
  case places => exact kept.places

theorem Kept.after (kept : Kept held history) {leg : Leg} (valid : leg.Valid) (enough : 0 ≤ (held.after leg).quantity) :
    Kept (held.after leg) (history.after held leg) := by
  cases leg with
  | bought q price =>
    by_cases none : held.quantity = 0
    · exact kept.opens valid.1 valid.2 none
    · exact kept.adds valid.1 valid.2 none
  | sold q price => exact kept.sells valid enough

end Law

section Runs

def record (held : Basis × History) (leg : Leg) : Basis × History :=
  -- a leg booked on a position that has a history
  (held.1.after leg, held.2.after held.1 leg)

/-- Runs of the two writers from before a position is opened, with its history. An aborted call changes nothing, and what
else the system does in between (reservations, settlement) leaves the basis alone. -/
inductive Recorded (key : Key) : Core → History → Prop
  | unopened {c : Core} (fresh : basisOf c.exchange.positions key = .empty) : Recorded key c .empty
  | called {c c' : Core} {history : History} {call : Call} (earlier : Recorded key c history) (valid : call.Valid)
      (done : call.run.run c = .ok ((), c')) :
      Recorded key c' ((call.legs key).foldl record (basisOf c.exchange.positions key, history)).2
  | elsewhere {c c' : Core} {history : History} (earlier : Recorded key c history)
      (left : basisOf c'.exchange.positions key = basisOf c.exchange.positions key) : Recorded key c' history

variable {key : Key} {c : Core} {history : History}

theorem foldl_record (legs : List Leg) (held : Basis × History) :
    (legs.foldl record held).1 = legs.foldl Basis.after held.1 := by
  induction legs generalizing held with
  | nil => rfl
  | cons leg rest ih => exact ih (record held leg)

theorem kept_of_call {held : Basis} (kept : Kept held history) {call : Call} (valid : call.Valid)
    (enough : 0 ≤ ((call.legs key).foldl Basis.after held).quantity) :
    Kept ((call.legs key).foldl record (held, history)).1 ((call.legs key).foldl record (held, history)).2 := by
  cases call with
  | minted own q price =>
    by_cases buys : key = own
    next =>
      rw [Call.legs, if_pos buys] at enough ⊢
      exact kept.after (show (Leg.bought q price).Valid from valid) enough
    next =>
      rw [Call.legs, if_neg buys]
      exact kept
  | traded instruction q price =>
    have bought := kept.after (show (Leg.bought q price).Valid from valid) (add_nonneg kept.nonneg valid.1.le)
    have sells : (Leg.sold q price).Valid := valid.1
    -- a user who trades with themselves has both legs, the purchase first
    by_cases isBuyer : key = buyer instruction <;> by_cases isSeller : key = seller instruction
    next =>
      rw [Call.legs, if_pos isBuyer, if_pos isSeller] at enough ⊢
      exact bought.after sells enough
    next =>
      rw [Call.legs, if_pos isBuyer, if_neg isSeller]
      exact bought
    next =>
      rw [Call.legs, if_neg isBuyer, if_pos isSeller] at enough ⊢
      exact kept.after sells enough
    next =>
      rw [Call.legs, if_neg isBuyer, if_neg isSeller]
      exact kept

theorem Recorded.kept (recorded : Recorded key c history) : Kept (basisOf c.exchange.positions key) history := by
  induction recorded with
  | unopened fresh =>
    rw [fresh]
    exact .empty
  | @called c c' history call _ valid done ih =>
    have booked := call.basis_run done key
    have later := kept_of_call ih valid (booked ▸ basisOf_nonneg c'.exchange.positions key)
    rwa [foldl_record, ← booked] at later
  | elsewhere _ left ih =>
    rw [left]
    exact ih

/-- In every run the average price of a position lies between prices bought at since its quantity was last zero, and its
books are off by no more than half a unit of the average's last place for each share held after a purchase. -/
theorem costBasis_law (recorded : Recorded key c history) : Law (basisOf c.exchange.positions key) history :=
  recorded.kept.toLaw

end Runs

section Example

def unopened : Core where
  users := .empty
  riskLimits := .empty
  ledger := .initial .empty
  exchange :=
    { categories := .empty
      markets := .empty
      outcomes := .empty
      orders := .empty
      fills := .empty
      mints := .empty
      shares := { holders := .empty, reservations := .empty }
      resolutions := .empty
      settlements := .empty
      positionSettlements := .empty }

def Call.committed (call : Call) (c : Core) : Core :=
  match call.run.run c with
  | .ok (_, c') => c'
  | .error _ => c

theorem Call.run_committed {call : Call} {c : Core} (done : (call.run.run c).isOk = true) :
    call.run.run c = .ok ((), call.committed c) := by
  unfold committed
  cases result : call.run.run c with
  | ok made => rfl
  | error fault =>
    rw [result] at done
    cases done

def holder : Key where
  userId := 1
  marketId := 2
  outcomeId := 3

def firstShare : Call := .minted holder 1 (333333 / 1000000)

def twoMore : Call := .minted holder 2 (1 / 2)

theorem thirdsOfAverage_law :
    ∃ c history, Recorded holder c history ∧ history.rounded = true ∧
      (basisOf c.exchange.positions holder).avgPrice = 444444 / 1000000 ∧
      Law (basisOf c.exchange.positions holder) history := by
  have first : Recorded holder (firstShare.committed unopened) _ :=
    @Recorded.called holder unopened _ _ firstShare (.unopened rfl) ⟨by norm_num, 333333, by norm_num [avgPricePlaces]⟩
      (Call.run_committed (by decide +kernel))
  have second : Recorded holder (twoMore.committed (firstShare.committed unopened)) _ :=
    @Recorded.called holder _ _ _ twoMore first ⟨by norm_num, 500000, by norm_num [avgPricePlaces]⟩
      (Call.run_committed (by decide +kernel))
  exact ⟨_, _, second, by decide +kernel, by decide +kernel, costBasis_law second⟩

end Example

end CostBasis

end VerdictVaut

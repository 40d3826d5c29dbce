import VerdictVaut.Trading.Agreement
import VerdictVaut.Trading.InFlight

set_option autoImplicit false

-- what the engines make of the book, and what a pass executes, with and without rounding
namespace VerdictVaut

open Relational Relational.Tx VerdictVaut.Core Decimals

structure MatchCandidate.Fits (places digits : ℕ) (most : ℚ) (candidate : MatchCandidate) : Prop where
  remaining : Figure places most candidate.remainingQuantity
  price : Figure digits 1 candidate.price
  positive : 0 ≤ candidate.price

section Engines

variable {places digits : ℕ} {most remaining : ℚ} {marketId outcomeId outcomeAId outcomeBId : Nat} {incoming : MatchCandidate}
  {book : List MatchCandidate}

theorem remaining_figure {resting : MatchCandidate} (figure : Figure places most remaining) (some : ¬ remaining ≤ 0)
    (fits : resting.Fits places digits most) (left : ¬ resting.remainingQuantity ≤ 0) :
    Figure places most (remaining - min remaining resting.remainingQuantity) ∧
      Places places (min remaining resting.remainingQuantity) ∧ 0 < min remaining resting.remainingQuantity := by
  have part := figure.fits.min fits.remaining.fits
  have positive := lt_min (not_le.mp some) (not_le.mp left)
  have below := min_le_left remaining resting.remainingQuantity
  refine ⟨.of_le (figure.fits.sub part) (by linarith) ?_, part, positive⟩
  linarith [(abs_le.mp figure.small).2]

theorem Rounded.PriceTimePriority.matchEligible_eq (room : Room places most) (fits : ∀ r ∈ book, r.Fits places digits most)
    (figure : Figure places most remaining) :
    Rounded.PriceTimePriority.matchEligible marketId outcomeId incoming remaining book =
      VerdictVaut.PriceTimePriority.matchEligible marketId outcomeId incoming remaining book := by
  induction book generalizing remaining with
  | nil => rfl
  | cons resting rest ih =>
    have others : ∀ r ∈ rest, r.Fits places digits most := fun r member => fits r (List.mem_cons_of_mem _ member)
    unfold Rounded.PriceTimePriority.matchEligible VerdictVaut.PriceTimePriority.matchEligible
    by_cases none : remaining ≤ 0
    next => rw [if_pos none, if_pos none]
    next =>
      rw [if_neg none, if_neg none]
      by_cases empty : resting.remainingQuantity ≤ 0
      next => rw [if_pos empty, if_pos empty, ih others figure]
      next =>
        rw [if_neg empty, if_neg empty]
        obtain ⟨left, -⟩ := remaining_figure figure none (fits resting List.mem_cons_self) empty
        dsimp only
        rw [room.minus left, ih others left]

theorem Rounded.CompleteSetMintEngine.matchEligible_eq (room : Room places most) (few : digits ≤ orderPriceMaxDecimals)
    (priced : Figure digits 1 incoming.price) (fits : ∀ r ∈ book, r.Fits places digits most)
    (figure : Figure places most remaining) :
    Rounded.CompleteSetMintEngine.matchEligible marketId outcomeAId outcomeBId incoming remaining book =
      VerdictVaut.CompleteSetMintEngine.matchEligible marketId outcomeAId outcomeBId incoming remaining book := by
  induction book generalizing remaining with
  | nil => rfl
  | cons resting rest ih =>
    have others : ∀ r ∈ rest, r.Fits places digits most := fun r member => fits r (List.mem_cons_of_mem _ member)
    have mine := fits resting List.mem_cons_self
    unfold Rounded.CompleteSetMintEngine.matchEligible VerdictVaut.CompleteSetMintEngine.matchEligible
    by_cases none : remaining ≤ 0
    next => rw [if_pos none, if_pos none]
    next =>
      rw [if_neg none, if_neg none]
      by_cases empty : resting.remainingQuantity ≤ 0
      next => rw [if_pos empty, if_pos empty, ih others figure]
      next =>
        rw [if_neg empty, if_neg empty]
        obtain ⟨left, -⟩ := remaining_figure figure none mine empty
        have sum : Figure digits 2 (incoming.price + resting.price) := by
          have both := priced.add mine.price
          norm_num at both
          exact both
        have one : Figure digits 1 (1 : ℚ) := .of_le ⟨10 ^ digits, by simp⟩ zero_le_one le_rfl
        have rest := one.sub_of_nonneg mine.price zero_le_one mine.positive
        have complement := (Room.prices.coarser few).minus (rest.mono one_le_two)
        dsimp only [Rounded.CompleteSetMintEngine.instruction, VerdictVaut.CompleteSetMintEngine.instruction]
        rw [room.minus left, ih others left, (Room.prices.coarser few).plus sum, complement]

structure Batch {α : Type} (quantity : α → ℚ) (prices : α → List ℚ) (places digits : ℕ) (budget : ℚ) (batch : List α) : Prop where
  -- instructions of such quantities and prices, that execute so much in all
  each : ∀ i ∈ batch, Places places (quantity i) ∧ 0 ≤ quantity i ∧ ∀ price ∈ prices i, Figure digits 1 price
  total : (batch.map quantity).sum ≤ budget

namespace Batch

variable {α : Type} {quantity : α → ℚ} {prices : α → List ℚ} {budget larger : ℚ} {i : α} {rest : List α}

theorem nil (nonneg : 0 ≤ budget) : Batch quantity prices places digits budget [] := ⟨by simp, by simpa using nonneg⟩

theorem mono (batch : Batch quantity prices places digits budget rest) (le : budget ≤ larger) :
    Batch quantity prices places digits larger rest := ⟨batch.each, batch.total.trans le⟩

theorem cons (part : Places places (quantity i)) (nonneg : 0 ≤ quantity i)
    (priced : ∀ price ∈ prices i, Figure digits 1 price)
    (batch : Batch quantity prices places digits (budget - quantity i) rest) :
    Batch quantity prices places digits budget (i :: rest) := by
  constructor
  next =>
    intro j member
    rcases List.mem_cons.mp member with rfl | later
    next => exact ⟨part, nonneg, priced⟩
    next => exact batch.each j later
  next =>
    rw [List.map_cons, List.sum_cons]
    linarith [batch.total]

theorem tail (batch : Batch quantity prices places digits budget (i :: rest)) :
    Batch quantity prices places digits (budget - quantity i) rest := by
  refine ⟨fun j member => batch.each j (List.mem_cons_of_mem _ member), ?_⟩
  have total := batch.total
  rw [List.map_cons, List.sum_cons] at total
  linarith

theorem head_le (batch : Batch quantity prices places digits budget (i :: rest)) : quantity i ≤ budget := by
  have total := batch.tail.total
  have others : 0 ≤ (rest.map quantity).sum := List.sum_nonneg fun q member => by
    obtain ⟨j, later, rfl⟩ := List.mem_map.mp member
    exact (batch.each j (List.mem_cons_of_mem _ later)).2.1
  linarith

end Batch

def Fills : ℕ → ℕ → ℚ → List ExecutionInstruction → Prop := Batch ExecutionInstruction.quantity fun i => [i.price]

def MintFills : ℕ → ℕ → ℚ → List MintInstruction → Prop := Batch MintInstruction.quantity fun i => [i.priceA, i.priceB]

theorem PriceTimePriority.matchEligible_fills (fits : ∀ r ∈ book, r.Fits places digits most) (figure : Figure places most remaining) :
    Fills places digits (max remaining 0) (matchEligible marketId outcomeId incoming remaining book) := by
  induction book generalizing remaining with
  | nil => exact .nil (le_max_right _ _)
  | cons resting rest ih =>
    have others : ∀ r ∈ rest, r.Fits places digits most := fun r member => fits r (List.mem_cons_of_mem _ member)
    have mine := fits resting List.mem_cons_self
    unfold matchEligible
    split
    next => exact .nil (le_max_right _ _)
    next some =>
      split
      next => exact ih others figure
      next left =>
        split
        next =>
          obtain ⟨rest, part, positive⟩ := remaining_figure figure some mine left
          refine .cons part positive.le (by simpa [instruction] using mine.price) ?_
          refine (ih others rest).mono ?_
          rw [max_eq_left (not_le.mp some).le, max_eq_left (sub_nonneg.mpr (min_le_left _ _))]
          exact le_rfl
        next => exact .nil (le_max_right _ _)

theorem CompleteSetMintEngine.matchEligible_fills (fits : ∀ r ∈ book, r.Fits places digits most)
    (figure : Figure places most remaining) :
    MintFills places digits (max remaining 0) (matchEligible marketId outcomeAId outcomeBId incoming remaining book) := by
  induction book generalizing remaining with
  | nil => exact .nil (le_max_right _ _)
  | cons resting rest ih =>
    have others : ∀ r ∈ rest, r.Fits places digits most := fun r member => fits r (List.mem_cons_of_mem _ member)
    have mine := fits resting List.mem_cons_self
    unfold matchEligible
    split
    next => exact .nil (le_max_right _ _)
    next some =>
      split
      next => exact ih others figure
      next left =>
        split
        next => exact .nil (le_max_right _ _)
        next =>
          obtain ⟨rest, part, positive⟩ := remaining_figure figure some mine left
          have one : Figure digits 1 (1 : ℚ) :=
            .of_le ⟨10 ^ digits, by simp⟩ zero_le_one le_rfl
          have complement := one.sub_of_nonneg mine.price zero_le_one mine.positive
          refine .cons part positive.le (by simpa [instruction] using ⟨complement, mine.price⟩) ?_
          refine (ih others rest).mono ?_
          rw [max_eq_left (not_le.mp some).le, max_eq_left (sub_nonneg.mpr (min_le_left _ _))]
          exact le_rfl

end Engines

section Reads

variable {places digits : ℕ} {most more : ℚ} {c : Core}

theorem MatchCandidate.Fits.of_order {orders : Table Order} (fit : OrdersFit places digits most orders) {marketId outcomeId : Nat}
    {candidate : MatchCandidate} {order : Order}
    (mine : ExecutionCoordinator.CandidateOf orders marketId outcomeId candidate order) (rests : order.isExecutable = true)
    (remaining : candidate.remainingQuantity = order.remainingQuantity) : candidate.Fits places digits most := by
  have member := Table.get?_mem mine.found
  obtain ⟨positive, below⟩ := mine.valid
  have price := (fit order member).1
  rw [mine.price] at price
  refine ⟨?_, .of_le price positive.le below.le, positive.le⟩
  rw [remaining]
  exact ((fit order member).2 rests).remaining (Table.check_of_get? mine.found)

theorem getRestingCandidates_fit {orders : Table Order} (fit : OrdersFit places digits most orders) {marketId outcomeId : Nat}
    {side : OrderSide} {bound : OrderBook.CrossingBound} :
    ∀ r ∈ OrderBook.getRestingCandidates orders marketId outcomeId side bound, r.Fits places digits most := by
  intro candidate member
  obtain ⟨order, mine, -, rests, -, remaining⟩ := ExecutionCoordinator.mem_getRestingCandidates.mp member
  exact .of_order fit mine rests remaining

theorem restingCandidates_fit {orders : Table Order} (fit : OrdersFit places digits most orders)
    (incoming : ExecutionCoordinator.Incoming) :
    ∀ r ∈ PriceTimePriority.eligible incoming.candidate (ExecutionCoordinator.restingCandidates incoming orders),
      r.Fits places digits most :=
  fun r member => getRestingCandidates_fit fit r (ExecutionCoordinator.mem_eligible.mp member).1

theorem mintCandidates_fit {orders : Table Order} (fit : OrdersFit places digits most orders) {incoming : MatchCandidate}
    {marketId outcomeId : Nat} {bound : OrderBook.CrossingBound} :
    ∀ r ∈ CompleteSetMintEngine.eligible incoming
      (OrderBook.getRestingCandidates orders marketId outcomeId .buy bound), r.Fits places digits most := by
  intro r member
  simp only [CompleteSetMintEngine.eligible, List.mem_insertionSort, List.mem_filter] at member
  exact getRestingCandidates_fit fit r member.1.1

theorem readIncoming_fit (orders : OrdersFit places digits most c.exchange.orders) {now : Time} {orderId : Nat} {c' : Core}
    {incoming : ExecutionCoordinator.Incoming}
    (done : (ExecutionCoordinator.readIncoming now orderId).run c = .ok (some incoming, c')) :
    incoming.candidate.Fits places digits most := by
  simp only [ExecutionCoordinator.readIncoming, run_bind_ok, run_getOrThrow_ok] at done
  obtain ⟨order, _, ⟨found, rfl⟩, rest⟩ := done
  rw [run_ite] at rest
  split at rest
  next => cases rest
  next rests =>
    split at rest
    next => cases rest
    next candidate read =>
      simp only [run_bind_ok, run_getOrThrow_ok] at rest
      obtain ⟨market, _, ⟨-, rfl⟩, rest⟩ := rest
      rw [run_ite] at rest
      split at rest
      next => cases rest
      next =>
        cases rest
        exact .of_order orders (ExecutionCoordinator.candidate_of found read) (by simpa using rests)
          (ExecutionCoordinator.candidate_some read).2.2.2.2.1

theorem readMintIncoming_fit (orders : OrdersFit places digits most c.exchange.orders) {orderId marketId : Nat} {c' : Core}
    {found : Option ExecutionCoordinator.MintIncoming}
    (done : (ExecutionCoordinator.readMintIncoming orderId marketId).run c = .ok (found, c')) :
    c' = c ∧ ∀ incoming, found = some incoming → incoming.candidate.Fits places digits most := by
  simp only [ExecutionCoordinator.readMintIncoming] at done
  rw [run_bind_of_ok (run_read _ _), run_ite] at done
  split at done
  next =>
    cases done
    exact ⟨rfl, by simp⟩
  next =>
    simp only [run_bind_ok, run_getOrThrow_ok] at done
    obtain ⟨order, _, ⟨located, rfl⟩, rest⟩ := done
    split at rest
    next =>
      cases rest
      exact ⟨rfl, by simp⟩
    next candidate read =>
      rw [run_ite] at rest
      split at rest
      next =>
        cases rest
        exact ⟨rfl, by simp⟩
      next rests =>
        split at rest
        next =>
          cases rest
          exact ⟨rfl, by simp⟩
        next =>
          cases rest
          refine ⟨rfl, fun incoming same => ?_⟩
          cases same
          simp only [not_or, Bool.not_eq_false] at rests
          exact .of_order orders (ExecutionCoordinator.candidate_of located read) rests.1
            (ExecutionCoordinator.candidate_some read).2.2.2.2.1

theorem readInstructions_agree (orders : OrdersFit places digits most c.exchange.orders) (room : Room places most)
    {incoming : ExecutionCoordinator.Incoming} (fits : incoming.candidate.Fits places digits most) :
    Agree (fun instructions c' => c' = c ∧ Fills places digits (max incoming.candidate.remainingQuantity 0) instructions)
      (Rounded.ExecutionCoordinator.readInstructions incoming) (ExecutionCoordinator.readInstructions incoming) c := by
  -- what a read of the book makes: the same instructions, and what they execute
  have each := restingCandidates_fit orders incoming
  constructor
  next =>
    unfold Rounded.ExecutionCoordinator.readInstructions ExecutionCoordinator.readInstructions
    rw [run_read, run_read, Rounded.PriceTimePriority.matchCandidates,
      Rounded.PriceTimePriority.matchEligible_eq room each fits.remaining, PriceTimePriority.matchCandidates]
  next =>
    intro instructions c' done
    cases done
    exact ⟨rfl, PriceTimePriority.matchEligible_fills each fits.remaining⟩

theorem readMintInstructions_agree (orders : OrdersFit places digits most c.exchange.orders) (room : Room places most)
    (few : digits ≤ orderPriceMaxDecimals)    {incoming : ExecutionCoordinator.MintIncoming}
    (fits : incoming.candidate.Fits places digits most) :
    Agree (fun instructions c' => c' = c ∧ MintFills places digits (max incoming.candidate.remainingQuantity 0) instructions)
      (Rounded.ExecutionCoordinator.readMintInstructions incoming) (ExecutionCoordinator.readMintInstructions incoming) c := by
  have one : Figure digits 1 (1 : ℚ) := .of_le ⟨10 ^ digits, by simp⟩ zero_le_one le_rfl
  have complement := (Room.prices.coarser few).minus ((one.sub_of_nonneg fits.price zero_le_one fits.positive).mono one_le_two)
  constructor
  next =>
    unfold Rounded.ExecutionCoordinator.readMintInstructions ExecutionCoordinator.readMintInstructions
    rw [run_read, run_read, complement, Rounded.CompleteSetMintEngine.matchCandidates,
      Rounded.CompleteSetMintEngine.matchEligible_eq room few fits.price (mintCandidates_fit orders) fits.remaining,
      CompleteSetMintEngine.matchCandidates]
  next =>
    intro instructions c' done
    cases done
    exact ⟨rfl, CompleteSetMintEngine.matchEligible_fills (mintCandidates_fit orders) fits.remaining⟩

end Reads

namespace Core.Ready

variable {places digits : ℕ} {most more budget : ℚ} {c : Core} {clock : Nat → Time}

theorem applyExecutions_agree (tight : Room places most) {instructions : List ExecutionInstruction}
    (fills : Fills places digits budget instructions) (ready : c.Ready places digits most more) (nonneg : 0 ≤ more)
    (room : Room (places + digits) (more + 3 * budget)) (k : Nat) :
    Agree (fun _ c' => c'.Ready places digits most (more + 3 * budget))
      (Rounded.ExecutionCoordinator.applyExecutions zeroFeeCalculator clock k instructions)
      (ExecutionCoordinator.applyExecutions zeroFeeCalculator clock k instructions) c := by
  induction instructions generalizing c more budget k with
  | nil =>
    have some := fills.total
    rw [List.map_nil, List.sum_nil] at some
    exact .pure (ready.mono (by linarith))
  | cons instruction rest ih =>
    obtain ⟨part, some, priced⟩ := fills.each instruction List.mem_cons_self
    have le := fills.head_le
    have instructed : Instructed places digits instruction.quantity instruction.quantity instruction.price :=
      ⟨part, le_rfl, some, priced _ (by simp)⟩
    have first : Room (places + digits) (more + 3 * instruction.quantity) := room.smaller (by linarith)
    have left : more + 3 * instruction.quantity + 3 * (budget - instruction.quantity) = more + 3 * budget := by ring
    refine (runTransaction_agree (applyExecution_agree ready instructed nonneg tight first (clock k))).bind fun _ c₁ _ ready₁ => ?_
    exact left ▸ ih fills.tail ready₁ (by linarith) (left ▸ room) (k + 1)

theorem applyMintExecutions_agree (tight : Room places most) {instructions : List MintInstruction}
    (fills : MintFills places digits budget instructions) (ready : c.Ready places digits most more) (nonneg : 0 ≤ more)
    (room : Room (places + digits) (more + 8 * budget)) (k : Nat) :
    Agree (fun _ c' => c'.Ready places digits most (more + 8 * budget))
      (Rounded.ExecutionCoordinator.applyMintExecutions clock k instructions)
      (ExecutionCoordinator.applyMintExecutions clock k instructions) c := by
  induction instructions generalizing c more budget k with
  | nil =>
    have some := fills.total
    rw [List.map_nil, List.sum_nil] at some
    exact .pure (ready.mono (by linarith))
  | cons instruction rest ih =>
    obtain ⟨part, some, priced⟩ := fills.each instruction List.mem_cons_self
    have le := fills.head_le
    have first : Room (places + digits) (more + 8 * instruction.quantity) := room.smaller (by linarith)
    have left : more + 8 * instruction.quantity + 8 * (budget - instruction.quantity) = more + 8 * budget := by ring
    have agree := applyMintExecution_agree ready ⟨part, le_rfl, some, priced _ (by simp)⟩
      ⟨part, le_rfl, some, priced _ (by simp)⟩ nonneg tight first (clock k)
    refine (runTransaction_agree agree).bind fun _ c₁ _ ready₁ => ?_
    exact left ▸ ih fills.tail ready₁ (by linarith) (left ▸ room) (k + 1)

theorem attemptComplementaryMint_agree (ready : c.Ready places digits most more) (nonneg : 0 ≤ more) (some : 0 ≤ most)
    (room : Room (places + digits) (more + 8 * most)) (tight : Room places most)
    (few : digits ≤ orderPriceMaxDecimals) (k orderId marketId : Nat) :
    Agree (fun _ _ => True) (Rounded.ExecutionCoordinator.attemptComplementaryMint clock k orderId marketId)
      (ExecutionCoordinator.attemptComplementaryMint clock k orderId marketId) c := by
  refine .after fun found c₁ looked => ?_
  obtain ⟨rfl, fits⟩ := readMintIncoming_fit ready.orders looked
  cases found with
  | none => exact .pure trivial
  | some incoming =>
    have mine := fits incoming rfl
    refine (readMintInstructions_agree ready.orders tight few mine).bind fun instructions c₂ _ made => ?_
    obtain ⟨rfl, fills⟩ := made
    have budget : max incoming.candidate.remainingQuantity 0 ≤ most :=
      max_le ((abs_le.mp mine.remaining.small).2) some
    exact (applyMintExecutions_agree tight (fills.mono budget) ready nonneg room k).weaken fun _ _ _ => trivial

/-- A whole pass over the book executes at most what is left of the order, first against sellers, then against buyers. -/
theorem matchAndExecute_agree (ready : c.Ready places digits most most) (nonneg : 0 ≤ most)
    (room : Room (places + digits) (most + 3 * most + 8 * most)) (few : digits ≤ orderPriceMaxDecimals) (orderId : Nat) :
    Agree (fun _ _ => True) (Rounded.ExecutionCoordinator.matchAndExecute zeroFeeCalculator clock orderId)
      (ExecutionCoordinator.matchAndExecute zeroFeeCalculator clock orderId) c := by
  have tight : Room places most := (room.smaller (by linarith)).coarser (Nat.le_add_right _ _)
  refine .after fun found c₁ looked => ?_
  obtain ⟨rfl, -⟩ := ExecutionCoordinator.readIncoming_fits looked
  cases found with
  | none => exact .pure trivial
  | some incoming =>
    have mine := readIncoming_fit ready.orders looked
    refine (readInstructions_agree ready.orders tight mine).bind fun instructions c₂ _ made => ?_
    obtain ⟨rfl, fills⟩ := made
    have budget : max incoming.candidate.remainingQuantity 0 ≤ most :=
      max_le ((abs_le.mp mine.remaining.small).2) nonneg
    refine (applyExecutions_agree tight (fills.mono budget) ready nonneg (room.smaller (by linarith)) 1).bind
      fun _ c₃ _ ready₃ => .ite (fun _ => ?_) fun _ => .pure trivial
    exact attemptComplementaryMint_agree ready₃ (by linarith) nonneg room tight few _ _ _

end Core.Ready

end VerdictVaut

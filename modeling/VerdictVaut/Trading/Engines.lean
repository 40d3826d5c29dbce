import VerdictVaut.Shared.Sweep
import VerdictVaut.Trading.MatchAndExecute
import Mathlib.Data.Prod.Lex

set_option autoImplicit false

namespace VerdictVaut

open Relational Sweep

section Ranking

/-- Price first, then sequence; the smaller key is the better price. -/
def rank (key : MatchCandidate → ℚ) (c : MatchCandidate) : ℚ ×ₗ ℕ := toLex (key c, c.sequence)

theorem rank_le_iff {key : MatchCandidate → ℚ} {a b : MatchCandidate} :
    rank key a ≤ rank key b ↔ key a < key b ∨ (key a = key b ∧ a.sequence ≤ b.sequence) :=
  Prod.Lex.toLex_le_toLex

theorem compareSequence_nonpos {a b : MatchCandidate} : compareSequence a b ≤ 0 ↔ a.sequence ≤ b.sequence := by
  unfold compareSequence
  split
  next less => simp [less.le]
  next atLeast =>
    split
    next greater => simp [greater]
    next atMost => simp [not_lt.mp atMost]

theorem comparedTo_swap (x y : ℚ) : comparedTo y x = -comparedTo x y := by
  unfold comparedTo
  rcases lt_trichotomy x y with less | rfl | greater
  · simp [less, not_lt.mpr less.le]
  · simp
  · simp [greater, not_lt.mpr greater.le]

theorem compareSequence_swap (a b : MatchCandidate) : compareSequence b a = -compareSequence a b := by
  unfold compareSequence
  rcases lt_trichotomy a.sequence b.sequence with less | same | greater
  · simp [less, not_lt.mpr less.le]
  · simp [same]
  · simp [greater, not_lt.mpr greater.le]

theorem compared_swap (a b : MatchCandidate) (x y : ℚ) :
    (if comparedTo y x ≠ 0 then comparedTo y x else compareSequence b a) =
      -(if comparedTo x y ≠ 0 then comparedTo x y else compareSequence a b) := by
  -- swapping the candidates negates the comparison, so that a strict one excludes its converse
  rw [comparedTo_swap x y, compareSequence_swap a b]
  simp only [ne_eq, neg_eq_zero]
  split <;> rfl

theorem compared_nonpos {a b : MatchCandidate} {x y : ℚ} :
    (if comparedTo x y ≠ 0 then comparedTo x y else compareSequence a b) ≤ 0 ↔
      x < y ∨ (x = y ∧ a.sequence ≤ b.sequence) := by
  rcases lt_trichotomy x y with less | rfl | greater
  · simp [comparedTo, less]
  · simp [comparedTo, compareSequence_nonpos]
  · simp [comparedTo, greater, not_lt.mpr greater.le, greater.ne']

/-- The sort key of the matching engine, and of the mint engine. -/
def PriceTimePriority.key (side : OrderSide) (c : MatchCandidate) : ℚ := if side = .buy then c.price else -c.price

def CompleteSetMintEngine.key (c : MatchCandidate) : ℚ := -c.price

theorem PriceTimePriority.comparePriority_nonpos {incoming a b : MatchCandidate} :
    PriceTimePriority.comparePriority incoming a b ≤ 0 ↔
      rank (PriceTimePriority.key incoming.side) a ≤ rank (PriceTimePriority.key incoming.side) b := by
  rw [rank_le_iff]
  unfold PriceTimePriority.comparePriority PriceTimePriority.key
  cases incoming.side with
  | buy => simpa using compared_nonpos
  | sell => simpa [eq_comm] using @compared_nonpos a b b.price a.price

theorem CompleteSetMintEngine.comparePriority_nonpos {a b : MatchCandidate} :
    CompleteSetMintEngine.comparePriority a b ≤ 0 ↔
      rank CompleteSetMintEngine.key a ≤ rank CompleteSetMintEngine.key b := by
  rw [rank_le_iff]
  unfold CompleteSetMintEngine.comparePriority CompleteSetMintEngine.key
  simpa [eq_comm] using @compared_nonpos a b b.price a.price

theorem PriceTimePriority.comparePriority_swap (incoming a b : MatchCandidate) :
    PriceTimePriority.comparePriority incoming b a = -PriceTimePriority.comparePriority incoming a b := by
  unfold PriceTimePriority.comparePriority
  cases incoming.side with
  | buy => exact compared_swap a b a.price b.price
  | sell => exact compared_swap a b b.price a.price

theorem CompleteSetMintEngine.comparePriority_swap (a b : MatchCandidate) :
    CompleteSetMintEngine.comparePriority b a = -CompleteSetMintEngine.comparePriority a b :=
  compared_swap a b b.price a.price

theorem rank_untied {key : MatchCandidate → ℚ} {book : List MatchCandidate}
    (distinct : (book.map MatchCandidate.sequence).Nodup) :
    ∀ a ∈ book, ∀ b ∈ book, rank key a ≤ rank key b → rank key b ≤ rank key a → a = b := by
  intro a inA b inB first second
  have same : a.sequence = b.sequence := congrArg (fun r => (ofLex r).2) (le_antisymm first second)
  exact List.inj_on_of_nodup_map distinct inA inB same

theorem eq_of_orderId {book : List MatchCandidate} {a b : MatchCandidate} (distinct : (book.map MatchCandidate.orderId).Nodup) (inA : a ∈ book)
    (inB : b ∈ book) (same : a.orderId = b.orderId) : a = b :=
  List.inj_on_of_nodup_map distinct inA inB same

end Ranking

section Engines

variable {marketId outcomeId outcomeAId outcomeBId : Nat} {incoming : MatchCandidate} {book : List MatchCandidate}

theorem PriceTimePriority.matchEligible_eq (remaining : ℚ) (candidates : List MatchCandidate) :
    PriceTimePriority.matchEligible marketId outcomeId incoming remaining candidates =
      (sweep MatchCandidate.remainingQuantity (fun resting => decide (PriceTimePriority.crosses incoming resting))
        remaining candidates).map fun pick => PriceTimePriority.instruction marketId outcomeId incoming pick.1 pick.2 := by
  induction candidates generalizing remaining with
  | nil => rfl
  | cons resting rest ih =>
    simp only [PriceTimePriority.matchEligible, sweep, decide_eq_true_eq]
    split
    · rfl
    split
    · exact ih remaining
    split
    · rw [List.map_cons, ih]
    · rfl

theorem CompleteSetMintEngine.matchEligible_eq (remaining : ℚ) (candidates : List MatchCandidate) :
    CompleteSetMintEngine.matchEligible marketId outcomeAId outcomeBId incoming remaining candidates =
      (sweep MatchCandidate.remainingQuantity (fun resting => decide (1 ≤ incoming.price + resting.price))
        remaining candidates).map fun pick =>
          CompleteSetMintEngine.instruction marketId outcomeAId outcomeBId incoming pick.1 pick.2 := by
  induction candidates generalizing remaining with
  | nil => rfl
  | cons resting rest ih =>
    simp only [CompleteSetMintEngine.matchEligible, sweep, decide_eq_true_eq]
    split
    · rfl
    split
    · exact ih remaining
    split
    next short => rw [if_neg (not_le.mpr short), List.map_nil]
    next enough => rw [if_pos (not_lt.mp enough), List.map_cons, ih]

end Engines

section Matching

namespace PriceTimePriority

variable {marketId outcomeId : Nat} {incoming : MatchCandidate} {book : List MatchCandidate}

instance (incoming : MatchCandidate) : Std.Total fun a b => comparePriority incoming a b ≤ 0 :=
  ⟨fun a b => by simpa only [comparePriority_nonpos] using le_total _ _⟩

instance (incoming : MatchCandidate) : IsTrans MatchCandidate fun a b => comparePriority incoming a b ≤ 0 :=
  ⟨fun a b c => by simpa only [comparePriority_nonpos] using le_trans⟩

theorem crosses_downward (incoming : MatchCandidate) : Downward (fun a b => comparePriority incoming a b ≤ 0)
    fun resting => decide (crosses incoming resting) := by
  intro a b before crossing
  rw [comparePriority_nonpos, rank_le_iff] at before
  rw [decide_eq_true_eq] at crossing ⊢
  unfold crosses key at *
  split
  next buy =>
    rw [if_pos buy] at crossing
    simp only [if_pos buy] at before
    rcases before with less | ⟨same, -⟩ <;> linarith
  next sell =>
    rw [if_neg sell] at crossing
    simp only [if_neg sell] at before
    rcases before with less | ⟨same, -⟩ <;> linarith

def isEligible (incoming resting : MatchCandidate) : Bool :=
  decide (resting.side ≠ incoming.side) && decide (resting.userId ≠ incoming.userId)

theorem eligible_eq : eligible incoming book =
    (book.filter (isEligible incoming)).insertionSort fun a b => comparePriority incoming a b ≤ 0 := by
  rw [eligible, List.filter_filter]
  congr 2
  funext resting
  rw [isEligible, Bool.and_comm]

theorem matchCandidates_eq : matchCandidates marketId outcomeId incoming book =
    (sweep MatchCandidate.remainingQuantity (fun resting => decide (crosses incoming resting)) incoming.remainingQuantity
      ((book.filter (isEligible incoming)).insertionSort fun a b => comparePriority incoming a b ≤ 0)).map
        fun pick => instruction marketId outcomeId incoming pick.1 pick.2 := by
  rw [matchCandidates, matchEligible_eq, eligible_eq]

def usesUp (marketId outcomeId : Nat) (incoming resting : MatchCandidate) : ExecutionInstruction :=
  -- the instruction that uses up a resting order
  instruction marketId outcomeId incoming resting resting.remainingQuantity

/-- Price first, then time: `a` is ahead of `b` for a taker of this side. -/
def Ahead (side : OrderSide) (a b : MatchCandidate) : Prop :=
  (if side = .buy then a.price < b.price else b.price < a.price) ∨ (a.price = b.price ∧ a.sequence < b.sequence)

theorem comparePriority_neg {incoming a b : MatchCandidate} : comparePriority incoming a b < 0 ↔ Ahead incoming.side a b := by
  have swap := comparePriority_swap incoming a b
  have order : comparePriority incoming a b < 0 ↔ ¬ comparePriority incoming b a ≤ 0 := by omega
  rw [order, comparePriority_nonpos, not_le, rank, rank, Prod.Lex.toLex_lt_toLex]
  unfold key Ahead
  cases incoming.side with
  | buy => simp
  | sell => simp

structure Parties (incoming resting : MatchCandidate) (i : ExecutionInstruction) : Prop where
  -- who buys and who sells, by the side of the incoming order
  maker : i.makerOrderId = resting.orderId
  taker : i.takerOrderId = incoming.orderId
  buying : incoming.side = .buy → i.buyOrderId = incoming.orderId ∧ i.buyerUserId = incoming.userId ∧
    i.sellOrderId = resting.orderId ∧ i.sellerUserId = resting.userId
  selling : incoming.side = .sell → i.sellOrderId = incoming.orderId ∧ i.sellerUserId = incoming.userId ∧
    i.buyOrderId = resting.orderId ∧ i.buyerUserId = resting.userId

theorem instruction_parties (marketId outcomeId : Nat) (incoming resting : MatchCandidate) (q : ℚ) :
    Parties incoming resting (instruction marketId outcomeId incoming resting q) where
  maker := rfl
  taker := rfl
  buying buy := by simp [instruction, buy]
  selling sell := by simp [instruction, sell]

structure Correct (marketId outcomeId : Nat) (incoming : MatchCandidate) (book : List MatchCandidate)
    (instructions : List ExecutionInstruction) : Prop where
  -- what the engine owes to the incoming order and to each resting order
  resting : ∀ i ∈ instructions, ∃ resting ∈ book, i = instruction marketId outcomeId incoming resting i.quantity ∧
    0 < i.quantity ∧ i.quantity ≤ resting.remainingQuantity ∧ resting.userId ≠ incoming.userId ∧
    resting.side ≠ incoming.side ∧ Parties incoming resting i ∧ i.price = resting.price ∧
    (incoming.side = .buy → i.price ≤ incoming.price) ∧ (incoming.side = .sell → incoming.price ≤ i.price)
  total : (instructions.map ExecutionInstruction.quantity).sum ≤ max incoming.remainingQuantity 0
  once : (instructions.map ExecutionInstruction.makerOrderId).Nodup
  ordered : instructions.Pairwise fun i j => ∀ a ∈ book, ∀ b ∈ book, i.makerOrderId = a.orderId →
    j.makerOrderId = b.orderId → ¬ Ahead incoming.side b a
  priority : ∀ i ∈ instructions, ∀ used ∈ book, i.makerOrderId = used.orderId → ∀ better ∈ book,
    isEligible incoming better = true → crosses incoming better → Ahead incoming.side better used →
    0 < better.remainingQuantity → usesUp marketId outcomeId incoming better ∈ instructions
  maximal : (instructions.map ExecutionInstruction.quantity).sum = max incoming.remainingQuantity 0 ∨
    ∀ r ∈ book, isEligible incoming r = true → crosses incoming r → 0 < r.remainingQuantity →
      usesUp marketId outcomeId incoming r ∈ instructions

theorem matchCandidates_correct (marketId outcomeId : Nat) (incoming : MatchCandidate) {book : List MatchCandidate}
    (distinct : (book.map MatchCandidate.orderId).Nodup) :
    Correct marketId outcomeId incoming book (matchCandidates marketId outcomeId incoming book) := by
  have fair := @sweep_fair _ MatchCandidate.remainingQuantity _ _ _ _ _ (crosses_downward incoming)
    incoming.remainingQuantity (book.filter (isEligible incoming))
  rw [matchCandidates_eq]
  generalize sweep _ _ _ _ = picks at fair
  have listed : ∀ pick ∈ picks, pick.1 ∈ book ∧ isEligible incoming pick.1 = true :=
    fun pick member => List.mem_filter.mp (fair.picked pick member).1
  have quantities : (picks.map fun pick => instruction marketId outcomeId incoming pick.1 pick.2).map
      ExecutionInstruction.quantity = picks.map Prod.snd := by
    rw [List.map_map]
    rfl
  have used : ∀ {r : MatchCandidate}, (r, r.remainingQuantity) ∈ picks → usesUp marketId outcomeId incoming r ∈
      picks.map fun pick => instruction marketId outcomeId incoming pick.1 pick.2 :=
    fun inside => List.mem_map.mpr ⟨_, inside, rfl⟩
  constructor
  · intro i member
    obtain ⟨pick, inside, rfl⟩ := List.mem_map.mp member
    obtain ⟨-, crossing, positive, enough⟩ := fair.picked pick inside
    obtain ⟨known, eligible⟩ := listed pick inside
    simp only [isEligible, Bool.and_eq_true, decide_eq_true_eq] at eligible
    rw [decide_eq_true_eq, crosses] at crossing
    refine ⟨pick.1, known, rfl, positive, enough, eligible.2, eligible.1, instruction_parties _ _ _ _ _, rfl, ?_, ?_⟩
    · intro buy
      rw [if_pos buy] at crossing
      exact crossing
    · intro sell
      rw [if_neg (by simp [sell])] at crossing
      exact crossing
  · rw [quantities]
    exact fair.total
  · rw [List.map_map]
    exact fair.nodup_map MatchCandidate.orderId (distinct.sublist (List.filter_sublist.map _))
  · refine List.pairwise_map.mpr ((List.pairwise_map.mp fair.ordered).imp_of_mem ?_)
    intro p q inP inQ before a inA b inB sameA sameB
    rw [← eq_of_orderId distinct (listed p inP).1 inA sameA, ← eq_of_orderId distinct (listed q inQ).1 inB sameB,
      ← comparePriority_neg, comparePriority_swap incoming p.1 q.1]
    omega
  · intro i member r inR same better inBetter eligible _ strict worth
    obtain ⟨pick, inside, rfl⟩ := List.mem_map.mp member
    obtain rfl := eq_of_orderId distinct (listed pick inside).1 inR same
    refine used (fair.priority pick inside better (List.mem_filter.mpr ⟨inBetter, eligible⟩) ?_ worth)
    rw [← comparePriority_neg] at strict
    rw [comparePriority_swap incoming better pick.1]
    omega
  · rw [quantities]
    refine fair.maximal.imp id fun maximal r inR eligible crossing worth => ?_
    exact used (maximal r (List.mem_filter.mpr ⟨inR, eligible⟩) (decide_eq_true crossing) worth)

/-- A buyer of 10 against two sellers, one of whom is better and small. -/
theorem matchCandidates_correct_sample :
    matchCandidates 0 0 ⟨9, 1, .buy, 3 / 5, 10, 9⟩ [⟨1, 2, .sell, 3 / 5, 20, 1⟩, ⟨2, 3, .sell, 1 / 2, 4, 2⟩] =
        [instruction 0 0 ⟨9, 1, .buy, 3 / 5, 10, 9⟩ ⟨2, 3, .sell, 1 / 2, 4, 2⟩ 4,
          instruction 0 0 ⟨9, 1, .buy, 3 / 5, 10, 9⟩ ⟨1, 2, .sell, 3 / 5, 20, 1⟩ 6] ∧
      Correct 0 0 ⟨9, 1, .buy, 3 / 5, 10, 9⟩ [⟨1, 2, .sell, 3 / 5, 20, 1⟩, ⟨2, 3, .sell, 1 / 2, 4, 2⟩]
        (matchCandidates 0 0 ⟨9, 1, .buy, 3 / 5, 10, 9⟩ [⟨1, 2, .sell, 3 / 5, 20, 1⟩, ⟨2, 3, .sell, 1 / 2, 4, 2⟩]) :=
  ⟨by decide +kernel, matchCandidates_correct 0 0 _ (by decide)⟩

end PriceTimePriority

namespace CompleteSetMintEngine

variable {marketId outcomeAId outcomeBId : Nat} {incoming : MatchCandidate} {book : List MatchCandidate}

instance : Std.Total fun a b => comparePriority a b ≤ 0 :=
  ⟨fun a b => by simpa only [comparePriority_nonpos] using le_total _ _⟩

instance : IsTrans MatchCandidate fun a b => comparePriority a b ≤ 0 :=
  ⟨fun a b c => by simpa only [comparePriority_nonpos] using le_trans⟩

theorem pairs_downward (incoming : MatchCandidate) : Downward (fun a b => comparePriority a b ≤ 0)
    fun resting => decide (1 ≤ incoming.price + resting.price) := by
  intro a b before pairing
  rw [comparePriority_nonpos, rank_le_iff] at before
  rw [decide_eq_true_eq] at pairing ⊢
  unfold key at before
  rcases before with less | ⟨same, -⟩ <;> linarith

def isEligible (incoming resting : MatchCandidate) : Bool :=
  decide (resting.side = .buy) && decide (resting.userId ≠ incoming.userId)

theorem eligible_eq : eligible incoming book =
    (book.filter (isEligible incoming)).insertionSort fun a b => comparePriority a b ≤ 0 := by
  rw [eligible, List.filter_filter]
  congr 2
  funext resting
  rw [isEligible, Bool.and_comm]

theorem matchCandidates_eq : matchCandidates marketId outcomeAId outcomeBId incoming book =
    (sweep MatchCandidate.remainingQuantity (fun resting => decide (1 ≤ incoming.price + resting.price))
      incoming.remainingQuantity
      ((book.filter (isEligible incoming)).insertionSort fun a b => comparePriority a b ≤ 0)).map
        fun pick => instruction marketId outcomeAId outcomeBId incoming pick.1 pick.2 := by
  rw [matchCandidates, matchEligible_eq, eligible_eq]

def usesUp (marketId outcomeAId outcomeBId : Nat) (incoming resting : MatchCandidate) : MintInstruction :=
  instruction marketId outcomeAId outcomeBId incoming resting resting.remainingQuantity

def Ahead (a b : MatchCandidate) : Prop := b.price < a.price ∨ (a.price = b.price ∧ a.sequence < b.sequence)

theorem comparePriority_neg {a b : MatchCandidate} : comparePriority a b < 0 ↔ Ahead a b := by
  have swap := comparePriority_swap a b
  have order : comparePriority a b < 0 ↔ ¬ comparePriority b a ≤ 0 := by omega
  rw [order, comparePriority_nonpos, not_le, rank, rank, Prod.Lex.toLex_lt_toLex]
  simp [key, Ahead]

structure Parties (incoming resting : MatchCandidate) (i : MintInstruction) : Prop where
  -- the incoming bid is for the first outcome, the resting one for the other
  orderA : i.buyOrderAId = incoming.orderId
  buyerA : i.buyerAUserId = incoming.userId
  orderB : i.buyOrderBId = resting.orderId
  buyerB : i.buyerBUserId = resting.userId

structure Correct (marketId outcomeAId outcomeBId : Nat) (incoming : MatchCandidate) (book : List MatchCandidate)
    (instructions : List MintInstruction) : Prop where
  -- what the mint engine owes to the incoming bid and to each resting bid
  resting : ∀ i ∈ instructions, ∃ resting ∈ book,
    i = instruction marketId outcomeAId outcomeBId incoming resting i.quantity ∧
    0 < i.quantity ∧ i.quantity ≤ resting.remainingQuantity ∧ resting.side = .buy ∧ resting.userId ≠ incoming.userId ∧
    Parties incoming resting i ∧ i.priceB = resting.price ∧ i.priceA ≤ incoming.price
  prices : ∀ i ∈ instructions, i.priceA + i.priceB = 1 ∧ 0 < i.priceA ∧ i.priceA < 1 ∧ 0 < i.priceB ∧ i.priceB < 1
  total : (instructions.map MintInstruction.quantity).sum ≤ max incoming.remainingQuantity 0
  once : (instructions.map MintInstruction.buyOrderBId).Nodup
  ordered : instructions.Pairwise fun i j => ∀ a ∈ book, ∀ b ∈ book, i.buyOrderBId = a.orderId →
    j.buyOrderBId = b.orderId → ¬ Ahead b a
  priority : ∀ i ∈ instructions, ∀ used ∈ book, i.buyOrderBId = used.orderId → ∀ better ∈ book,
    isEligible incoming better = true → 1 - incoming.price ≤ better.price → Ahead better used →
    0 < better.remainingQuantity → usesUp marketId outcomeAId outcomeBId incoming better ∈ instructions
  maximal : (instructions.map MintInstruction.quantity).sum = max incoming.remainingQuantity 0 ∨
    ∀ r ∈ book, isEligible incoming r = true → 1 - incoming.price ≤ r.price → 0 < r.remainingQuantity →
      usesUp marketId outcomeAId outcomeBId incoming r ∈ instructions

theorem matchCandidates_correct_mints (marketId outcomeAId outcomeBId : Nat) (incoming : MatchCandidate)
    {book : List MatchCandidate} (distinct : (book.map MatchCandidate.orderId).Nodup)
    (priced : ∀ resting ∈ book, 0 < resting.price ∧ resting.price < 1) :
    Correct marketId outcomeAId outcomeBId incoming book
      (matchCandidates marketId outcomeAId outcomeBId incoming book) := by
  have fair := @sweep_fair _ MatchCandidate.remainingQuantity _ _ _ _ _ (pairs_downward incoming)
    incoming.remainingQuantity (book.filter (isEligible incoming))
  rw [matchCandidates_eq]
  generalize sweep _ _ _ _ = picks at fair
  have listed : ∀ pick ∈ picks, pick.1 ∈ book ∧ isEligible incoming pick.1 = true :=
    fun pick member => List.mem_filter.mp (fair.picked pick member).1
  have quantities : (picks.map fun pick => instruction marketId outcomeAId outcomeBId incoming pick.1 pick.2).map
      MintInstruction.quantity = picks.map Prod.snd := by
    rw [List.map_map]
    rfl
  have used : ∀ {r : MatchCandidate}, (r, r.remainingQuantity) ∈ picks →
      usesUp marketId outcomeAId outcomeBId incoming r ∈
        picks.map fun pick => instruction marketId outcomeAId outcomeBId incoming pick.1 pick.2 :=
    fun inside => List.mem_map.mpr ⟨_, inside, rfl⟩
  constructor
  · intro i member
    obtain ⟨pick, inside, rfl⟩ := List.mem_map.mp member
    obtain ⟨-, pairing, positive, enough⟩ := fair.picked pick inside
    obtain ⟨known, eligible⟩ := listed pick inside
    simp only [isEligible, Bool.and_eq_true, decide_eq_true_eq] at eligible
    rw [decide_eq_true_eq] at pairing
    exact ⟨pick.1, known, rfl, positive, enough, eligible.1, eligible.2, ⟨rfl, rfl, rfl, rfl⟩, rfl,
      sub_le_iff_le_add.mpr pairing⟩
  · intro i member
    obtain ⟨pick, inside, rfl⟩ := List.mem_map.mp member
    obtain ⟨positive, below⟩ := priced pick.1 (listed pick inside).1
    exact ⟨sub_add_cancel 1 pick.1.price, sub_pos.mpr below, sub_lt_self 1 positive, positive, below⟩
  · rw [quantities]
    exact fair.total
  · rw [List.map_map]
    exact fair.nodup_map MatchCandidate.orderId (distinct.sublist (List.filter_sublist.map _))
  · refine List.pairwise_map.mpr ((List.pairwise_map.mp fair.ordered).imp_of_mem ?_)
    intro p q inP inQ before a inA b inB sameA sameB
    rw [← eq_of_orderId distinct (listed p inP).1 inA sameA, ← eq_of_orderId distinct (listed q inQ).1 inB sameB,
      ← comparePriority_neg, comparePriority_swap p.1 q.1]
    omega
  · intro i member r inR same better inBetter eligible _ strict worth
    obtain ⟨pick, inside, rfl⟩ := List.mem_map.mp member
    obtain rfl := eq_of_orderId distinct (listed pick inside).1 inR same
    refine used (fair.priority pick inside better (List.mem_filter.mpr ⟨inBetter, eligible⟩) ?_ worth)
    rw [← comparePriority_neg] at strict
    rw [comparePriority_swap better pick.1]
    omega
  · rw [quantities]
    refine fair.maximal.imp id fun maximal r inR eligible pairing worth => ?_
    refine used (maximal r (List.mem_filter.mpr ⟨inR, eligible⟩) (decide_eq_true ?_) worth)
    exact sub_le_iff_le_add'.mp pairing

theorem matchCandidates_correct_mints_sample :
    matchCandidates 0 0 1 ⟨9, 1, .buy, 3 / 5, 10, 9⟩ [⟨1, 2, .buy, 2 / 5, 20, 1⟩, ⟨2, 3, .buy, 1 / 2, 4, 2⟩] =
        [instruction 0 0 1 ⟨9, 1, .buy, 3 / 5, 10, 9⟩ ⟨2, 3, .buy, 1 / 2, 4, 2⟩ 4,
          instruction 0 0 1 ⟨9, 1, .buy, 3 / 5, 10, 9⟩ ⟨1, 2, .buy, 2 / 5, 20, 1⟩ 6] ∧
      Correct 0 0 1 ⟨9, 1, .buy, 3 / 5, 10, 9⟩ [⟨1, 2, .buy, 2 / 5, 20, 1⟩, ⟨2, 3, .buy, 1 / 2, 4, 2⟩]
        (matchCandidates 0 0 1 ⟨9, 1, .buy, 3 / 5, 10, 9⟩ [⟨1, 2, .buy, 2 / 5, 20, 1⟩, ⟨2, 3, .buy, 1 / 2, 4, 2⟩]) :=
  ⟨by decide +kernel, matchCandidates_correct_mints 0 0 1 _ (by decide) (by decide +kernel)⟩

end CompleteSetMintEngine

end Matching

section Prefilter

variable {marketId outcomeId outcomeAId outcomeBId : Nat} {incoming : MatchCandidate} {book book' : List MatchCandidate}

def mintBound (incoming : MatchCandidate) : OrderBook.CrossingBound := .gte (1 - incoming.price)

def OrderBook.CrossingBound.select (bound : OrderBook.CrossingBound) (book : List MatchCandidate) : List MatchCandidate :=
  book.filter fun resting => bound.admits resting.price

theorem admits_crossingBound (incoming resting : MatchCandidate) :
    (ExecutionCoordinator.crossingBound incoming).admits resting.price =
      decide (PriceTimePriority.crosses incoming resting) := by
  unfold ExecutionCoordinator.crossingBound PriceTimePriority.crosses
  split <;> rfl

theorem admits_mintBound (incoming resting : MatchCandidate) :
    (mintBound incoming).admits resting.price = decide (1 ≤ incoming.price + resting.price) :=
  decide_eq_decide.mpr sub_le_iff_le_add'

theorem distinct_filter (distinct : (book.map MatchCandidate.sequence).Nodup) (keep : MatchCandidate → Bool) :
    ((book.filter keep).map MatchCandidate.sequence).Nodup :=
  distinct.sublist (List.filter_sublist.map _)

namespace PriceTimePriority

theorem matchCandidates_select (distinct : (book.map MatchCandidate.sequence).Nodup) :
    matchCandidates marketId outcomeId incoming ((ExecutionCoordinator.crossingBound incoming).select book) =
      matchCandidates marketId outcomeId incoming book := by
  have untied : ∀ a ∈ book.filter (isEligible incoming), ∀ b ∈ book.filter (isEligible incoming),
      comparePriority incoming a b ≤ 0 → comparePriority incoming b a ≤ 0 → a = b := by
    simp only [comparePriority_nonpos]
    exact rank_untied (distinct_filter distinct _)
  rw [matchCandidates_eq, matchCandidates_eq, OrderBook.CrossingBound.select, List.filter_comm]
  simp only [admits_crossingBound]
  rw [sweep_sort_filter (crosses_downward incoming) untied]

theorem matchCandidates_perm (distinct : (book.map MatchCandidate.sequence).Nodup) (perm : book.Perm book') :
    matchCandidates marketId outcomeId incoming book = matchCandidates marketId outcomeId incoming book' := by
  rw [matchCandidates_eq, matchCandidates_eq, sweep_sort_perm (perm.filter _)]
  simp only [comparePriority_nonpos]
  exact rank_untied (distinct_filter distinct _)

end PriceTimePriority

namespace CompleteSetMintEngine

theorem matchCandidates_select (distinct : (book.map MatchCandidate.sequence).Nodup) :
    matchCandidates marketId outcomeAId outcomeBId incoming ((mintBound incoming).select book) =
      matchCandidates marketId outcomeAId outcomeBId incoming book := by
  have untied : ∀ a ∈ book.filter (isEligible incoming), ∀ b ∈ book.filter (isEligible incoming),
      comparePriority a b ≤ 0 → comparePriority b a ≤ 0 → a = b := by
    simp only [comparePriority_nonpos]
    exact rank_untied (distinct_filter distinct _)
  rw [matchCandidates_eq, matchCandidates_eq, OrderBook.CrossingBound.select, List.filter_comm]
  simp only [admits_mintBound]
  rw [sweep_sort_filter (pairs_downward incoming) untied]

theorem matchCandidates_perm (distinct : (book.map MatchCandidate.sequence).Nodup) (perm : book.Perm book') :
    matchCandidates marketId outcomeAId outcomeBId incoming book =
      matchCandidates marketId outcomeAId outcomeBId incoming book' := by
  rw [matchCandidates_eq, matchCandidates_eq, sweep_sort_perm (perm.filter _)]
  simp only [comparePriority_nonpos]
  exact rank_untied (distinct_filter distinct _)

end CompleteSetMintEngine

namespace OrderBook

def getRestingSide (orders : Table Order) (marketId outcomeId : Nat) (side : OrderSide) : List MatchCandidate :=
  -- the query without a bound: the whole side
  let resting := orders.findMany fun order =>
    decide (order.marketId = marketId) && decide (order.outcomeId = outcomeId) &&
    decide (order.side = side) && order.isExecutable && order.price.isSome
  (resting.filterMap fun (orderId, order) => candidate orderId order).insertionSort
    fun a b => precedes side a b = true

theorem getRestingCandidates_perm (orders : Table Order) (side : OrderSide) (bound : CrossingBound) :
    (getRestingCandidates orders marketId outcomeId side bound).Perm
      (bound.select (getRestingSide orders marketId outcomeId side)) := by
  unfold getRestingCandidates getRestingSide CrossingBound.select
  refine (List.perm_insertionSort _ _).trans (List.Perm.trans ?_ ((List.perm_insertionSort _ _).filter _).symm)
  rw [List.filter_filterMap, Table.findMany, Table.findMany, List.filterMap_map, List.filterMap_map,
    List.filterMap_filter, List.filterMap_filter]
  refine List.Perm.of_eq (congrArg (fun f => List.filterMap f _) (funext ?_))
  rintro ⟨order, i⟩
  cases priced : order.price with
  | none => simp
  | some price => cases admitted : bound.admits price <;> simp [candidate, priced, admitted, Option.filter]

theorem getRestingSide_distinct (orders : Table Order) (side : OrderSide) :
    ((getRestingSide orders marketId outcomeId side).map MatchCandidate.sequence).Nodup := by
  have rows : orders.rows.zipIdx.Pairwise fun a b => a.1.sequence ≠ b.1.sequence := by
    have distinct := orders.distinct
    rw [← List.zipIdx_map_fst 0 orders.rows, List.pairwise_map] at distinct
    refine distinct.imp fun {a b} apart same => ?_
    simp [RowSpec.clash, same] at apart
  unfold getRestingSide
  refine (((List.perm_insertionSort _ _).map _).nodup_iff).mpr ?_
  refine List.pairwise_map.mpr (List.pairwise_filterMap.mpr (List.pairwise_map.mpr ((rows.filter _).imp ?_)))
  rintro ⟨a, i⟩ ⟨b, j⟩ apart a' readA b' readB
  simp only [Prod.swap_prod_mk, candidate, Option.map_eq_some_iff] at readA readB
  obtain ⟨_, -, rfl⟩ := readA
  obtain ⟨_, -, rfl⟩ := readB
  exact apart

end OrderBook

/-- For both engines, the bound of the query leaves out only what the engine would not use, and the order of the
candidates does not matter. -/
theorem prefilter_neutral (marketId outcomeId outcomeAId outcomeBId : Nat) (incoming : MatchCandidate)
    {book : List MatchCandidate} (distinct : (book.map MatchCandidate.sequence).Nodup) :
    PriceTimePriority.matchCandidates marketId outcomeId incoming
        ((ExecutionCoordinator.crossingBound incoming).select book) =
      PriceTimePriority.matchCandidates marketId outcomeId incoming book ∧
    CompleteSetMintEngine.matchCandidates marketId outcomeAId outcomeBId incoming ((mintBound incoming).select book) =
      CompleteSetMintEngine.matchCandidates marketId outcomeAId outcomeBId incoming book ∧
    (∀ book', book.Perm book' →
      PriceTimePriority.matchCandidates marketId outcomeId incoming book =
        PriceTimePriority.matchCandidates marketId outcomeId incoming book' ∧
      CompleteSetMintEngine.matchCandidates marketId outcomeAId outcomeBId incoming book =
        CompleteSetMintEngine.matchCandidates marketId outcomeAId outcomeBId incoming book') ∧
    ∀ (orders : Table Order) (m o : Nat) (side : OrderSide),
      PriceTimePriority.matchCandidates marketId outcomeId incoming
          (OrderBook.getRestingCandidates orders m o side (ExecutionCoordinator.crossingBound incoming)) =
        PriceTimePriority.matchCandidates marketId outcomeId incoming (OrderBook.getRestingSide orders m o side) ∧
      CompleteSetMintEngine.matchCandidates marketId outcomeAId outcomeBId incoming
          (OrderBook.getRestingCandidates orders m o side (mintBound incoming)) =
        CompleteSetMintEngine.matchCandidates marketId outcomeAId outcomeBId incoming
          (OrderBook.getRestingSide orders m o side) := by
  refine ⟨PriceTimePriority.matchCandidates_select distinct, CompleteSetMintEngine.matchCandidates_select distinct,
    fun book' perm => ⟨PriceTimePriority.matchCandidates_perm distinct perm,
      CompleteSetMintEngine.matchCandidates_perm distinct perm⟩, fun orders m o side => ?_⟩
  have whole := @OrderBook.getRestingSide_distinct m o orders side
  have perm := fun bound => @OrderBook.getRestingCandidates_perm m o orders side bound
  constructor
  · rw [← PriceTimePriority.matchCandidates_select whole]
    exact (PriceTimePriority.matchCandidates_perm (distinct_filter whole _) (perm _).symm).symm
  · rw [← CompleteSetMintEngine.matchCandidates_select whole]
    exact (CompleteSetMintEngine.matchCandidates_perm (distinct_filter whole _) (perm _).symm).symm

/-- The seller at 0.7 is left out by the bound of a buyer at 0.6. -/
theorem prefilter_neutral_sample :
    ((ExecutionCoordinator.crossingBound ⟨9, 1, .buy, 3 / 5, 10, 9⟩).select
        [⟨1, 2, .sell, 7 / 10, 20, 1⟩, ⟨2, 3, .sell, 1 / 2, 4, 2⟩]).length = 1 ∧
      PriceTimePriority.matchCandidates 0 0 ⟨9, 1, .buy, 3 / 5, 10, 9⟩
          ((ExecutionCoordinator.crossingBound ⟨9, 1, .buy, 3 / 5, 10, 9⟩).select
            [⟨1, 2, .sell, 7 / 10, 20, 1⟩, ⟨2, 3, .sell, 1 / 2, 4, 2⟩]) =
        PriceTimePriority.matchCandidates 0 0 ⟨9, 1, .buy, 3 / 5, 10, 9⟩
          [⟨1, 2, .sell, 7 / 10, 20, 1⟩, ⟨2, 3, .sell, 1 / 2, 4, 2⟩] :=
  ⟨by decide +kernel, (prefilter_neutral 0 0 0 1 _ (by decide)).1⟩

end Prefilter

end VerdictVaut

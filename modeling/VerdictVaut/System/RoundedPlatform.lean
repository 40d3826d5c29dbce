import VerdictVaut.Markets.Agreement
import VerdictVaut.System.Integrity
import VerdictVaut.Trading.MatchingAgreement
import VerdictVaut.Wallet.Agreement
import VerdictVaut.Wallet.WithdrawalsAgreement

set_option autoImplicit false

-- the platform with the rounding of `Prisma.Decimal` and of the columns, and where it rounds nothing
namespace VerdictVaut

open Relational Relational.Tx VerdictVaut.Core Decimals DepositsService WithdrawalsService

namespace Rounded

def tradingStep (s : Core × Desk) (action : TradingAction) : Core × Desk :=
  let (c, desk) := s
  match action with
  | .createOrder k now sequence =>
    match desk.placements[k]? with
    | some placement => (transact (OrdersService.create zeroFeeCalculator now placement sequence) c, desk)
    | none => (c, desk)
  | .cancelOrder userId orderId => (transact (OrdersService.cancel userId orderId) c, desk)
  | .readInstructions k =>
    match desk.incomings[k]? with
    | some incoming =>
      match observe (ExecutionCoordinator.readInstructions incoming) c with
      | some instructions => (c, { desk with instructions := desk.instructions ++ instructions })
      | none => (c, desk)
    | none => (c, desk)
  | .applyExecution k now =>
    match desk.instructions[k]? with
    | some instruction =>
      (transact (ExecutionCoordinator.applyExecution zeroFeeCalculator now instruction) c, desk)
    | none => (c, desk)
  | .readMintInstructions k =>
    match desk.mintIncomings[k]? with
    | some incoming =>
      match observe (ExecutionCoordinator.readMintInstructions incoming) c with
      | some instructions => (c, { desk with mintInstructions := desk.mintInstructions ++ instructions })
      | none => (c, desk)
    | none => (c, desk)
  | .applyMintExecution k now =>
    match desk.mintInstructions[k]? with
    | some instruction => (transact (ExecutionCoordinator.applyMintExecution now instruction) c, desk)
    | none => (c, desk)
  | .closeMarket marketId => (transact (MarketsService.close marketId) c, desk)
  | .settleOnePosition now positionId => (transact (SettlementService.settleOnePosition now positionId) c, desk)
  -- the other steps compute no amounts
  | action => VerdictVaut.tradingStep (c, desk) action

/-- `recordConfirmation` up to its crediting transaction. -/
def confirm (config : WalletConfig) (s : Platform) (withdrawalId : Nat) (confirmations requiredConfirmations : Int)
    (observed : Option ObservedChainTransaction) (watch : Option Watch) : Platform :=
  if confirmations < requiredConfirmations then s.transact (recordUnconfirmed withdrawalId) fun _ => []
  else
    match s.look (verifyConfirmation config withdrawalId observed) with
    | some true => { s with confirming := s.confirming ++ [{ withdrawalId := withdrawalId, watch := watch }] }
    | _ => s

def walletStep (config : WalletConfig) (s : Platform) : WalletAction → Platform
  | .recordObservedTransaction now input =>
    s.transact (recordObservedTransaction now input) fun _ => [.observed input]
  | .request k now =>
    match s.requests[k]? with
    | some prepared => s.transact (chargedRequest now prepared) fun _ => []
    | none => s
  | .cancel userId withdrawalId =>
    s.transact (Withdrawals.cancel userId withdrawalId) fun _ => [.moved withdrawalId .cancel]
  | .reject withdrawalId reason actorId =>
    s.transact (Withdrawals.reject withdrawalId reason actorId) fun _ => [.moved withdrawalId .reject]
  | .fail withdrawalId reason =>
    s.transact (Withdrawals.fail withdrawalId reason) fun _ => [.moved withdrawalId .fail]
  | .failProviderRejectedSubmission withdrawalId reason =>
    s.transact (Withdrawals.failProviderRejectedSubmission withdrawalId reason) fun failed =>
      if failed then [.moved withdrawalId .failProviderRejectedSubmission] else []
  | .checkOne k status requiredConfirmations =>
    match s.watched[k]? with
    | some watch =>
      match WithdrawalWatcherService.checkOne watch.txHash status requiredConfirmations with
      | .leave => s
      | .fail reason =>
        s.transact (Withdrawals.fail watch.withdrawalId reason) fun _ => [.moved watch.withdrawalId .fail]
      | .recordConfirmation confirmations required observed =>
        confirm config s watch.withdrawalId confirmations required (some observed) (some watch)
    | none => s
  | .recordConfirmation withdrawalId confirmations requiredConfirmations observed =>
    confirm config s withdrawalId confirmations requiredConfirmations observed none
  | .creditConfirmed k now =>
    match s.confirming[k]? with
    | some confirmation =>
      s.transact (creditConfirmed now confirmation.withdrawalId) fun credited =>
        if credited then [.moved confirmation.withdrawalId .creditConfirmed] else []
    | none => s
  -- the other steps write no amounts
  | action => s.walletStep config action

def perform (config : WalletConfig) (s : Platform) : VerdictVaut.Action → Platform
  | .trading action =>
    let (core, desk) := tradingStep (s.db.core, s.desk) action
    { s with db := { s.db with core := core }, desk := desk }
  | .wallet action => walletStep config s action

section Few

/-- What a step of trading reads has quantities of `places` digits after the point and prices of `digits`, and nothing is
larger than `most`. -/
def SmallTrading (places digits : ℕ) (most : ℚ) (s : Core × Desk) : TradingAction → Prop
  | .createOrder k _ _ => s.1.Few places digits most ∧
      ∀ placement ∈ s.2.placements[k]?, Ready.Placeable places digits most s.1 placement
  | .cancelOrder _ _ => s.1.Few places digits most
  | .readInstructions k => s.1.Few places digits most ∧
      ∀ incoming ∈ s.2.incomings[k]?, Figure places most incoming.candidate.remainingQuantity
  | .applyExecution k _ => s.1.Few places digits most ∧
      ∀ instruction ∈ s.2.instructions[k]?,
        Ready.Instructed places digits most instruction.quantity instruction.price
  | .readMintInstructions k => s.1.Few places digits most ∧
      ∀ incoming ∈ s.2.mintIncomings[k]?, Figure places most incoming.candidate.remainingQuantity
  | .applyMintExecution k _ => s.1.Few places digits most ∧
      ∀ instruction ∈ s.2.mintInstructions[k]?,
        Ready.Instructed places digits most instruction.quantity instruction.priceA ∧
        Ready.Instructed places digits most instruction.quantity instruction.priceB
  | .closeMarket _ => s.1.Few places digits most
  | .settleOnePosition _ _ => s.1.Few places digits most
  | _ => True

def SmallWallet (places : ℕ) (most : ℚ) (s : Platform) : WalletAction → Prop
  | .recordObservedTransaction _ input => DepositFits places most most input s.db
  | .request k now => ∀ prepared ∈ s.requests[k]?, RequestFits places most now prepared s.db
  | .cancel _ withdrawalId => s.db.core.ledger.EarmarkFits places most .withdrawal withdrawalId
  | .reject withdrawalId _ _ => s.db.core.ledger.EarmarkFits places most .withdrawal withdrawalId
  | .fail withdrawalId _ => s.db.core.ledger.EarmarkFits places most .withdrawal withdrawalId
  | .failProviderRejectedSubmission withdrawalId _ => s.db.core.ledger.EarmarkFits places most .withdrawal withdrawalId
  | .checkOne k status _ => ∀ watch ∈ s.watched[k]?,
      s.db.core.ledger.EarmarkFits places most .withdrawal watch.withdrawalId ∧
        ObservedFits places most watch.withdrawalId status.toObservedChainTransaction s.db
  | .recordConfirmation withdrawalId _ _ observed => ∀ chain ∈ observed, ObservedFits places most withdrawalId chain s.db
  | .creditConfirmed k _ => ∀ confirmation ∈ s.confirming[k]?, CaptureFits places most confirmation.withdrawalId s.db
  | _ => True

def Small (places digits : ℕ) (most : ℚ) (s : Platform) : VerdictVaut.Action → Prop
  | .trading action => SmallTrading places digits most (s.db.core, s.desk) action
  | .wallet action => SmallWallet (places + digits) most s action

/-- The digits after the point fit the columns, and twelve times the largest amount has at most twenty digits. -/
structure Scale (places digits : ℕ) (most : ℚ) : Prop where
  nonneg : 0 ≤ most
  prices : digits ≤ orderPriceMaxDecimals
  room : Room (places + digits) (12 * most)

def Few (s : Platform) (action : VerdictVaut.Action) : Prop :=
  ∃ places digits most, Scale places digits most ∧ Small places digits most s action

instance {places digits : ℕ} {most : ℚ} {s : Core × Desk} :
    ∀ action, Decidable (SmallTrading places digits most s action) := by
  intro action
  cases action <;> unfold SmallTrading <;> infer_instance

instance {places : ℕ} {most : ℚ} {s : Platform} : ∀ action, Decidable (SmallWallet places most s action) := by
  intro action
  cases action <;> unfold SmallWallet <;> infer_instance

instance {places digits : ℕ} {most : ℚ} {s : Platform} : ∀ action, Decidable (Small places digits most s action)
  | .trading action => inferInstanceAs (Decidable (SmallTrading places digits most (s.db.core, s.desk) action))
  | .wallet action => inferInstanceAs (Decidable (SmallWallet (places + digits) most s action))

end Few

end Rounded

section Exact

variable {c : Core} {s : Platform} {places digits : ℕ} {most : ℚ}

theorem Ordered.ready (ordered : Ordered c) (few : c.Few places digits most) : c.Ready places digits most most where
  funds :=
    { small := few.funds
      held := by
        -- what is reserved for an order is held by an account in the settlement currency, or by a position
        intro r member active isOrder
        have mine : r ∈ c.ledger.funds.forRef .order r.referenceId :=
          List.mem_filter.mpr ⟨member, Reserved.isFor_iff.mpr ⟨isOrder, rfl⟩⟩
        cases found : c.exchange.orders.get? r.referenceId with
        | none =>
          have outside : c.exchange.orders.size ≤ r.referenceId := List.getElem?_eq_none_iff.mp found
          rw [ordered.backing.noFunds _ outside] at mine
          cases mine
        | some order =>
          have backed := ordered.backing.orders _ order found
          cases side : order.side with
          | buy =>
            obtain ⟨-, r', only, -, held⟩ := backed.buy side
            rw [only] at mine
            cases List.mem_singleton.mp mine
            obtain ⟨account, asset, there, -, settles⟩ := held.account
            exact ⟨account, there, asset, settles⟩
          | sell =>
            rw [(backed.sell side).1] at mine
            cases mine }
  shares :=
    { small := few.shares
      held := fun r member _ _ =>
        ⟨_, List.getElem?_eq_getElem (ordered.backing.agrees.held r member), trivial⟩ }
  orders := few.orders

theorem transact_agree {α : Type} {Q : α → Core → Prop} {x y : Tx Core Fault α} (agree : Agree Q x y c) :
    transact x c = transact y c := by
  unfold transact commit
  rw [(runTransaction_agree agree).same]

theorem observe_agree {α : Type} {Q : α → Core → Prop} {x y : Tx Core Fault α} (agree : Agree Q x y c) :
    observe x c = observe y c := by
  unfold observe
  rw [agree.same]

namespace Rounded

namespace Scale

variable (scale : Scale places digits most)

include scale

theorem times {k : ℚ} (le : k ≤ 12 * most) : Room (places + digits) k := scale.room.smaller le

theorem tight : Room places most := (scale.times (by linarith [scale.nonneg])).coarser (Nat.le_add_right _ _)

end Scale

theorem incoming_fits (orders : OrdersFit places digits most c.exchange.orders) {marketId outcomeId : Nat}
    {candidate : MatchCandidate} {order : Order}
    (mine : ExecutionCoordinator.CandidateOf c.exchange.orders marketId outcomeId candidate order)
    (figure : Figure places most candidate.remainingQuantity) : candidate.Fits places digits most := by
  -- the candidates of the calls in flight have the prices of their orders
  obtain ⟨positive, below⟩ := mine.valid
  have price := (orders order (Table.get?_mem mine.found)).1
  rw [mine.price] at price
  exact ⟨figure, .of_le price positive.le below.le, positive.le⟩

theorem tradingStep_eq (ordered : Ordered c) {desk : Desk} (fits : DeskFits c desk) (scale : Scale places digits most)
    {action : TradingAction} (small : SmallTrading places digits most (c, desk) action) :
    tradingStep (c, desk) action = VerdictVaut.tradingStep (c, desk) action := by
  have nonneg := scale.nonneg
  cases action with
  | createOrder k now sequence =>
    obtain ⟨few, placeable⟩ := small
    dsimp only [tradingStep, VerdictVaut.tradingStep]
    cases found : desk.placements[k]? with
    | none => rfl
    | some placement =>
      have funded := (fits.placements placement (List.mem_of_getElem? found)).1
      have agree := Ready.create_agree (ordered.ready few) (placeable placement found) (scale.times (by linarith)) funded now sequence
      dsimp only
      rw [transact_agree agree]
  | cancelOrder userId orderId =>
    have agree := (ordered.ready small).cancel_agree (scale.times (by linarith)) userId orderId
    dsimp only [tradingStep, VerdictVaut.tradingStep]
    rw [transact_agree agree]
  | readInstructions k =>
    obtain ⟨few, figure⟩ : c.Few places digits most ∧ _ := small
    dsimp only [tradingStep, VerdictVaut.tradingStep]
    cases found : desk.incomings[k]? with
    | none => rfl
    | some incoming =>
      obtain ⟨order, mine⟩ := fits.incomings incoming (List.mem_of_getElem? found)
      have candidate := incoming_fits few.orders mine (figure incoming found)
      dsimp only
      rw [observe_agree (readInstructions_agree few.orders scale.tight candidate)] <;> rfl
  | applyExecution k now =>
    obtain ⟨few, instructed⟩ := small
    dsimp only [tradingStep, VerdictVaut.tradingStep]
    cases found : desk.instructions[k]? with
    | none => rfl
    | some instruction =>
      have agree := Ready.applyExecution_agree (ordered.ready few) (instructed instruction found) nonneg scale.tight
        (scale.times (by linarith)) now
      dsimp only
      rw [transact_agree agree]
  | readMintInstructions k =>
    obtain ⟨few, figure⟩ : c.Few places digits most ∧ _ := small
    dsimp only [tradingStep, VerdictVaut.tradingStep]
    cases found : desk.mintIncomings[k]? with
    | none => rfl
    | some incoming =>
      obtain ⟨-, -, ⟨order, mine⟩, -⟩ := fits.mintIncomings incoming (List.mem_of_getElem? found)
      have candidate := incoming_fits few.orders mine (figure incoming found)
      dsimp only
      rw [observe_agree (readMintInstructions_agree few.orders scale.tight scale.prices candidate)] <;> rfl
  | applyMintExecution k now =>
    obtain ⟨few, instructed⟩ := small
    dsimp only [tradingStep, VerdictVaut.tradingStep]
    cases found : desk.mintInstructions[k]? with
    | none => rfl
    | some instruction =>
      obtain ⟨first, second⟩ := instructed instruction found
      have agree := Ready.applyMintExecution_agree (ordered.ready few) first second nonneg scale.tight
        (scale.times (by linarith)) now
      dsimp only
      rw [transact_agree agree]
  | closeMarket marketId =>
    have agree := (ordered.ready small).close_agree (scale.times (by linarith)) marketId
    dsimp only [tradingStep, VerdictVaut.tradingStep]
    rw [transact_agree agree]
  | settleOnePosition now positionId =>
    have agree := Ready.settleOnePosition_agree ordered.solvent (ordered.ready small) (scale.times (by linarith)) nonneg now
      positionId
    dsimp only [tradingStep, VerdictVaut.tradingStep]
    rw [transact_agree agree]
  | _ => rfl

section Wallet

theorem platformTransact_agree {α : Type} {Q : α → Db → Prop} {x y : Tx Db Fault α} (agree : Agree Q x y s.db)
    (events : α → List Event) : s.transact x events = s.transact y events := by
  simp only [Platform.transact, Platform.attempt, (runTransaction_agree agree).same]

theorem confirm_eq (config : WalletConfig) {withdrawalId : Nat} {observed : Option ObservedChainTransaction}
    (room : Room places (3 * most)) (fits : ∀ chain ∈ observed, ObservedFits places most withdrawalId chain s.db)
    (confirmations requiredConfirmations : Int) (watch : Option Watch) :
    confirm config s withdrawalId confirmations requiredConfirmations observed watch =
      s.confirm config withdrawalId confirmations requiredConfirmations observed watch := by
  have same : s.look (verifyConfirmation config withdrawalId observed) =
      s.look (WithdrawalsService.verifyConfirmation config withdrawalId observed) := by
    cases observed with
    | none => rfl
    | some chain => simp only [Platform.look, (verifyConfirmation_agree (fits chain rfl) room config).same]
  rw [confirm, Platform.confirm, same] <;> rfl

theorem walletStep_eq (config : WalletConfig) (room : Room places (12 * most)) (nonneg : 0 ≤ most) {action : WalletAction}
    (small : SmallWallet places most s action) : walletStep config s action = s.walletStep config action := by
  have few {k : ℚ} (le : k ≤ 12 * most) : Room places k := room.smaller le
  cases action with
  | recordObservedTransaction now input =>
    exact platformTransact_agree (recordObservedTransaction_agree small (few (by linarith)) nonneg) _
  | request k now =>
    dsimp only [walletStep, Platform.walletStep]
    cases found : s.requests[k]? with
    | none => rfl
    | some prepared => exact platformTransact_agree (request_agree (small prepared found) (few (by linarith))) _
  | cancel userId withdrawalId => exact platformTransact_agree (cancel_agree small (few (by linarith)) userId) _
  | reject withdrawalId reason actorId =>
    exact platformTransact_agree (reject_agree small (few (by linarith)) reason actorId) _
  | fail withdrawalId reason => exact platformTransact_agree (fail_agree small (few (by linarith)) reason) _
  | failProviderRejectedSubmission withdrawalId reason =>
    exact platformTransact_agree (failProviderRejectedSubmission_agree small (few (by linarith)) reason) _
  | checkOne k status required =>
    dsimp only [walletStep, Platform.walletStep]
    cases found : s.watched[k]? with
    | none => rfl
    | some watch =>
      obtain ⟨earmark, observed⟩ := small watch found
      unfold WithdrawalWatcherService.checkOne
      cases status.status with
      | notFound => rfl
      | failed => exact platformTransact_agree (fail_agree earmark (few (by linarith)) _) _
      | pending | confirmed => exact confirm_eq config (few (by linarith)) (fun _ same => Option.some.inj same ▸ observed) _ _ _
  | recordConfirmation withdrawalId confirmations required observed =>
    exact confirm_eq config (few (by linarith)) small confirmations required none
  | creditConfirmed k now =>
    dsimp only [walletStep, Platform.walletStep]
    cases found : s.confirming[k]? with
    | none => rfl
    | some confirmation =>
      exact platformTransact_agree (creditConfirmed_agree (small confirmation found) (few (by linarith)) nonneg now) _
  | _ => rfl

end Wallet

variable {config : WalletConfig}

/-- A step that rounds nothing is one of the platform in exact arithmetic. -/
theorem perform_eq (config : WalletConfig) (integrity : Platform.Integrity s) {action : VerdictVaut.Action}
    (few : Few s action) : perform config s action = s.step config action := by
  obtain ⟨places, digits, most, scale, small⟩ := few
  cases action with
  | trading action =>
    have same := tradingStep_eq integrity.settleable.ordered integrity.fits scale small
    simp only [perform, Platform.step, same]
  | wallet action => exact walletStep_eq config scale.room scale.nonneg small

/-- The states of the platform with rounding that are reached by steps that round nothing. -/
def Reached (config : WalletConfig) : Platform → Prop :=
  Guarded (fun s => ∃ seed, s = Platform.initial seed) Few (perform config)

theorem Reached.exact (reached : Reached config s) : Platform.Reached config s := by
  refine Guarded.invariant (Platform.Reached config) (fun _ started => .refl started) ?_ reached
  intro s action _ few earlier
  rw [perform_eq config earlier.integrity few]
  exact earlier.tail action

theorem Reached.foldl_eq (reached : Reached config s) {actions : List VerdictVaut.Action}
    (allowed : Allowed Few (perform config) s actions) :
    actions.foldl (perform config) s = actions.foldl (Platform.step config) s := by
  induction actions generalizing s with
  | nil => rfl
  | cons action rest ih =>
    rw [List.foldl_cons, ih (reached.tail action allowed.1) allowed.2, List.foldl_cons,
      perform_eq config reached.exact.integrity allowed.1]

end Rounded

end Exact

end VerdictVaut

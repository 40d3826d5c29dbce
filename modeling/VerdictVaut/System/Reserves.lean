import VerdictVaut.System.Journal
import VerdictVaut.System.WithdrawalRuns

set_option autoImplicit false

namespace VerdictVaut

open Relational Relational.Tx VerdictVaut.Core ExecutionCoordinator

section Reserves

def postedIn (l : Ledger) (assetId : Nat) (ledgerTransactionId : Option Nat) : Bool :=
  -- the stored transaction moves this asset
  (ledgerTransactionId.bind l.transactions.get?).any fun t => decide (t.assetId = assetId)

def received (db : Db) (assetId : Nat) : ℚ :=
  -- what came in from the chain, and what went out to it
  sumWhere (fun d => decide (d.status = .credited) && postedIn db.core.ledger assetId d.ledgerTransactionId)
    Deposit.amount db.wallet.deposits.rows

def sent (db : Db) (assetId : Nat) : ℚ :=
  sumWhere (fun w => decide (w.status = .credited) &&
      (db.wallet.assetNetworks.get? w.assetNetworkId).any fun network => decide (network.assetId = assetId))
    (fun w => w.amount - w.fee) db.wallet.withdrawals.rows

def claimsOn (assetId : Nat) (owner : AccountRef) (asset : Nat) : Bool :=
  -- the accounts of one asset that are not the chain's own
  decide (owner ≠ .house .externalChain) && decide (asset = assetId)

/-- Everything the platform owes, in every asset, is what it has received and not yet sent; and no account's claim is
negative, so no group of accounts is owed more than that. -/
structure FullyReserved (db : Db) : Prop where
  owed : ∀ assetId, Ledger.held (claimsOn assetId) db.core.ledger = received db assetId - sent db assetId
  nonneg : ∀ account ∈ db.core.ledger.accounts.rows, account.owner ≠ .house .externalChain → 0 ≤ account.cachedBalance
  covered : ∀ assetId (claims : AccountRef → Bool), claims (.house .externalChain) = false →
    Ledger.held (fun owner asset => claims owner && decide (asset = assetId)) db.core.ledger ≤
      received db assetId - sent db assetId

variable {fees : FeeCalculator} {config : WalletConfig} {s : Platform} {db : Db}

def onAccount (ref : AccountRef) (postings : List Ledger.Posting) : ℚ :=
  sumWhere (fun posting => decide (posting.account = ref)) Ledger.Posting.amount postings

theorem posted_only (ref : AccountRef) (asset assetId : Nat) (postings : List Ledger.Posting) :
    Ledger.posted (Ledger.only ref asset) assetId postings = if assetId = asset then onAccount ref postings else 0 := by
  unfold Ledger.posted onAccount
  by_cases same : assetId = asset
  · simp [Ledger.only, same]
  · rw [if_neg same]
    apply sumWhere_eq_zero
    intro posting _
    simp [share, Ledger.only, same]

-- what the postings of each kind of row bring the house's accounts
theorem fillPostings_house (fill : Fill) (key : HouseAccountKey) :
    onAccount (.house key) (fillPostings fees fill) = if key = .feeRevenue then fillFee fees fill else 0 := by
  unfold fillFee
  by_cases free : (fees.calculateFillFee (fillFeeContext fill.instruction fill.quantity)).buyerFee +
      (fees.calculateFillFee (fillFeeContext fill.instruction fill.quantity)).sellerFee = 0
  · cases key <;> simp [onAccount, fillPostings, tradePostings, share, free]
  · cases key <;> simp [onAccount, fillPostings, tradePostings, share, free]

theorem setPostings_house (mint : CompleteSetMint) (key : HouseAccountKey) :
    onAccount (.house key) (setPostings mint) = 0 := by
  simp [onAccount, setPostings, mintPostings, share]

theorem settlementPostings_house (settlement : PositionSettlement) (key : HouseAccountKey) :
    onAccount (.house key) (settlementPostings settlement) = 0 := by
  simp [onAccount, settlementPostings, share]

theorem creditPostings_house (deposit : Deposit) (key : HouseAccountKey) :
    onAccount (.house key) (creditPostings deposit) = if key = .externalChain then -deposit.amount else 0 := by
  cases key <;> simp [onAccount, creditPostings, share]

theorem capturePostings_house (w : Withdrawal) (key : HouseAccountKey) :
    onAccount (.house key) (WithdrawalsService.capturePostings w) =
      if key = .externalChain then w.amount - w.fee else if key = .feeRevenue then w.fee else 0 := by
  by_cases free : w.fee = 0
  · cases key <;> simp [onAccount, WithdrawalsService.capturePostings, share, free]
  · cases key <;> simp [onAccount, WithdrawalsService.capturePostings, share, free]

theorem postingsOf_chain (t : LedgerTransaction) (deposit : t.referenceType ≠ .deposit)
    (withdrawal : t.referenceType ≠ .withdrawal) : onAccount (.house .externalChain) (postingsOf fees db t) = 0 := by
  -- a transaction that is about no deposit and no withdrawal moves nothing on the chain's account
  have none : onAccount (.house .externalChain) [] = 0 := rfl
  unfold postingsOf
  cases kind : t.referenceType with
  | fill =>
    cases db.core.exchange.fills.get? t.referenceId with
    | none => exact none
    | some fill => exact fillPostings_house fill _
  | completeSetMint =>
    cases db.core.exchange.mints.get? t.referenceId with
    | none => exact none
    | some mint => exact setPostings_house mint _
  | position =>
    cases db.core.exchange.positionSettlements.find? (isSettlementOf t.referenceId) with
    | none => exact none
    | some found => exact settlementPostings_house found.2 _
  | deposit => exact absurd kind deposit
  | withdrawal => exact absurd kind withdrawal
  | order => exact none

theorem postingsOf_house (charged : ∀ fill ∈ db.core.exchange.fills.rows, fill.fee = fillFee fees fill)
    (t : LedgerTransaction) {key : HouseAccountKey} (own : key ≠ .externalChain) :
    0 ≤ onAccount (.house key) (postingsOf fees db t) := by
  have none : 0 ≤ onAccount (.house key) [] := le_rfl
  unfold postingsOf
  cases t.referenceType with
  | fill =>
    cases found : db.core.exchange.fills.get? t.referenceId with
    | none => exact none
    | some fill =>
      have valid := Table.check_of_get? found
      simp only [RowSpec.check, Bool.and_eq_true, decide_eq_true_eq] at valid
      have fee : 0 ≤ fillFee fees fill := by
        rw [← charged fill (Table.get?_mem found)]
        exact valid.1.1.2
      simp only [Option.map_some, Option.getD_some, fillPostings_house]
      split
      · exact fee
      · exact le_rfl
  | completeSetMint =>
    cases db.core.exchange.mints.get? t.referenceId with
    | none => exact none
    | some mint => exact (setPostings_house mint key).ge
  | position =>
    cases db.core.exchange.positionSettlements.find? (isSettlementOf t.referenceId) with
    | none => exact none
    | some found => exact (settlementPostings_house found.2 key).ge
  | deposit =>
    cases db.wallet.deposits.get? t.referenceId with
    | none => exact none
    | some deposit =>
      simp only [Option.map_some, Option.getD_some, creditPostings_house, if_neg own]
      exact le_rfl
  | withdrawal =>
    cases found : db.wallet.withdrawals.get? t.referenceId with
    | none => exact none
    | some w =>
      have valid := Table.check_of_get? found
      simp only [RowSpec.check, Bool.and_eq_true, decide_eq_true_eq] at valid
      simp only [Option.map_some, Option.getD_some, capturePostings_house, if_neg own]
      split
      · exact valid.1.1.2
      · exact le_rfl
  | order => exact none

def chainShare (fees : FeeCalculator) (db : Db) (assetId : Nat) (t : LedgerTransaction) : ℚ :=
  -- what a stored transaction brings the chain's account in one asset
  if t.assetId = assetId then onAccount (.house .externalChain) (postingsOf fees db t) else 0

theorem Journaled.chain_kind (journaled : Journaled fees db) (kind : ReferenceType) (assetId : Nat) {n : Nat}
    {total : Nat → ℚ} (bound : ∀ id, MovesMoney db kind id → id < n)
    (each : ∀ id, id < n →
      ((db.core.ledger.transactionsFor kind id).map (chainShare fees db assetId)).sum = total id) :
    sumWhere (fun t => decide (t.referenceType = kind)) (chainShare fees db assetId) db.core.ledger.transactions.rows =
      ∑ id ∈ Finset.range n, total id := by
  rw [Ledger.sumWhere_kind kind]
  · apply Finset.sum_congr rfl
    intro id inside
    exact each id (Finset.mem_range.mp inside)
  · rintro t member rfl
    apply bound
    apply (journaled.complete _ _).mp
    exact List.ne_nil_of_mem (List.mem_filter.mpr ⟨member, by simp⟩)

theorem Platform.Integrity.deposits_chain (integrity : s.Integrity) (journaled : Journaled fees s.db) (assetId : Nat) :
    sumWhere (fun t => decide (t.referenceType = .deposit)) (chainShare fees s.db assetId)
      s.db.core.ledger.transactions.rows = -received s.db assetId := by
  rw [received, sumWhere_rows _ _ s.db.wallet.deposits, ← Finset.sum_neg_distrib]
  apply journaled.chain_kind
  · rintro id ⟨deposit, found, -⟩
    exact Table.get?_lt found
  · intro id inside
    have found := List.getElem?_eq_getElem inside
    obtain ⟨deposit, found⟩ : ∃ deposit, s.db.wallet.deposits.get? id = some deposit := ⟨_, found⟩
    rw [found]
    by_cases credited : deposit.status = .credited
    · obtain ⟨k, t, linked, one, -, posted⟩ := (integrity.crediting.credited id deposit found credited).posted
      have about : t.referenceType = .deposit ∧ t.referenceId = id := by
        have member : t ∈ s.db.core.ledger.transactionsFor .deposit id := by simp [one]
        simpa using (List.mem_filter.mp member).2
      have postings : postingsOf fees s.db t = creditPostings deposit := by
        rw [postingsOf, about.1, about.2]
        simp [found]
      by_cases same : t.assetId = assetId
      · simp [one, chainShare, postings, creditPostings_house, share, credited, postedIn, linked, posted.found, same]
      · simp [one, chainShare, share, credited, postedIn, linked, posted.found, same]
    · have none := integrity.crediting.uncredited id fun other found' => by
        rw [found] at found'
        cases found'
        exact credited
      simp [none, share, credited]

theorem Platform.Integrity.withdrawals_chain (integrity : s.Integrity) (journaled : Journaled fees s.db) (assetId : Nat) :
    sumWhere (fun t => decide (t.referenceType = .withdrawal)) (chainShare fees s.db assetId)
      s.db.core.ledger.transactions.rows = sent s.db assetId := by
  rw [sent, sumWhere_rows _ _ s.db.wallet.withdrawals]
  apply journaled.chain_kind
  · rintro id ⟨w, found, -⟩
    exact Table.get?_lt found
  · intro id inside
    have found := List.getElem?_eq_getElem inside
    obtain ⟨w, found⟩ : ∃ w, s.db.wallet.withdrawals.get? id = some w := ⟨_, found⟩
    have settled := integrity.custody.withdrawals id w found
    rw [found]
    by_cases credited : w.status = .credited
    · obtain ⟨k, t, one, -⟩ := (settled.paid credited).posted
      have member : t ∈ s.db.core.ledger.transactionsFor .withdrawal id := by simp [one]
      obtain ⟨stored, about⟩ := List.mem_filter.mp member
      simp only [Bool.and_eq_true, decide_eq_true_eq] at about
      have postings : postingsOf fees s.db t = WithdrawalsService.capturePostings w := by
        rw [postingsOf, about.1, about.2]
        simp [found]
      obtain ⟨w', network, found', ofNetwork, ofAsset⟩ := (journaled.stored t stored).networkAsset about.1
      rw [about.2, found] at found'
      cases found'
      by_cases same : t.assetId = assetId
      · simp [one, chainShare, postings, capturePostings_house, share, credited, ofNetwork, ← ofAsset, same]
      · simp [one, chainShare, share, credited, ofNetwork, ← ofAsset, same]
    · simp [settled.unpaid credited, share, credited]

theorem Platform.Integrity.chain (integrity : s.Integrity) (journaled : Journaled fees s.db) (assetId : Nat) :
    Ledger.balanceOf s.db.core.ledger (.house .externalChain) assetId = sent s.db assetId - received s.db assetId := by
  have whole : Ledger.balanceOf s.db.core.ledger (.house .externalChain) assetId =
      sumWhere (fun _ => true) (chainShare fees s.db assetId) s.db.core.ledger.transactions.rows := by
    rw [Ledger.balanceOf, journaled.balances]
    simp only [posted_only]
    rfl
  have split : ∀ t ∈ s.db.core.ledger.transactions.rows, share (fun _ => true) (chainShare fees s.db assetId) t =
      share (fun t => decide (t.referenceType = .deposit)) (chainShare fees s.db assetId) t +
        share (fun t => decide (t.referenceType = .withdrawal)) (chainShare fees s.db assetId) t := by
    intro t _
    by_cases deposit : t.referenceType = .deposit
    · simp [share, deposit]
    · by_cases withdrawal : t.referenceType = .withdrawal
      · simp [share, withdrawal]
      · simp [share, deposit, withdrawal, chainShare, postingsOf_chain t deposit withdrawal]
  rw [whole, sumWhere_split _ _ _ split, integrity.deposits_chain journaled, integrity.withdrawals_chain journaled]
  ring

theorem Journaled.account_nonneg (journaled : Journaled fees db) {account : LedgerAccount}
    (member : account ∈ db.core.ledger.accounts.rows) (own : account.owner ≠ .house .externalChain) :
    0 ≤ account.cachedBalance := by
  rw [← Ledger.balanceOf_eq member]
  cases owner : account.owner with
  | user userId => exact Ledger.balanceOf_nonneg rfl _
  | market marketId => exact Ledger.balanceOf_nonneg rfl _
  | house key =>
    have other : key ≠ .externalChain := by
      rintro rfl
      exact own owner
    rw [Ledger.balanceOf, journaled.balances]
    apply sumWhere_nonneg
    intro t _
    have gained := postingsOf_house journaled.charged t other
    simp only [share, if_true, posted_only]
    split
    · exact gained
    · exact le_rfl

/-- The platform never owes more than it has received and not sent on. -/
theorem reached_fullyReserved (reserve : fees.Reserves) (reached : Platform.ReachedUnder fees config s) :
    FullyReserved s.db := by
  have integrity := Platform.ReachedUnder.integrity reserve reached
  have journal := Platform.ReachedUnder.journal reserve reached
  have journaled := integrity.journaled journal (Platform.ReachedUnder.booked reserve reached)
    (Platform.ReachedUnder.fillsNamed reserve reached)
  have owed (assetId : Nat) : Ledger.held (claimsOn assetId) s.db.core.ledger = received s.db assetId - sent s.db assetId := by
    have zero := integrity.settleable.ordered.sound.books.zeroSum assetId
    have split : Ledger.held (Ledger.ofAsset assetId) s.db.core.ledger = Ledger.held (claimsOn assetId) s.db.core.ledger +
        Ledger.balanceOf s.db.core.ledger (.house .externalChain) assetId := by
      apply sumWhere_split
      intro account _
      by_cases chain : account.owner = .house .externalChain
      · simp [share, Ledger.ofAsset, claimsOn, Ledger.only, chain]
      · simp [share, Ledger.ofAsset, claimsOn, Ledger.only, chain]
    rw [integrity.chain journaled] at split
    linarith
  refine ⟨owed, fun account member own => journaled.account_nonneg member own, ?_⟩
  intro assetId claims outside
  rw [← owed assetId]
  apply sumWhere_mono
  intro account member
  by_cases chain : account.owner = .house .externalChain
  · simp [share, claimsOn, chain, outside]
  · have nonneg := journaled.account_nonneg member chain
    by_cases ofAsset : account.assetId = assetId
    · cases claimed : claims account.owner with
      | false => simpa [share, claimsOn, chain, ofAsset, claimed] using nonneg
      | true => simp [share, claimsOn, chain, ofAsset, claimed]
    · simp [share, claimsOn, ofAsset]

theorem creditedWithdrawal_fullyReserved :
    received (Platform.afterUnder percentFees creditedWithdrawal).db 0 = 100 ∧
    sent (Platform.afterUnder percentFees creditedWithdrawal).db 0 = 49 ∧
    FullyReserved (Platform.afterUnder percentFees creditedWithdrawal).db :=
  ⟨by decide +kernel, by decide +kernel,
    reached_fullyReserved percentFees_funded.reserves (Reachable.foldl (.refl ⟨.sample, rfl⟩) _)⟩

end Reserves

end VerdictVaut

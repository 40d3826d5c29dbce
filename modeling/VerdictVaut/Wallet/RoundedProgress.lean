import VerdictVaut.Ledger.RoundedProgress
import VerdictVaut.Wallet.Rounded

set_option autoImplicit false

-- when the transaction that credits a confirmed withdrawal commits
namespace VerdictVaut.Rounded

open Relational Relational.Tx Decimals Db WithdrawalsService
open Ledger (balanceOf reservedOf reservedOf_eq only ofTransaction Posting)

section Capture

def leftReserved (holder : LedgerAccount) (r : Reservation) : ℚ :=
  Decimal.column (Decimal.minus holder.reservedBalance (Decimal.minus r.amount r.consumedAmount))

/-- The withdrawal's reservation can be captured, if it has one: its holder's row may hold what is left. -/
def Capturable (l : Ledger) (withdrawalId : Nat) : Prop :=
  ∀ k r, l.funds.reservations.find? (Reserved.activeFor .withdrawal withdrawalId) = some (k, r) →
    ∃ holder, l.accounts.get? r.holderId = some holder ∧ |leftReserved holder r| < 10 ^ 18 ∧
      LedgerAccount.check { holder with reservedBalance := leftReserved holder r } = true

def reservedAfterCapture (l : Ledger) (withdrawalId : Nat) (ref : AccountRef) (assetId : Nat) : ℚ :=
  match l.funds.reservations.find? (Reserved.activeFor .withdrawal withdrawalId) with
  | some (_, r) =>
    match l.accounts.get? r.holderId with
    | some holder =>
      if holder.owner = ref ∧ holder.assetId = assetId then leftReserved holder r else reservedOf l ref assetId
    | none => reservedOf l ref assetId
  | none => reservedOf l ref assetId

variable {s s' : Reserved LedgerAccount} {k : Nat} {r : Reservation}

theorem capture_writes {captured : Bool} (found : s.reservations.get? k = some r) (active : r.status = .active)
    (done : (capture k).run s = .ok (captured, s')) :
    ∃ holder, s.holders.get? r.holderId = some holder ∧ |leftReserved holder r| < 10 ^ 18 ∧
      LedgerAccount.check { holder with reservedBalance := leftReserved holder r } = true ∧
      s'.holders.rows = s.holders.rows.set r.holderId { holder with reservedBalance := leftReserved holder r } := by
  unfold capture transition at done
  rw [run_bind_of_ok (run_read _ _), found] at done
  simp only [active, if_true, run_bind_ok, run_update_ok, run_getOrThrow_ok, run_write_ok] at done
  obtain ⟨_, _, ⟨t, updated, rfl⟩, holder, _, ⟨held, rfl⟩, left, _, ⟨small, rfl, rfl⟩, _, _, ⟨t', rewritten, rfl⟩, same⟩ := done
  cases same
  obtain ⟨-, valid, -, rows⟩ := Table.update_ok rewritten
  exact ⟨holder, held, small, valid, rows⟩

theorem capture_succeeds {holder : LedgerAccount} (found : s.reservations.get? k = some r) (active : r.status = .active)
    (held : s.holders.get? r.holderId = some holder) (small : |leftReserved holder r| < 10 ^ 18)
    (valid : LedgerAccount.check { holder with reservedBalance := leftReserved holder r } = true) :
    ∃ s', (capture k).run s = .ok (true, s') := by
  obtain ⟨reservations, updated, -⟩ := @Table.update_eq_ok _ _ s.reservations k { r with status := .captured }
    (Table.get?_lt found)
    (by
      have valid := Table.check_of_get? found
      exact valid)
    (by
      intro j other different position
      have apart := Table.clash_of_ne found position (Ne.symm different)
      exact apart)
  obtain ⟨holders, rewritten, -⟩ := @Table.update_eq_ok _ _ s.holders r.holderId
    { holder with reservedBalance := leftReserved holder r } (Table.get?_lt held) valid (by
      intro j other different position
      have apart := Table.clash_of_ne held position (Ne.symm different)
      exact apart)
  refine ⟨{ holders := holders, reservations := reservations }, ?_⟩
  unfold capture transition
  rw [run_bind_of_ok (run_read _ _), found]
  simp only [active, if_true, run_bind_ok, run_update_ok, run_getOrThrow_ok, run_write_ok]
  exact ⟨(), _, ⟨reservations, updated, rfl⟩, holder, _, ⟨held, rfl⟩, _, _, ⟨small, rfl, rfl⟩, (), _,
    ⟨holders, rewritten, rfl⟩, rfl⟩

variable {l : Ledger} {funds : Reserved LedgerAccount} {ref : AccountRef} {assetId : Nat}

theorem reservedOf_set {holder : LedgerAccount} {holderId : Nat} {reserved : ℚ}
    (found : l.accounts.get? holderId = some holder)
    (rows : funds.holders.rows = l.accounts.rows.set holderId { holder with reservedBalance := reserved }) :
    reservedOf { l with funds := funds } ref assetId =
      if holder.owner = ref ∧ holder.assetId = assetId then reserved else reservedOf l ref assetId := by
  rw [reservedOf, Ledger.accounts_mk, rows, sumWhere_set _ _ _ _ _ _ found]
  split
  next same =>
    obtain ⟨rfl, rfl⟩ := same
    have before := reservedOf_eq (Table.get?_mem found)
    rw [reservedOf] at before
    rw [before]
    simp [share, only]
  next other =>
    have outside : only ref assetId holder.owner holder.assetId = false := by simpa [only] using other
    simp [share, outside, reservedOf]

variable {db db' : Db} {withdrawalId : Nat}

/-- What `captureFunds` leaves of the ledger: every balance, and what is reserved for anything else. -/
structure Captured (db db' : Db) (withdrawalId : Nat) : Prop where
  funds : ∃ funds, db' = { db with core := { db.core with ledger := { db.core.ledger with funds := funds } } }
  balances : ∀ ref assetId, balanceOf db'.core.ledger ref assetId = balanceOf db.core.ledger ref assetId
  reserved : ∀ ref assetId,
    reservedOf db'.core.ledger ref assetId = reservedAfterCapture db.core.ledger withdrawalId ref assetId

theorem captureFunds_captures {u : Unit} (done : (captureFunds withdrawalId).run db = .ok (u, db')) :
    Capturable db.core.ledger withdrawalId ∧ Captured db db' withdrawalId := by
  obtain ⟨funds, rfl, bare⟩ := captureFunds_ok done
  have balances : ∀ ref assetId, balanceOf { db.core.ledger with funds := funds } ref assetId =
      balanceOf db.core.ledger ref assetId := fun ref assetId => Reserved.bare_sum bare _ _ fun _ => rfl
  unfold captureFunds Reserved.findActiveByReference at done
  simp only [run_bind_ok, run_zoom_ok, run_find?, Except.ok.injEq, Prod.mk.injEq, fundsField_get, fundsField_set] at done
  obtain ⟨found, _, ⟨_, ⟨looked, rfl⟩, rfl⟩, rest⟩ := done
  rw [Reserved.reservationsField_get] at looked
  cases found with
  | none =>
    simp only [run_pure, Except.ok.injEq, Prod.mk.injEq] at rest
    have same : db.core.ledger.funds = funds := congrArg (fun db : Db => db.core.ledger.funds) rest.2
    subst same
    refine ⟨fun k r found => ?_, ⟨_, rfl⟩, balances, fun ref assetId => ?_⟩
    next =>
      rw [looked] at found
      cases found
    next => simp only [reservedAfterCapture, looked]
  | some pair =>
    obtain ⟨k, r⟩ := pair
    obtain ⟨position, holds⟩ := Table.find?_some looked
    simp only [run_bind_ok, run_zoom_ok, run_pure, Except.ok.injEq, Prod.mk.injEq, fundsField_get, fundsField_set] at rest
    obtain ⟨_, _, ⟨funds', captured, rfl⟩, -, same⟩ := rest
    have same : funds' = funds := congrArg (fun db : Db => db.core.ledger.funds) same
    subst same
    obtain ⟨holder, held, small, valid, rows⟩ := capture_writes position (Reserved.activeFor_status holds).2.2 captured
    refine ⟨fun k' r' found => ?_, ⟨_, rfl⟩, balances, fun ref assetId => ?_⟩
    next =>
      rw [looked] at found
      cases found
      exact ⟨holder, held, small, valid⟩
    next =>
      have held : db.core.ledger.accounts.get? r.holderId = some holder := held
      simp only [reservedAfterCapture, looked, held]
      exact reservedOf_set held rows

theorem captureFunds_succeeds (capturable : Capturable db.core.ledger withdrawalId) :
    ∃ db', (captureFunds withdrawalId).run db = .ok ((), db') := by
  cases looked : db.core.ledger.funds.reservations.find? (Reserved.activeFor .withdrawal withdrawalId) with
  | none =>
    refine ⟨db, ?_⟩
    have found : (zoom fundsField (Reserved.findActiveByReference .withdrawal withdrawalId) :
        Tx Db Fault (Option (Nat × Reservation))).run db = .ok (none, db) := by
      rw [run_zoom_ok]
      exact ⟨db.core.ledger.funds, by rw [Reserved.findActiveByReference, run_find?, ← looked]; rfl, rfl⟩
    rw [captureFunds, run_bind_of_ok found]
    rfl
  | some pair =>
    obtain ⟨k, r⟩ := pair
    obtain ⟨position, holds⟩ := Table.find?_some looked
    obtain ⟨holder, held, small, valid⟩ := capturable k r looked
    obtain ⟨funds, captured⟩ := capture_succeeds position (Reserved.activeFor_status holds).2.2 held small valid
    have found : (zoom fundsField (Reserved.findActiveByReference .withdrawal withdrawalId) :
        Tx Db Fault (Option (Nat × Reservation))).run db = .ok (some (k, r), db) := by
      rw [run_zoom_ok]
      exact ⟨db.core.ledger.funds, by rw [Reserved.findActiveByReference, run_find?, ← looked]; rfl, rfl⟩
    refine ⟨fundsField.set funds db, ?_⟩
    rw [captureFunds, run_bind_of_ok found]
    dsimp only
    rw [run_bind_of_ok (run_zoom_ok.mpr ⟨funds, captured, rfl⟩)]
    rfl

end Capture

section Crediting

variable {db db' : Db} {now : Time} {withdrawalId assetId : Nat} {w : Withdrawal}

/-- The rows and balances with which a withdrawal of this asset can be captured and posted. -/
structure Creditable (db : Db) (withdrawalId : Nat) (w : Withdrawal) (assetId : Nat) : Prop where
  capturable : Capturable db.core.ledger withdrawalId
  balanced : sumAmounts ((capturePostings w).map Posting.amount) = 0
  posts : HasKey db.core.ledger ⟨"withdrawal-capture", [withdrawalId]⟩ ∨
    Posts db.core.ledger assetId (fun ref => reservedAfterCapture db.core.ledger withdrawalId ref assetId) (capturePostings w)

def CreditableHere (db : Db) (withdrawalId : Nat) (w : Withdrawal) : Prop :=
  -- of the asset that its network's row names
  ∃ assetNetwork asset, db.wallet.assetNetworks.get? w.assetNetworkId = some assetNetwork ∧
    db.core.ledger.assets.get? assetNetwork.assetId = some asset ∧ Creditable db withdrawalId w assetNetwork.assetId

theorem capturePostings_distinct (w : Withdrawal) : ((capturePostings w).map Posting.account).Nodup := by
  unfold capturePostings
  split <;> simp

theorem capturePostings_length (w : Withdrawal) : 2 ≤ (capturePostings w).length := by
  unfold capturePostings
  split <;> simp

theorem Captured.posts_iff (captured : Captured db db' withdrawalId) {postings : List Posting} :
    Posts db'.core.ledger assetId (fun ref => reservedOf db'.core.ledger ref assetId) postings ↔
      Posts db.core.ledger assetId (fun ref => reservedAfterCapture db.core.ledger withdrawalId ref assetId) postings := by
  obtain ⟨⟨funds, rfl⟩, balances, reserved⟩ := captured
  have same : ∀ posting : Posting, newBalance { db.core.ledger with funds := funds } assetId posting =
      newBalance db.core.ledger assetId posting := by
    intro posting
    rw [newBalance, balances, newBalance]
  constructor <;> intro posts
  next =>
    refine ⟨fun posting member => (takes_congr (same posting)).mp ?_, posts.balanced⟩
    rw [← reserved]
    exact posts.takes posting member
  next =>
    refine ⟨fun posting member => (takes_congr (same posting)).mpr ?_, posts.balanced⟩
    have takes := posts.takes posting member
    rw [← reserved] at takes
    exact takes

theorem symbol_found {l : Ledger} {asset : Asset} (found : l.assets.get? assetId = some asset) :
    l.assets.find? (fun other => decide (other.symbol = asset.symbol)) = some (assetId, asset) := by
  refine Table.find?_of_unique found (by simp) fun a b first second => ?_
  simp only [decide_eq_true_eq] at first second
  simp [RowSpec.clash, first, second]

theorem creditConfirmed_creditable (found : db.wallet.withdrawals.get? withdrawalId = some w)
    (done : (creditConfirmed now withdrawalId).run db = .ok (true, db'))
    (passes : checkLedgerTransactionBalance db.core.ledger db'.core.ledger = true) : CreditableHere db withdrawalId w := by
  unfold creditConfirmed at done
  simp only [run_bind_ok] at done
  obtain ⟨picked, db₁, ran, rest⟩ := done
  rcases run_updateMany_ok ran with ⟨rfl, rfl, -⟩ | ⟨rfl, old, t, found', allowed, updated, rfl⟩
  next => simp [run_bind_ok] at rest
  next =>
    rw [withdrawalsField_get, found] at found'
    cases found'
    simp only [if_true, run_bind_ok, run_getOrThrow_ok, run_read, run_orThrow_ok, run_zoom_ok, run_update_ok, run_pure,
      Except.ok.injEq, Prod.mk.injEq] at rest
    obtain ⟨row, _, ⟨row_, rfl⟩, assetNetwork, _, ⟨network, rfl⟩, _, _, ⟨rfl, rfl⟩, asset, _, ⟨named, rfl⟩, _, db₂, captured,
      posted, _, ⟨l, post, rfl⟩, current, _, ⟨current_, rfl⟩, _, _, ⟨t', updated', rfl⟩, -, rfl⟩ := rest
    have wrote : Table.Wrote db.wallet.withdrawals t withdrawalId _ := .of_update updated
    have same : row = { w with status := .confirmed, confirmedAt := some now } :=
      (Option.some.inj (wrote.get.symm.trans row_)).symm
    subst same
    obtain ⟨capturable, after⟩ := captureFunds_captures captured
    have entries : db.core.ledger.entries = db₂.core.ledger.entries := by
      obtain ⟨funds, rfl⟩ := after.funds
      rfl
    have listed : db₂.core.ledger.assets.get? assetNetwork.assetId = some asset := by
      obtain ⟨funds, rfl⟩ := after.funds
      exact named
    obtain ⟨balanced, posts⟩ := postTransaction_posts entries (symbol_found listed) (capturePostings_distinct _) post passes
    refine ⟨assetNetwork, asset, network, named, capturable, balanced, ?_⟩
    rcases posts with taken | posts
    next =>
      obtain ⟨funds, rfl⟩ := after.funds
      exact .inl taken
    next => exact .inr (after.posts_iff.mp posts)

theorem status_update {t : Table Withdrawal} {row : Withdrawal} (found : t.get? withdrawalId = some w)
    (same : row.userId = w.userId ∧ row.clientWithdrawalId = w.clientWithdrawalId ∧ row.txHash = w.txHash)
    (amounts : row.amount = w.amount ∧ row.fee = w.fee) (onChain : w.isOnChain = true) :
    ∃ t', t.update withdrawalId row = .ok t' := by
  have checked := Table.check_of_get? found
  simp only [RowSpec.check, Bool.and_eq_true, decide_eq_true_eq, onChain, Bool.not_true, Bool.false_or] at checked
  have valid : RowSpec.check row = true := by
    simp only [RowSpec.check, Bool.and_eq_true, decide_eq_true_eq, amounts.1, amounts.2, same.2.2, checked.2, Bool.or_true,
      and_true]
    exact checked.1
  obtain ⟨t', updated, -⟩ := Table.update_eq_ok row (Table.get?_lt found) valid (by
    intro j other different position
    have apart := Table.clash_of_ne found position (Ne.symm different)
    simpa only [RowSpec.clash, same.1, same.2.1, same.2.2] using apart)
  exact ⟨t', updated⟩

theorem creditConfirmed_succeeds (found : db.wallet.withdrawals.get? withdrawalId = some w)
    (picked : w.status ∈ [WithdrawalStatus.broadcast, .confirming]) (creditable : CreditableHere db withdrawalId w) :
    ∃ db', (creditConfirmed now withdrawalId).run db = .ok (true, db') ∧
      checkLedgerTransactionBalance db.core.ledger db'.core.ledger = true := by
  obtain ⟨assetNetwork, asset, network, named, capturable, balanced, posts⟩ := creditable
  have onChain : w.isOnChain = true := by
    rw [Withdrawal.isOnChain, decide_eq_true_eq]
    simp only [List.mem_cons, List.not_mem_nil, or_false] at picked ⊢
    tauto
  obtain ⟨t, updated⟩ := @status_update withdrawalId w db.wallet.withdrawals
    { w with status := .confirmed, confirmedAt := some now } found ⟨rfl, rfl, rfl⟩ ⟨rfl, rfl⟩ onChain
  have wrote : Table.Wrote db.wallet.withdrawals t withdrawalId { w with status := .confirmed, confirmedAt := some now } :=
    .of_update updated
  obtain ⟨db₂, captured⟩ := @captureFunds_succeeds (withdrawalsField.set t db) withdrawalId capturable
  obtain ⟨-, after⟩ := captureFunds_captures captured
  have posts₂ := @Captured.posts_iff (withdrawalsField.set t db) db₂ withdrawalId assetNetwork.assetId after (capturePostings w)
  obtain ⟨⟨funds, rfl⟩, -, -⟩ := after
  -- the call posts on the ledger whose funds have been captured
  obtain ⟨posted, l, post, passes⟩ := @postTransaction_succeeds { db.core.ledger with funds := funds } assetNetwork.assetId
    db.core.ledger (captureInput withdrawalId { w with status := .confirmed, confirmedAt := some now } asset.symbol) asset rfl
    (symbol_found named) (capturePostings_length _) (capturePostings_distinct _) balanced
    (posts.imp_right fun fresh => posts₂.mpr fresh)
  obtain ⟨t', updated'⟩ := @status_update withdrawalId { w with status := .confirmed, confirmedAt := some now } t
    { w with status := .credited, confirmedAt := some now } wrote.get ⟨rfl, rfl, rfl⟩ ⟨rfl, rfl⟩ (by simp [Withdrawal.isOnChain])
  have counted : (updateMany withdrawalsField withdrawalId (statusIn [.broadcast, .confirming]) fun w =>
      { w with status := .confirmed, confirmedAt := some now } : Tx Db Fault Bool).run db =
        .ok (true, withdrawalsField.set t db) :=
    run_updateMany_picked found (by simpa [statusIn] using picked) updated
  have listed : (withdrawalsField.set t db).core.ledger.assets.get? assetNetwork.assetId = some asset := named
  refine ⟨{ core := { db.core with ledger := l }, wallet := { db.wallet with withdrawals := t' } }, ?_, passes⟩
  unfold creditConfirmed
  rw [run_bind_of_ok counted]
  simp only [if_true]
  rw [run_bind_of_ok (run_getOrThrow_ok.mpr ⟨wrote.get, rfl⟩), run_bind_of_ok (run_getOrThrow_ok.mpr ⟨network, rfl⟩),
    run_bind_of_ok (run_read _ _), run_bind_of_ok (run_orThrow_ok.mpr ⟨listed, rfl⟩), run_bind_of_ok captured,
    run_bind_of_ok (run_zoom_ok.mpr ⟨l, post, rfl⟩), run_bind_of_ok (run_getOrThrow_ok.mpr ⟨wrote.get, rfl⟩),
    run_bind_of_ok ((run_update_ok (u := ())).mpr ⟨t', updated', rfl⟩)]
  rfl

/-- The transaction commits with something to write exactly if its rows are there and the balances allow it. -/
theorem creditConfirmed_commits_iff (found : db.wallet.withdrawals.get? withdrawalId = some w)
    (picked : w.status ∈ [WithdrawalStatus.broadcast, .confirming]) :
    (∃ db', (runTransaction ledgerField (creditConfirmed now withdrawalId)).run db = .ok (true, db')) ↔
      CreditableHere db withdrawalId w := by
  constructor
  next =>
    rintro ⟨db', ran⟩
    have done := runTransaction_ok ran
    refine creditConfirmed_creditable found done ?_
    by_contra unbalanced
    rw [runTransaction_refused done (by simpa using unbalanced)] at ran
    cases ran
  next =>
    intro creditable
    obtain ⟨db', done, passes⟩ := @creditConfirmed_succeeds db now withdrawalId w found picked creditable
    refine ⟨db', ?_⟩
    rw [runTransaction_of_check, done]
    intro credited db'' done'
    rw [done] at done'
    cases done'
    exact passes

end Crediting

end VerdictVaut.Rounded

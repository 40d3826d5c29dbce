import VerdictVaut.System.Limits
import VerdictVaut.System.Requests

set_option autoImplicit false

-- the daily limit, checked in `Prisma.Decimal`, over whole runs of the withdrawals
namespace VerdictVaut.DailyLimit

open Relational Relational.Tx Decimals Db Platform WithdrawalsService Requests

section Steps

def FewDecimals (places userId assetId : ℕ) (_ : Db) (_ : Time) (prepared : Prepared) : Prop :=
  -- the user's requests of this asset are for amounts of at most so many decimals
  prepared.userId = userId → prepared.assetId = assetId → Places places prepared.amount

def SameLimit (userId : Nat) (db db' : Db) : Prop :=
  maxDailyWithdrawal db' userId = maxDailyWithdrawal db userId

inductive Run (guard : Db → Time → Prepared → Prop) (userId : Nat) : Db → Prop
  -- the states of any run from a database without withdrawals
  | start (db : Db) (none : db.wallet.withdrawals.rows = []) : Run guard userId db
  | step {db db' : Db} (earlier : Run guard userId db) (step : Step guard (SameLimit userId) db db') : Run guard userId db'

end Steps

section Windows

variable {db db' : Db} {now : Time} {prepared : Prepared} {places userId assetId : Nat} {since : Time}

def counts (db : Db) (userId assetId : Nat) (since : Time) (w : Withdrawal) : Bool :=
  -- a withdrawal of the asset by the user, of these 24 hours, that did not end unpaid
  decide (w.userId = userId) &&
    ((db.wallet.assetNetworks.get? w.assetNetworkId).any fun route => decide (route.assetId = assetId)) &&
    decide (w.status ∉ [WithdrawalStatus.rejected, .failed, .cancelled]) &&
    decide (since ≤ w.createdAt) && decide (w.createdAt ≤ since + dayMs)

def volume (db : Db) (userId assetId : Nat) (since : Time) : ℚ :=
  sumWhere (counts db userId assetId since) Withdrawal.amount db.wallet.withdrawals.rows

/-- The limit leaves room, in the digits that a `Decimal` keeps, for all of these decimals. -/
def Small (places : ℕ) (limit : ℚ) : Prop :=
  limit < (10 : ℚ) ^ ((Decimal.PRECISION : ℤ) - places)

def Within (places userId assetId : ℕ) (db : Db) : Prop :=
  -- in every window the user stays within such a limit
  ∀ limit, maxDailyWithdrawal db userId = some limit → Small places limit → ∀ since, volume db userId assetId since ≤ limit

def concerns (db : Db) (userId assetId : Nat) (w : Withdrawal) : Prop :=
  -- a withdrawal of the asset by the user, whenever it was
  w.userId = userId ∧ ∃ route ∈ db.wallet.assetNetworks.get? w.assetNetworkId, route.assetId = assetId

def Stored (places userId assetId : ℕ) (db : Db) : Prop :=
  ∀ w ∈ db.wallet.withdrawals.rows, concerns db userId assetId w → Places places w.amount

theorem amount_pos {w : Withdrawal} (member : w ∈ db.wallet.withdrawals.rows) : 0 < w.amount := by
  have checked := db.wallet.withdrawals.checked w member
  simp only [RowSpec.check, Bool.and_eq_true, decide_eq_true_eq] at checked
  exact checked.1.1.1

theorem share_le_share {α : Type} {selected selected' : α → Bool} {value : α → ℚ} {a b : α}
    (picked : selected a = true → selected' b = true) (same : value a = value b) (positive : 0 ≤ value b) :
    share selected value a ≤ share selected' value b := by
  unfold share
  split
  next yes => rw [if_pos (picked yes), same]
  next =>
    split
    · exact positive
    · exact le_rfl

theorem standing_of_moves {operation : Operation} {old new : Withdrawal} {funds : Funds} (moves : Moves operation old new funds) :
    old.status ∉ [WithdrawalStatus.rejected, .failed, .cancelled] := by
  intro ended
  have released : old.status.reservation = some .released := by
    simp only [List.mem_cons, List.not_mem_nil, or_false] at ended
    rcases ended with same | same | same <;> rw [same] <;> rfl
  cases (moves.status released).1

section Transition

variable {operation : Operation} {withdrawalId : Nat} {old new : Withdrawal} {funds : Funds} {t : Table Withdrawal}

theorem Within.transition (within : Within places userId assetId db)
    (found : db.wallet.withdrawals.get? withdrawalId = some old) (moves : Moves operation old new funds)
    (wrote : Table.Wrote db.wallet.withdrawals t withdrawalId new) (l : Ledger) :
    Within places userId assetId
      { core := { db.core with ledger := l }, wallet := { db.wallet with withdrawals := t } } := by
  intro limit limited small since
  have before := within limit limited small since
  have terms := moves.terms
  simp only [WithdrawalsService.terms, Prod.mk.injEq] at terms
  obtain ⟨user, network, -, -, amount, -, -, created⟩ := terms
  have less : share (counts db userId assetId since) Withdrawal.amount new ≤
      share (counts db userId assetId since) Withdrawal.amount old := by
    refine share_le_share (fun counted => ?_) amount (amount_pos (Table.get?_mem found)).le
    simp only [counts, user, network, created, Bool.and_eq_true, decide_eq_true_eq] at counted ⊢
    exact ⟨⟨⟨counted.1.1.1, standing_of_moves moves⟩, counted.1.2⟩, counted.2⟩
  change sumWhere (counts db userId assetId since) Withdrawal.amount t.rows ≤ _
  rw [volume] at before
  rw [wrote.rows_set found, sumWhere_set _ _ _ _ old _ found]
  linarith

theorem Stored.transition (stored : Stored places userId assetId db)
    (found : db.wallet.withdrawals.get? withdrawalId = some old) (moves : Moves operation old new funds)
    (wrote : Table.Wrote db.wallet.withdrawals t withdrawalId new) (l : Ledger) :
    Stored places userId assetId
      { core := { db.core with ledger := l }, wallet := { db.wallet with withdrawals := t } } := by
  intro w member mine
  obtain ⟨i, there⟩ := Table.mem_iff_get?.mp member
  rw [wrote i] at there
  split at there
  next =>
    cases there
    have terms := moves.terms
    simp only [WithdrawalsService.terms, Prod.mk.injEq] at terms
    obtain ⟨user, network, -, -, amount, -⟩ := terms
    rw [amount]
    refine stored old (Table.get?_mem found) ?_
    rwa [concerns, ← user, ← network]
  next => exact stored w (Table.get?_mem there) mine

end Transition

theorem volume_le_alreadyRequested (inside : now ≤ since + dayMs) :
    volume db userId assetId since ≤ alreadyRequested db userId assetId (now - dayMs) := by
  -- what counts in a window that a clock reading lies in was asked for since a day before that reading
  refine sumWhere_mono _ _ _ fun w member => share_le_share (fun counted => ?_) rfl (amount_pos member).le
  simp only [counts, Bool.and_eq_true, decide_eq_true_eq] at counted ⊢
  have asked : now - dayMs ≤ w.createdAt := by
    have begun := counted.1.2
    linarith
  exact ⟨counted.1.1, asked⟩

/-- A sum of amounts with so many places is exact until it needs more digits than are kept, and stays as large from there
on. -/
theorem foldl_plus {amounts : List ℚ} (fits : ∀ a ∈ amounts, 0 ≤ a ∧ Places places a)
    {total : ℚ} (positive : 0 ≤ total) (whole : Places places total) :
    (amounts.foldl Decimal.plus total = total + amounts.sum ∧ Places places (total + amounts.sum)) ∨
      (10 : ℚ) ^ ((Decimal.PRECISION : ℤ) - places) ≤ amounts.foldl Decimal.plus total := by
  have stays : ∀ {rest : List ℚ} {large : ℚ}, (∀ a ∈ rest, 0 ≤ a ∧ Places places a) →
      (10 : ℚ) ^ ((Decimal.PRECISION : ℤ) - places) ≤ large →
      (10 : ℚ) ^ ((Decimal.PRECISION : ℤ) - places) ≤ rest.foldl Decimal.plus large := by
    intro rest
    induction rest with
    | nil => exact fun _ above => above
    | cons a rest ih =>
      intro large fits above
      have first := (fits a (by simp)).1
      apply ih fun b member => fits b (List.mem_cons_of_mem _ member)
      exact pow_le_toSignificant (by decide) (by linarith)
  induction amounts generalizing total with
  | nil => simp [whole]
  | cons a rest ih =>
    obtain ⟨first, unit⟩ := fits a (by simp)
    have others : ∀ b ∈ rest, 0 ≤ b ∧ Places places b := fun b member => fits b (List.mem_cons_of_mem _ member)
    rw [List.foldl_cons, List.sum_cons, ← add_assoc]
    by_cases above : (10 : ℚ) ^ ((Decimal.PRECISION : ℤ) - places) ≤ total + a
    · exact .inr (stays others (pow_le_toSignificant (by decide) above))
    · have same : Decimal.plus total a = total + a := by
        refine Decimal.plus_eq_iff.mpr ((whole.add unit).significant (by decide) ?_)
        rw [abs_of_nonneg (by linarith), ← zpow_natCast, ← zpow_natCast]
        have scale : (10 : ℚ) ^ ((Decimal.PRECISION : ℕ) : ℤ) = 10 ^ ((Decimal.PRECISION : ℤ) - places) * 10 ^ (places : ℤ) := by
          rw [← zpow_add₀ (by norm_num)]
          congr 1
          omega
        rw [scale]
        exact mul_le_mul_of_nonneg_right (not_le.mp above).le (by positivity)
      rw [same]
      exact ih others (by linarith) (whole.add unit)

/-- Where the amounts have so many decimals, a check that passes has added them exactly: a rounded sum would lie above
the limit. -/
theorem Stored.checked (stored : Stored places userId assetId db) (fine : places ≤ Decimal.SCALE)
    (mine : prepared.userId = userId) (same : prepared.assetId = assetId) (fits : Places places prepared.amount)
    (positive : 0 ≤ prepared.amount) (passes : FitsDailyLimit db now prepared.userId prepared.assetId prepared.amount) {limit : ℚ}
    (limited : maxDailyWithdrawal db userId = some limit) (small : Small places limit) :
    alreadyRequested db userId assetId (now - dayMs) + Decimal.column prepared.amount ≤ limit := by
  subst mine
  subst same
  have within := passes limit limited
  have recent : ∀ a ∈ Rounded.recentAmounts db prepared.userId prepared.assetId (now - dayMs) ++ [prepared.amount],
      0 ≤ a ∧ Places places a := by
    intro a member
    rcases List.mem_append.mp member with before | new
    · obtain ⟨w, inside, rfl⟩ := List.mem_map.mp before
      obtain ⟨there, picked⟩ := List.mem_filter.mp inside
      simp only [Bool.and_eq_true, decide_eq_true_eq, Option.any_eq_true] at picked
      obtain ⟨route, named, ofAsset⟩ := picked.1.1.2
      exact ⟨(amount_pos there).le, stored w there ⟨picked.1.1.1, route, named, ofAsset⟩⟩
    · obtain rfl := List.mem_singleton.mp new
      exact ⟨positive, fits⟩
  have total := foldl_plus recent le_rfl ⟨0, by simp⟩
  rw [List.foldl_append, List.foldl_cons, List.foldl_nil, List.sum_append, List.sum_singleton, zero_add] at total
  rw [Decimal.column_eq_iff.mpr (fits.finer fine)]
  rcases total with ⟨exact, -⟩ | above
  · exact exact ▸ within
  · exact absurd (above.trans within) (not_le.mpr small)

section Created

variable {t : Table Withdrawal}

theorem created_concerns (fits : PreparedFits db prepared) (mine : concerns db userId assetId (createdRow now prepared)) :
    prepared.userId = userId ∧ prepared.assetId = assetId := by
  obtain ⟨owner, route, named, ofAsset⟩ := mine
  obtain ⟨route', named', same⟩ := fits.network
  rw [show (createdRow now prepared).assetNetworkId = prepared.assetNetworkId from rfl, named'] at named
  cases named
  exact ⟨owner, same.symm.trans ofAsset⟩

theorem Stored.created (stored : Stored places userId assetId db) (fine : places ≤ Decimal.SCALE) (fits : PreparedFits db prepared)
    (decimals : FewDecimals places userId assetId db now prepared) (l : Ledger)
    (wrote : Table.Wrote db.wallet.withdrawals t db.wallet.withdrawals.size (createdRow now prepared)) :
    Stored places userId assetId
      { core := { db.core with ledger := l }, wallet := { db.wallet with withdrawals := t } } := by
  intro w member mine
  rw [show t.rows = _ from wrote.rows_append] at member
  rcases List.mem_append.mp member with old | new
  next => exact stored w old mine
  next =>
    cases List.mem_singleton.mp new
    obtain ⟨owner, same⟩ := @created_concerns db _ _ _ _ fits mine
    have places := decimals owner same
    have kept : (createdRow now prepared).amount = prepared.amount := Decimal.column_eq_iff.mpr (places.finer fine)
    rwa [kept]

theorem Within.created (within : Within places userId assetId db) (stored : Stored places userId assetId db)
    (fine : places ≤ Decimal.SCALE) (fits : PreparedFits db prepared)
    (decimals : FewDecimals places userId assetId db now prepared) (passes : FitsDailyLimit db now prepared.userId prepared.assetId prepared.amount)
    (l : Ledger)
    (wrote : Table.Wrote db.wallet.withdrawals t db.wallet.withdrawals.size (createdRow now prepared)) :
    Within places userId assetId
      { core := { db.core with ledger := l }, wallet := { db.wallet with withdrawals := t } } := by
  intro limit limited small since
  have before := within limit limited small since
  change sumWhere (counts db userId assetId since) Withdrawal.amount t.rows ≤ _
  rw [wrote.rows_append, sumWhere_append, sumWhere_cons, sumWhere_nil, add_zero, ← volume, share]
  split
  next counted =>
    -- the new withdrawal is in the window: its own check has seen all the others there
    simp only [counts, Bool.and_eq_true, decide_eq_true_eq, Option.any_eq_true] at counted
    obtain ⟨⟨⟨⟨owner, route, named, ofAsset⟩, -⟩, -⟩, inside⟩ := counted
    obtain ⟨mine, same⟩ := created_concerns fits ⟨owner, route, named, ofAsset⟩
    have places := decimals mine same
    have kept : (createdRow now prepared).amount = prepared.amount := Decimal.column_eq_iff.mpr (places.finer fine)
    have positive : 0 < (createdRow now prepared).amount := by
      apply @amount_pos { db with wallet := { db.wallet with withdrawals := t } }
      rw [show t.rows = _ from wrote.rows_append]
      exact List.mem_append_right _ (List.mem_singleton_self _)
    rw [kept] at positive
    have checked := stored.checked fine mine same places positive.le passes limited small
    have seen := @volume_le_alreadyRequested db now userId assetId since inside
    have amount : (createdRow now prepared).amount = Decimal.column prepared.amount := rfl
    rw [amount]
    linarith
  next =>
    rw [add_zero]
    exact before

end Created

theorem Within.start (none : db.wallet.withdrawals.rows = []) : Within places userId assetId db := by
  intro limit limited _ since
  simp only [maxDailyWithdrawal, Option.bind_eq_some_iff, Option.map_eq_some_iff] at limited
  obtain ⟨row, ⟨pair, found, rfl⟩, set⟩ := limited
  have checked := db.core.riskLimits.checked pair.2 (Table.get?_mem (Table.find?_some found).1)
  simp only [RowSpec.check, List.all_cons, set, Option.all_some, Bool.and_eq_true, decide_eq_true_eq] at checked
  rw [volume, none, sumWhere_nil]
  exact checked.2.1

theorem keeps_within (fine : places ≤ Decimal.SCALE) (step : Step (FewDecimals places userId assetId) (SameLimit userId) db db')
    (kept : Stored places userId assetId db ∧ Within places userId assetId db) :
    Stored places userId assetId db' ∧ Within places userId assetId db' := by
  obtain ⟨stored, within⟩ := kept
  cases step with
  | request now prepared fits decimals =>
    rcases commit_cases (runTransaction ledgerField (Rounded.chargedRequest now prepared)) db with same | ⟨a, ran⟩
    · rw [Rounded.commits, same]
      exact ⟨stored, within⟩
    · rcases request_created (runTransaction_ok ran) with ⟨same, -⟩ | created
      · rw [Rounded.commits, same]
        exact ⟨stored, within⟩
      · obtain ⟨t, l, same, -, wrote⟩ := created.result
        rw [Rounded.commits, same]
        exact ⟨stored.created fine fits decimals l wrote, within.created stored fine fits decimals created.fits l wrote⟩
  | transition found moves t wrote l assets => exact ⟨stored.transition found moves wrote l, within.transition found moves wrote l⟩
  | elsewhere db' withdrawals assetNetworks fixed =>
    constructor
    next =>
      intro w member mine
      refine stored w (withdrawals ▸ member) ?_
      rwa [concerns, ← assetNetworks]
    next =>
      intro limit limited small since
      have before := within limit (fixed ▸ limited) small since
      rw [volume] at before ⊢
      unfold counts at before ⊢
      rwa [withdrawals, assetNetworks]

/-- When the user's requests of an asset have so many decimals and the limit leaves room for them, the withdrawals in any
24 hours sum to at most the limit, whatever the order of the clock readings. -/
theorem dailyLimit_windows (fine : places ≤ Decimal.SCALE) (run : Run (FewDecimals places userId assetId) userId db) {limit : ℚ}
    (limited : maxDailyWithdrawal db userId = some limit) (small : Small places limit) (since : Time) :
    volume db userId assetId since ≤ limit := by
  have kept : Stored places userId assetId db ∧ Within places userId assetId db := by
    clear limited
    induction run with
    | start db none => exact ⟨fun w member => by simp [none] at member, .start none⟩
    | step earlier step ih => exact keeps_within fine step ih
  exact kept.2 limit limited small since

end Windows

section Operations

theorem step_platform {guard : Db → Time → Prepared → Prop} {userId : Nat} {config : WalletConfig} {s : Platform}
    (reached : Platform.Reached config s) (action : Action) (other : ∀ k now, action ≠ .wallet (.request k now)) :
    Step guard (SameLimit userId) s.db (s.step config action).db := by
  have limits : (s.step config action).db.core.riskLimits = s.db.core.riskLimits := by
    have integrity := reached.integrity
    cases action with
    | trading action => exact (tradingStep_effect integrity.settleable.ordered integrity.fits action).limits.1
    | wallet action =>
      obtain ⟨l, core⟩ := (@Platform.walletStep_effect config _ integrity action).frame.core
      change (s.walletStep config action).db.core.riskLimits = _
      rw [core]
  refine .platform reached action other ?_ rfl
  rw [SameLimit, maxDailyWithdrawal, limits, maxDailyWithdrawal]

end Operations

section Sample

def asks (amount : ℚ) (client : String) : Prepared :=
  { userId := 1, assetId := 0, assetSymbol := "ETH", assetNetworkId := 0, destinationAddress := "0xc",
    destinationTag := none, amount := amount, fee := 0, clientWithdrawalId := client,
    compliance := { decision := .pass, reason := none } }

def requests (calls : List (Time × ℚ × String)) : Db :=
  calls.foldl (fun db call => Rounded.commits (Rounded.chargedRequest call.1 (asks call.2.1 call.2.2)) db) funded

theorem asks_fits {db : Db} {amount : ℚ} {client : String}
    (asset : db.core.ledger.assets.get? 0 = some ⟨"ETH", 18, true⟩)
    (network : (db.wallet.assetNetworks.get? 0).map AssetNetwork.assetId = some 0) : PreparedFits db (asks amount client) := by
  obtain ⟨assetNetwork, found, same⟩ := Option.map_eq_some_iff.mp network
  exact ⟨⟨_, asset, rfl⟩, ⟨assetNetwork, found, same⟩⟩

theorem places_two (n : ℤ) : Places 2 n := ⟨n * 100, by push_cast; ring⟩

theorem reordered_run : Run (FewDecimals 2 1 0) 1 (Rounded.commits (cancel 1 0) (requests [(10, 60, "a"), (5, 30, "b")])) := by
  -- two requests whose clocks disagree with their order, and the first one cancelled
  have funds : Run (FewDecimals 2 1 0) 1 funded := .start funded (by decide +kernel)
  have first : Run (FewDecimals 2 1 0) 1 (requests [(10, 60, "a")]) :=
    funds.step (.request 10 _ (asks_fits (by decide +kernel) (by decide +kernel)) fun _ _ => places_two 60)
  have second : Run (FewDecimals 2 1 0) 1 (requests [(10, 60, "a"), (5, 30, "b")]) :=
    first.step (.request 5 _ (asks_fits (by decide +kernel) (by decide +kernel)) fun _ _ => places_two 30)
  exact second.step (.commits rfl fun w db' ran => cancel_ok ran)

theorem reordered_within : (∀ since,
      volume (Rounded.commits (cancel 1 0) (requests [(10, 60, "a"), (5, 30, "b")])) 1 0 since ≤ 100) ∧
    volume (Rounded.commits (cancel 1 0) (requests [(10, 60, "a"), (5, 30, "b")])) 1 0 0 = 30 :=
  ⟨dailyLimit_windows (by decide) reordered_run (by decide +kernel) (by norm_num [Small, Decimal.PRECISION]),
    by decide +kernel⟩

/-- 99 and 1.000000000000000001 are taken for 100. -/
theorem longRequest_over : ∃ db, Run (fun _ _ _ => True) 1 db ∧
    ∃ limit, maxDailyWithdrawal db 1 = some limit ∧ limit < volume db 1 0 0 := by
  refine ⟨requests [(0, 99, "a"), (0, 1 + 1 / 10 ^ 18, "b")], ?_, 100, by decide +kernel, by decide +kernel⟩
  have funds : Run (fun _ _ _ => True) 1 funded := .start funded (by decide +kernel)
  have first : Run (fun _ _ _ => True) 1 (requests [(0, 99, "a")]) :=
    funds.step (.request 0 _ (asks_fits (by decide +kernel) (by decide +kernel)) trivial)
  exact first.step (.request 0 _ (asks_fits (by decide +kernel) (by decide +kernel)) trivial)

end Sample

end VerdictVaut.DailyLimit

import VerdictVaut.System.Replays
import VerdictVaut.System.Rounded

set_option autoImplicit false

-- withdrawal requests as `Prisma.Decimal` and the columns compute them, among whatever else happens on the platform
namespace VerdictVaut.Requests

open Relational Relational.Tx Decimals Db Platform WithdrawalsService

section Steps

def maxDailyWithdrawal (db : Db) (userId : Nat) : Option ℚ :=
  ((db.core.riskLimits.find? fun limit => decide (limit.userId = userId)).map Prod.snd).bind RiskLimit.maxDailyWithdrawal

/-- The amount fits under the daily limit beside everything that already counts against it, as `Decimal`s add up. -/
def FitsDailyLimit (db : Db) (now : Time) (userId assetId : Nat) (amount : ℚ) : Prop :=
  ∀ limit ∈ maxDailyWithdrawal db userId,
    Decimal.plus (Rounded.sumAmounts (Rounded.recentAmounts db userId assetId (now - dayMs))) amount ≤ limit

instance (db : Db) (now : Time) (userId assetId : Nat) (amount : ℚ) :
    Decidable (FitsDailyLimit db now userId assetId amount) :=
  inferInstanceAs (Decidable (∀ limit ∈ maxDailyWithdrawal db userId, _ ≤ limit))

/-- One transaction, as far as withdrawals are concerned: what becomes of the ledger, and of the rest of the database
within the frame, is left open. -/
inductive Step (guard : Db → Time → Prepared → Prop) (frame : Db → Db → Prop) : Db → Db → Prop
  | request {db : Db} (now : Time) (prepared : Prepared) (fits : PreparedFits db prepared) (guarded : guard db now prepared) :
      Step guard frame db (Rounded.commits (Rounded.chargedRequest now prepared) db)
  | transition {db : Db} {operation : Operation} {withdrawalId : Nat} {old new : Withdrawal} {funds : Funds}
      (found : db.wallet.withdrawals.get? withdrawalId = some old) (moves : Moves operation old new funds)
      (t : Table Withdrawal) (wrote : Table.Wrote db.wallet.withdrawals t withdrawalId new) (l : Ledger)
      (assets : l.assets = db.core.ledger.assets) :
      Step guard frame db { core := { db.core with ledger := l }, wallet := { db.wallet with withdrawals := t } }
  | elsewhere {db : Db} (db' : Db) (withdrawals : db'.wallet.withdrawals = db.wallet.withdrawals)
      (assetNetworks : db'.wallet.assetNetworks = db.wallet.assetNetworks) (framed : frame db db') :
      Step guard frame db db'

end Steps

section Created

variable {db db' : Db} {now : Time} {prepared : Prepared} {withdrawalId : Nat}

theorem run_checkDailyLimit : (Rounded.checkDailyLimit now prepared).run db = .ok ((), db) ↔
    FitsDailyLimit db now prepared.userId prepared.assetId prepared.amount := by
  rw [Rounded.checkDailyLimit, run_bind_of_ok (run_read _ _)]
  simp only [FitsDailyLimit, maxDailyWithdrawal]
  generalize Option.bind _ RiskLimit.maxDailyWithdrawal = limit
  cases limit with
  | none => simp
  | some limit =>
    simp only [run_bind_of_ok (run_read _ _), run_throwIf_ok, Option.mem_some_iff]
    simp

theorem checkDailyLimit_passes {u : Unit} (done : (Rounded.checkDailyLimit now prepared).run db = .ok (u, db')) :
    FitsDailyLimit db now prepared.userId prepared.assetId prepared.amount := by
  obtain rfl := Rounded.checkDailyLimit_ok done
  exact run_checkDailyLimit.mp done

theorem checkDailyLimit_error {e : Fault} (failed : (Rounded.checkDailyLimit now prepared).run db = .error e) :
    DbFault.toDb? e = none := by
  rw [Rounded.checkDailyLimit, run_bind_of_ok (run_read _ _)] at failed
  split at failed
  next => cases failed
  next =>
    simp only [run_bind_of_ok (run_read _ _), run_throwIf_error] at failed
    rw [← failed.2]
    rfl

def insertedRow (now : Time) (prepared : Prepared) : Withdrawal :=
  -- the row as the columns keep it when it is inserted
  withdrawalRow now { prepared with amount := Decimal.column prepared.amount, fee := Decimal.column prepared.fee }

def createdRow (now : Time) (prepared : Prepared) : Withdrawal :=
  { insertedRow now prepared with status := .riskReview }

def Storable (prepared : Prepared) : Prop :=
  -- both amounts have room in their columns
  |Decimal.column prepared.amount| < 10 ^ 18 ∧ |Decimal.column prepared.fee| < 10 ^ 18

theorem reserve_assets {request : Ledger.ReserveFunds} {outcome : Nat × Bool} {l l' : Ledger}
    (done : (Rounded.reserve request).run l = .ok (outcome, l')) : l'.assets = l.assets := by
  unfold Rounded.reserve at done
  simp only [run_bind_ok, run_throwIf_ok, run_zoom_ok] at done
  obtain ⟨_, _, ⟨-, rfl⟩, ⟨assetId, asset⟩, l₀, named, ⟨accountId, account⟩, _, resolved, funds, ran, rfl⟩ := done
  obtain ⟨rfl, -⟩ := Ledger.assetBySymbol_ok named
  obtain ⟨accounts, rfl, -⟩ := Ledger.resolveAccount_ok resolved
  rfl

structure Created (db db' : Db) (now : Time) (prepared : Prepared) (withdrawalId : Nat) : Prop where
  -- what a request's transaction creates
  fits : FitsDailyLimit db now prepared.userId prepared.assetId prepared.amount
  storable : Storable prepared
  result : ∃ t l, db' = { core := { db.core with ledger := l }, wallet := { db.wallet with withdrawals := t } } ∧
    l.assets = db.core.ledger.assets ∧
    Table.Wrote db.wallet.withdrawals t db.wallet.withdrawals.size (createdRow now prepared)
  new : withdrawalId = db.wallet.withdrawals.size

theorem request_created (done : (Rounded.chargedRequest now prepared).run db = .ok (withdrawalId, db')) :
    (db' = db ∧ ∃ row, db.wallet.withdrawals.get? withdrawalId = some row) ∨ Created db db' now prepared withdrawalId := by
  unfold Rounded.chargedRequest at done
  simp only [run_bind_ok] at done
  obtain ⟨⟨i, existed⟩, _, created, rest⟩ := done
  rcases run_createIdempotent_ok created with ⟨rfl, body⟩ | ⟨rfl, looked, -⟩
  · right
    simp only [run_bind_ok, Rounded.run_write_ok, run_create_ok, withdrawalsField_get, withdrawalsField_set] at body
    obtain ⟨_, _, checked, _, _, ⟨amount, rfl, rfl⟩, _, _, ⟨fee, rfl, rfl⟩, t, inserted, rfl, rfl⟩ := body
    have passes := checkDailyLimit_passes checked
    obtain rfl := (Rounded.checkDailyLimit_ok checked).symm
    simp only [Bool.false_eq_true, if_false, run_bind_ok, run_zoom_ok, run_getOrThrow_ok, run_update_ok, run_pure,
      Except.ok.injEq, Prod.mk.injEq, ledgerField_get, ledgerField_set, withdrawalsField_get, withdrawalsField_set] at rest
    obtain ⟨_, _, ⟨l, reserved, rfl⟩, current, _, ⟨found, rfl⟩, _, _, ⟨t', updated, rfl⟩, rfl, rfl⟩ := rest
    have wrote : Table.Wrote db.wallet.withdrawals t db.wallet.withdrawals.size _ := .of_insert inserted
    have same := wrote.get.symm.trans found
    cases same
    exact ⟨passes, ⟨amount, fee⟩, ⟨t', l, rfl, reserve_assets reserved, wrote.again (.of_update updated)⟩, rfl⟩
  · left
    simp only [run_bind_ok, run_findOrThrow_ok, run_pure, Except.ok.injEq, Prod.mk.injEq] at looked
    obtain ⟨_, _, ⟨-, rfl⟩, -, rfl⟩ := looked
    simp only [if_true, run_bind_ok, run_getOrThrow_ok, run_throwIf_ok, run_pure, Except.ok.injEq, Prod.mk.injEq] at rest
    obtain ⟨row, _, ⟨found, rfl⟩, _, _, ⟨-, rfl⟩, rfl, rfl⟩ := rest
    exact ⟨rfl, row, found⟩

end Created

section Operations

variable {guard : Db → Time → Prepared → Prop} {frame : Db → Db → Prop} {db db' : Db} {operation : Operation}
  {withdrawalId : Nat} {old new : Withdrawal} {funds : Funds}

theorem Step.changed (changed : Changed operation db db' withdrawalId old new funds) : Step guard frame db db' := by
  have persists := (WalletEffect.changed changed).frame.persists.assets
  obtain ⟨t, l, rfl, wrote, -⟩ := changed.result
  exact .transition changed.found changed.moves t wrote l persists

theorem Step.commits {α : Type} {body : Tx Db Fault α} (framed : frame db db) (effect : ∀ a db', body.run db = .ok (a, db') →
    ∃ old new, Changed operation db db' withdrawalId old new funds) : Step guard frame db (Rounded.commits body db) := by
  rcases commit_cases (runTransaction ledgerField body) db with same | ⟨a, ran⟩
  · rw [Rounded.commits, same]
    exact .elsewhere db rfl rfl framed
  · obtain ⟨old, new, changed⟩ := effect a _ (runTransaction_ok ran)
    exact .changed changed

theorem Step.platform {config : WalletConfig} {s : Platform} (reached : Platform.Reached config s) (action : Action)
    (other : ∀ k now, action ≠ .wallet (.request k now)) (framed : frame s.db (s.step config action).db)
    (still : frame s.db s.db) : Step guard frame s.db (s.step config action).db := by
  -- whatever the platform does within the frame, but a request, is such a step
  cases action with
  | trading action => exact .elsewhere _ rfl rfl framed
  | wallet action =>
    cases deposit : action.isDeposit with
    | true =>
      obtain ⟨effect, withdrawals⟩ := @walletStep_deposits config s action deposit
      exact .elsewhere _ withdrawals effect.frame.assetNetworks framed
    | false =>
      have standing : action.isRequest = false := by
        cases action with
        | request k now => exact absurd rfl (other k now)
        | _ => rfl
      have effect : StandingEffect s.db (s.walletStep config action).db :=
        walletStep_standing reached.integrity.declarations deposit standing
      change Step guard frame s.db (s.walletStep config action).db
      cases effect with
      | unchanged same =>
        rw [same]
        exact .elsewhere _ rfl rfl still
      | changed done => exact .changed done

end Operations

section Fixed

structure Fixed (db db' : Db) : Prop where
  -- what a request reads besides the withdrawals stays as it is
  users : db'.core.users = db.core.users
  assets : db'.core.ledger.assets = db.core.ledger.assets
  networks : db'.wallet.networks = db.wallet.networks
  assetNetworks : db'.wallet.assetNetworks = db.wallet.assetNetworks

variable {config : WalletConfig} {db db' db'' : Db} {userId : Nat} {dto : RequestWithdrawalDto} {prepared : Prepared}

theorem Fixed.refl (db : Db) : Fixed db db := ⟨rfl, rfl, rfl, rfl⟩

theorem Fixed.trans (first : Fixed db db') (second : Fixed db' db'') : Fixed db db'' :=
  ⟨second.users.trans first.users, second.assets.trans first.assets, second.networks.trans first.networks,
    second.assetNetworks.trans first.assetNetworks⟩

/-- Any number of transactions that leave users, assets and networks alone. -/
abbrev Later : Db → Db → Prop := Relation.ReflTransGen (Step (fun _ _ _ => True) Fixed)

structure Kept (db db' : Db) : Prop where
  -- nor does a withdrawal lose what it was requested with
  fixed : Fixed db db'
  withdrawals : Table.Carries WithdrawalsService.terms db.wallet.withdrawals db'.wallet.withdrawals

theorem Step.kept (step : Step (fun _ _ _ => True) Fixed db db') : Kept db db' := by
  cases step with
  | request now prepared fits guarded =>
    rcases commit_cases (runTransaction ledgerField (Rounded.chargedRequest now prepared)) db with same | ⟨w, ran⟩
    · rw [Rounded.commits, same]
      exact ⟨.refl db, .refl _ _⟩
    · rcases request_created (runTransaction_ok ran) with ⟨same, -⟩ | created
      · rw [Rounded.commits, same]
        exact ⟨.refl db, .refl _ _⟩
      · obtain ⟨t, l, same, assets, wrote⟩ := created.result
        rw [Rounded.commits, same]
        exact ⟨⟨rfl, assets, rfl, rfl⟩,
          .of_wrote wrote fun old found => absurd (Table.get?_lt found) (lt_irrefl _)⟩
  | transition found moves t wrote l assets =>
    refine ⟨⟨rfl, assets, rfl, rfl⟩, .of_wrote wrote fun old there => ?_⟩
    rw [found] at there
    cases there
    exact moves.terms
  | elsewhere db' withdrawals assetNetworks framed =>
    refine ⟨framed, ?_⟩
    rw [withdrawals]
    exact .refl _ _

theorem Later.kept (later : Later db db') : Kept db db' := by
  induction later with
  | refl => exact ⟨.refl db, .refl _ _⟩
  | tail earlier step ih => exact ⟨ih.fixed.trans step.kept.fixed, ih.withdrawals.trans step.kept.withdrawals⟩

theorem step_later {s : Platform} (reached : Platform.Reached config s) (action : Action)
    (other : ∀ k now, action ≠ .wallet (.request k now)) : Later s.db (s.step config action).db := by
  have kept := @Platform.step_kept config _ reached.integrity action
  exact .single (.platform reached action other ⟨kept.users, kept.persists.assets, kept.networks, kept.assetNetworks⟩
    (.refl _))

theorem checkDestination_again {asset : Asset} {network : Network} {assetNetwork : AssetNetwork} {u : Unit}
    (done : (checkDestination config dto asset network assetNetwork).run db = .ok (u, db')) (db'' : Db) :
    db' = db ∧ (checkDestination config dto asset network assetNetwork).run db'' = .ok ((), db'') := by
  simp only [checkDestination, run_bind_ok, run_throwIf_ok] at done ⊢
  obtain ⟨_, _, ⟨minimum, rfl⟩, _, _, ⟨scale, rfl⟩, _, _, ⟨memo, rfl⟩, _, _, ⟨address, rfl⟩, tag, rfl⟩ := done
  exact ⟨rfl, (), _, ⟨minimum, rfl⟩, (), _, ⟨scale, rfl⟩, (), _, ⟨memo, rfl⟩, (), _, ⟨address, rfl⟩, tag, rfl⟩

theorem checkOwner_again {u : Unit} (done : (checkOwner userId).run db = .ok (u, db'))
    (users : db''.core.users = db.core.users) : db' = db ∧ (checkOwner userId).run db'' = .ok ((), db'') := by
  simp only [checkOwner, run_bind_ok, run_read, run_orThrow_ok, run_throwIf_ok, Except.ok.injEq, Prod.mk.injEq] at done ⊢
  obtain ⟨_, _, ⟨rfl, rfl⟩, user, _, ⟨found, rfl⟩, active, rfl⟩ := done
  exact ⟨rfl, _, _, ⟨rfl, rfl⟩, user, _, ⟨by rw [users]; exact found, rfl⟩, active, rfl⟩

theorem findRoute_again {route : (Nat × Asset) × (Nat × Network) × (Nat × AssetNetwork)}
    (done : (findRoute dto).run db = .ok (route, db')) (fixed : Fixed db db'') :
    db' = db ∧ (findRoute dto).run db'' = .ok (route, db'') ∧
      db.core.ledger.assets.find? (fun asset => decide (asset.symbol = dto.assetSymbol)) = some route.1 := by
  simp only [findRoute, run_bind_ok, run_read, run_orThrow_ok, run_throwIf_ok, run_pure, Except.ok.injEq,
    Prod.mk.injEq] at done ⊢
  obtain ⟨_, _, ⟨rfl, rfl⟩, _, _, ⟨rfl, rfl⟩, asset, _, ⟨named, rfl⟩, network, _, ⟨coded, rfl⟩, _, _, ⟨rfl, rfl⟩,
    assetNetwork, _, ⟨paired, rfl⟩, _, _, ⟨active, rfl⟩, rfl, rfl⟩ := done
  exact ⟨rfl, ⟨_, _, ⟨rfl, rfl⟩, _, _, ⟨rfl, rfl⟩, asset, _, ⟨by rw [fixed.assets]; exact named, rfl⟩,
    network, _, ⟨by rw [fixed.networks]; exact coded, rfl⟩, _, _, ⟨rfl, rfl⟩, assetNetwork, _,
    ⟨by rw [fixed.assetNetworks]; exact paired, rfl⟩, (), _, ⟨active, rfl⟩, rfl, rfl⟩, named⟩

theorem prepare_again {compliance compliance' : WithdrawalComplianceAssessment} {randomUUID randomUUID' : String}
    (done : (prepare config userId dto compliance randomUUID).run db = .ok (prepared, db')) (fixed : Fixed db db'')
    (supplied : dto.clientWithdrawalId ≠ none) (allowed : compliance'.decision ≠ .blocked) :
    (prepare config userId dto compliance' randomUUID').run db'' = .ok ({ prepared with compliance := compliance' }, db'') ∧
      prepared.userId = userId ∧ prepared.amount = dto.amount ∧
      ∃ asset, db.core.ledger.assets.find? (fun asset => decide (asset.symbol = dto.assetSymbol)) =
        some (prepared.assetId, asset) := by
  obtain ⟨key, given⟩ := Option.ne_none_iff_exists'.mp supplied
  simp only [prepare, run_bind_ok] at done ⊢
  obtain ⟨_, _, owned, ⟨⟨assetId, asset⟩, ⟨networkId, network⟩, assetNetworkId, assetNetwork⟩, _, routed, _, _, checked, rest⟩ := done
  obtain ⟨rfl, owned'⟩ := checkOwner_again owned fixed.users
  obtain ⟨rfl, routed', named⟩ := findRoute_again routed fixed
  obtain ⟨rfl, checked'⟩ := checkDestination_again checked db''
  simp only [run_throwIf_ok, run_pure, Except.ok.injEq, Prod.mk.injEq] at rest ⊢
  obtain ⟨_, _, ⟨enough, rfl⟩, _, _, ⟨-, rfl⟩, rfl, rfl⟩ := rest
  refine ⟨⟨(), _, owned', _, _, routed', (), _, checked', (), _, ⟨enough, rfl⟩, (), _, ⟨allowed, rfl⟩, ?_, rfl⟩, rfl, rfl,
    asset, named⟩
  simp only [given, Option.getD_some]

end Fixed

section Replay

variable {config : WalletConfig} {db db' : Db} {now : Time} {prepared : Prepared} {w userId : Nat} {row : Withdrawal}
  {dto : RequestWithdrawalDto}

/-- A call of `request` whose transaction follows its reads at once. -/
def submit (config : WalletConfig) (now : Time) (userId : Nat) (dto : RequestWithdrawalDto)
    (compliance : WithdrawalComplianceAssessment) (randomUUID : String) : Tx Db Fault Nat := do
  let prepared ← prepare config userId dto compliance randomUUID
  runTransaction Db.ledgerField (Rounded.chargedRequest now prepared)

theorem insert_replayed (found : db.wallet.withdrawals.get? w = some row)
    (mine : row.userId = prepared.userId) (key : row.clientWithdrawalId = prepared.clientWithdrawalId)
    (valid : RowSpec.check (insertedRow now prepared) = true) :
    db.wallet.withdrawals.insert (insertedRow now prepared) = .error (.uniqueViolation ["userId", "clientWithdrawalId"]) := by
  -- the row that a replay would insert clashes with the row that is there, on the client's key
  refine Table.insert_taken valid (Table.get?_mem found) ?_ ?_
  · simp [RowSpec.clash, insertedRow, withdrawalRow, mine, key, uniqueOn]
  · intro other _ target hit
    -- the new row has no hash, so that only the client's key can clash
    simp only [RowSpec.clash, Option.or_eq_some_iff, uniqueOn_eq_some] at hit
    rcases hit with ⟨-, rfl⟩ | ⟨-, ⟨-, hashed⟩, -⟩
    · rfl
    · exact absurd rfl hashed

theorem check_inserted {first : Time} {compliance : WithdrawalComplianceAssessment}
    (valid : RowSpec.check (createdRow first prepared) = true) :
    RowSpec.check (insertedRow now { prepared with compliance := compliance }) = true := by
  -- the checks on a withdrawal's row do not depend on its status before it is sent, nor on the time
  simp only [RowSpec.check, createdRow, insertedRow, withdrawalRow, Withdrawal.isOnChain, Bool.and_eq_true] at valid ⊢
  exact ⟨valid.1, by simp⟩

/-- Once its row is there, a request returns it exactly when its amount has kept all its decimals and the daily limit
would admit it a second time. -/
theorem request_replayed (found : db.wallet.withdrawals.get? w = some row) (mine : row.userId = prepared.userId)
    (key : row.clientWithdrawalId = prepared.clientWithdrawalId)
    (route : row.assetNetworkId = prepared.assetNetworkId ∧ row.destinationAddress = prepared.destinationAddress ∧
      row.destinationTag = prepared.destinationTag)
    (amount : row.amount = Decimal.column prepared.amount) (storable : Storable prepared)
    (valid : RowSpec.check (insertedRow now prepared) = true) :
    (Rounded.chargedRequest now prepared).run db = .ok (w, db) ↔
      Places Decimal.SCALE prepared.amount ∧ FitsDailyLimit db now prepared.userId prepared.assetId prepared.amount := by
  have taken := insert_replayed found mine key valid
  have located : db.wallet.withdrawals.find? (fun w => decide (w.userId = prepared.userId) &&
      decide (w.clientWithdrawalId = prepared.clientWithdrawalId)) = some (w, row) := by
    refine Table.find?_of_unique found (by simp [mine, key]) fun a b first second => ?_
    simp only [Bool.and_eq_true, decide_eq_true_eq] at first second
    simp [RowSpec.clash, uniqueOn, first, second]
  have matches_row : prepared.matchesRow row ↔ Places Decimal.SCALE prepared.amount := by
    rw [← Decimal.column_eq_iff, ← amount]
    exact ⟨fun same => same.2.2.2, fun same => ⟨route.1, route.2.1, route.2.2, same⟩⟩
  constructor
  · intro done
    unfold Rounded.chargedRequest at done
    obtain ⟨⟨i, existed⟩, _, created, rest⟩ := run_bind_ok.mp done
    rcases run_createIdempotent_ok created with ⟨-, body⟩ | ⟨rfl, looked, e, target, failed, reported, -⟩
    · simp only [run_bind_ok, Rounded.run_write_ok, run_create_ok, withdrawalsField_get] at body
      obtain ⟨_, _, checked, _, _, ⟨-, rfl, rfl⟩, _, _, ⟨-, rfl, rfl⟩, t, inserted, -⟩ := body
      obtain rfl := (Rounded.checkDailyLimit_ok checked).symm
      rw [← insertedRow, taken] at inserted
      cases inserted
    · simp only [run_bind_ok, run_findOrThrow_ok, run_pure, Except.ok.injEq, Prod.mk.injEq] at looked
      obtain ⟨hit, _, ⟨found', rfl⟩, rfl, rfl⟩ := looked
      rw [withdrawalsField_get, located] at found'
      cases found'
      simp only [if_true, run_bind_ok, run_getOrThrow_ok, run_throwIf_ok, run_pure, withdrawalsField_get] at rest
      obtain ⟨current, _, ⟨there, rfl⟩, _, _, ⟨same, -⟩, -⟩ := rest
      rw [found] at there
      cases there
      refine ⟨matches_row.mp (not_not.mp same), ?_⟩
      rcases run_bind_error.mp failed with refused | ⟨_, db₁, checked, -⟩
      · rw [checkDailyLimit_error refused] at reported
        cases reported
      · exact checkDailyLimit_passes checked
  · rintro ⟨exact, within⟩
    have checked := run_checkDailyLimit.mpr within
    unfold Rounded.chargedRequest
    refine run_bind_ok.mpr ⟨(w, true), db, run_createIdempotent_of_existing
      (run_bind_error.mpr (.inr ⟨(), db, checked, run_bind_error.mpr (.inr ⟨_, db, Rounded.run_write_ok.mpr ⟨storable.1, rfl, rfl⟩,
        run_bind_error.mpr (.inr ⟨_, db, Rounded.run_write_ok.mpr ⟨storable.2, rfl, rfl⟩,
          run_create_error.mpr ⟨_, taken, rfl⟩⟩)⟩)⟩)) (by simp)
      (run_bind_ok.mpr ⟨(w, row), db, run_findOrThrow_ok.mpr ⟨located, rfl⟩, rfl⟩), ?_⟩
    simp only [if_true, run_bind_ok, run_getOrThrow_ok, run_throwIf_ok, run_pure]
    exact ⟨row, db, ⟨found, rfl⟩, (), db, ⟨not_not.mpr (matches_row.mpr exact), rfl⟩, rfl⟩

/-- A request of this user with these fields has just created the withdrawal: its reads were made in some
earlier state, and its transaction has committed. -/
inductive RequestCreated (config : WalletConfig) (userId : Nat) (dto : RequestWithdrawalDto) (w : Nat) : Db → Prop
  | intro {before looked db db' : Db} {compliance : WithdrawalComplianceAssessment} {randomUUID : String}
      {prepared : Prepared} {now : Time}
      (prepares : (prepare config userId dto compliance randomUUID).run before = .ok (prepared, looked))
      (between : Later before db) (new : db.wallet.withdrawals.get? w = none)
      (committed : (runTransaction ledgerField (Rounded.chargedRequest now prepared)).run db = .ok (w, db')) :
      RequestCreated config userId dto w db'

end Replay

section Sample

theorem oneLimit_checked : ∀ row ∈ [RiskLimit.mk 1 none (some 100) none none], RowSpec.check row = true := by
  decide +kernel

theorem oneLimit_distinct :
    [RiskLimit.mk 1 none (some 100) none none].Pairwise fun a b => RowSpec.clash a b = none :=
  List.pairwise_singleton _ _

def Seed.limited : Seed :=
  -- the sample data, with a daily limit of 100 on the withdrawals of one user
  { Rounded.Seed.sample with
    riskLimits := ⟨[⟨1, none, some 100, none, none⟩], oneLimit_checked, oneLimit_distinct⟩ }

def limitedRequest (amount : ℚ) : RequestWithdrawalDto := ⟨"ETH", "ETHEREUM", amount, "0xdest", none, some "w"⟩

def limitedPrepared (amount : ℚ) : Prepared := ⟨1, 0, "ETH", 0, "0xdest", none, amount, 1, "w", ⟨.pass, none⟩⟩

def funded : Db := Rounded.step (Platform.initial Seed.limited).db (Rounded.deposited "0x1" 500)

/-- The first call of `request`, at time 0. -/
def limitedWithdrawal (amount : ℚ) : Db :=
  Rounded.commits (Rounded.chargedRequest 0 (limitedPrepared amount)) funded

theorem limitedWithdrawal_created {amount : ℚ}
    (prepares : ((prepare .sample 1 (limitedRequest amount) ⟨.pass, none⟩ "u").run funded).map Prod.fst =
      .ok (limitedPrepared amount))
    (committed : ((runTransaction ledgerField (Rounded.chargedRequest 0 (limitedPrepared amount))).run funded).map Prod.fst =
      .ok 0) : RequestCreated .sample 1 (limitedRequest amount) 0 (limitedWithdrawal amount) := by
  cases looked : (prepare .sample 1 (limitedRequest amount) ⟨.pass, none⟩ "u").run funded with
  | error e =>
    rw [looked] at prepares
    cases prepares
  | ok found =>
    rw [looked] at prepares
    cases ran : (runTransaction ledgerField (Rounded.chargedRequest 0 (limitedPrepared amount))).run funded with
    | error e =>
      rw [ran] at committed
      cases committed
    | ok ended =>
      rw [ran] at committed
      have first : found = (limitedPrepared amount, found.2) := Prod.ext (Except.ok.inj prepares) rfl
      have second : ended = (0, ended.2) := Prod.ext (Except.ok.inj committed) rfl
      rw [first] at looked
      rw [second] at ran
      have same : limitedWithdrawal amount = ended.2 := by
        rw [limitedWithdrawal, Rounded.commits, commit, ran]
      rw [same]
      exact .intro looked .refl (Option.isNone_iff_eq_none.mp (by decide +kernel)) ran

end Sample

end VerdictVaut.Requests

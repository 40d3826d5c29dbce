import VerdictVaut.Shared.Runs
import VerdictVaut.Wallet.Evm
import VerdictVaut.Wallet.Types

set_option autoImplicit false

namespace VerdictVaut

open Relational Relational.Tx

inductive WalletAddressStatus
  | available | assigned | inactive | retired
  deriving DecidableEq, Repr

inductive NetworkEnvironment
  | sandbox | production
  deriving DecidableEq, Repr

structure PooledAddress extends WalletAddress where
  -- a wallet address with the columns by which the pool hands it out
  environment : NetworkEnvironment
  status : WalletAddressStatus
  createdAt : Time
  deriving DecidableEq

instance : RowSpec PooledAddress where
  check _ := true
  clash a b := RowSpec.clash a.toWalletAddress b.toWalletAddress
  clash_symm _ _ := RowSpec.clash_symm _ _

structure DepositAddressAssignment where
  userId : Nat
  assetId : Nat
  networkId : Nat
  assetNetworkId : Nat
  walletAddressId : Nat
  destinationTag : Option String
  environment : NetworkEnvironment
  deriving DecidableEq

instance : RowSpec DepositAddressAssignment where
  check _ := true
  clash a b := (uniqueOn ["walletAddressId"] (a.walletAddressId = b.walletAddressId)).or
    (uniqueOn ["userId", "assetId", "networkId"]
      (a.userId = b.userId ∧ a.assetId = b.assetId ∧ a.networkId = b.networkId))
  clash_symm a b := by
    simp only [uniqueOn, @eq_comm _ a.walletAddressId, @eq_comm _ a.userId, @eq_comm _ a.assetId,
      @eq_comm _ a.networkId]

namespace DepositAddressService

structure Db where
  assets : Table Asset
  networks : Table Network
  assetNetworks : Table AssetNetwork
  walletAddresses : Table PooledAddress
  assignments : Table DepositAddressAssignment

def walletAddressesField : Field Db (Table PooledAddress) where
  get db := db.walletAddresses
  set t db := { db with walletAddresses := t }

def assignmentsField : Field Db (Table DepositAddressAssignment) where
  get db := db.assignments
  set t db := { db with assignments := t }

def findRoute (assetSymbol networkCode : String) : Tx Db Fault (Nat × Nat × Nat) := do
  -- the ids of an asset, a network and the active pair of the two
  let asset ← read fun db => db.assets.find? fun asset => decide (asset.symbol = assetSymbol)
  let network ← read fun db => db.networks.find? fun network => decide (network.code = networkCode)
  let asset ← orThrow asset (.badRequest "Unknown asset symbol or network code")
  let network ← orThrow network (.badRequest "Unknown asset symbol or network code")
  let assetNetwork ← read fun db => db.assetNetworks.find? fun assetNetwork =>
    decide (assetNetwork.assetId = asset.1 ∧ assetNetwork.networkId = network.1)
  let unsupported := Fault.badRequest (assetSymbol ++ " is not currently supported on " ++ networkCode)
  let assetNetwork ← orThrow assetNetwork unsupported
  throwIf (assetNetwork.2.isActive = false) unsupported
  pure (asset.1, network.1, assetNetwork.1)

def isFor (userId assetId networkId : Nat) (assignment : DepositAddressAssignment) : Bool :=
  decide (assignment.userId = userId ∧ assignment.assetId = assetId ∧ assignment.networkId = networkId)

/-- `ORDER BY "createdAt" ASC LIMIT 1 FOR UPDATE SKIP LOCKED`: the oldest free address that no other transaction
has locked. -/
def nextAvailable (db : Db) (assetNetworkId : Nat) (locked : Nat → Bool) : Option (Nat × PooledAddress) :=
  let free := db.walletAddresses.findMany fun row =>
    decide (row.assetNetworkId = assetNetworkId ∧ row.status = .available)
  Table.earliest PooledAddress.createdAt (free.filter fun row => !locked row.1)

def assign (userId assetId networkId assetNetworkId : Nat) (claimed : Nat × PooledAddress) :
    Tx Db Fault DepositAddressAssignment := do
  update walletAddressesField claimed.1 { claimed.2 with status := .assigned }
  let assignment : DepositAddressAssignment :=
    { userId := userId
      assetId := assetId
      networkId := networkId
      assetNetworkId := assetNetworkId
      walletAddressId := claimed.1
      destinationTag := claimed.2.destinationTag
      environment := claimed.2.environment }
  let _ ← create assignmentsField assignment
  pure assignment

def getOrAssign (locked : Nat → Bool) (userId : Nat) (assetSymbol networkCode : String) :
    Tx Db Fault DepositAddressAssignment := do
  let (assetId, networkId, assetNetworkId) ← findRoute assetSymbol networkCode
  match ← find? assignmentsField (isFor userId assetId networkId) with
  | some existing => pure existing.2
  | none =>
    let available ← read fun db => nextAvailable db assetNetworkId locked
    let claimed ← orThrow available (.badRequest ("No available deposit address for " ++ assetSymbol ++ " on " ++
      networkCode ++ " — an admin needs to provision more."))
    assign userId assetId networkId assetNetworkId claimed

structure ProvisionAddress where
  assetNetworkId : Nat
  address : String
  destinationTag : Option String
  environment : NetworkEnvironment

def provisionAddress (params : ProvisionAddress) (now : Time) : Tx Db Fault Nat := do
  let assetNetwork ← read fun db => db.assetNetworks.get? params.assetNetworkId
  let _ ← orThrow assetNetwork (.notFound "Asset/network pair not found")
  create walletAddressesField
    { assetNetworkId := params.assetNetworkId
      address := params.address
      destinationTag := params.destinationTag
      environment := params.environment
      status := .available
      createdAt := now }

def loadWatchedAddresses (db : Db) (assetNetworkId : Nat) : List WatchedAddress :=
  let rows := db.walletAddresses.findMany fun row =>
    decide (row.assetNetworkId = assetNetworkId ∧ row.status = .assigned)
  (rows.filter fun row => db.assignments.rows.any fun assignment => decide (assignment.walletAddressId = row.1)).map
    fun row => ⟨row.1, row.2.address, row.2.destinationTag⟩

inductive Action
  | getOrAssign (locked : Nat → Bool) (userId : Nat) (assetSymbol networkCode : String)
  | provisionAddress (params : ProvisionAddress) (now : Time)

def step (db : Db) : Action → Db
  -- each call is one transaction; a call that throws leaves no trace
  | .getOrAssign locked userId assetSymbol networkCode => commit (getOrAssign locked userId assetSymbol networkCode) db
  | .provisionAddress params now => commit (provisionAddress params now) db

def Starts (db : Db) : Prop :=
  -- some assets and networks are there; no address has been provisioned
  db.walletAddresses.rows = [] ∧ db.assignments.rows = []

/-- The account that an address denotes: of an EVM address the letter case is no part, and `spelled` says it for the
other families. -/
def account (spelled : NetworkFamily → String → String) : NetworkFamily → String → String
  | .evm, address => toLowerCase address
  | family, address => spelled family address

def accountAt (spelled : NetworkFamily → String → String) (db : Db) (assetNetworkId : Nat) (address : String) :
    Option String := do
  let assetNetwork ← db.assetNetworks.get? assetNetworkId
  let network ← db.networks.get? assetNetwork.networkId
  some (account spelled network.family address)

def accountOf (spelled : NetworkFamily → String → String) (db : Db) (row : PooledAddress) : Option String :=
  accountAt spelled db row.assetNetworkId row.address

def provisions (actions : List Action) : List ProvisionAddress :=
  -- what the provisioning calls among these were asked to provision
  actions.filterMap fun action =>
    match action with
    | .provisionAddress params _ => some params
    | .getOrAssign .. => none

def OneSpelling (spelled : NetworkFamily → String → String) (db : Db) (actions : List Action) : Prop :=
  -- no account of a known asset network is provisioned under two spellings
  ∀ params ∈ provisions actions, ∀ other ∈ provisions actions, db.assetNetworks.get? params.assetNetworkId ≠ none →
    other.assetNetworkId = params.assetNetworkId →
    accountAt spelled db other.assetNetworkId other.address = accountAt spelled db params.assetNetworkId params.address →
    other.address = params.address

/-- A user has one assignment per asset and network; an address is assigned when it has an assignment, and then it
has one; and no two users are assigned addresses of one asset network that denote the same account. -/
structure Exclusive (spelled : NetworkFamily → String → String) (db : Db) : Prop where
  once : ∀ j k a b, db.assignments.get? j = some a → db.assignments.get? k = some b →
    a.userId = b.userId → a.assetId = b.assetId → a.networkId = b.networkId → j = k
  assigned : ∀ i row, db.walletAddresses.get? i = some row →
    (row.status = .assigned ↔ ∃ j a, db.assignments.get? j = some a ∧ a.walletAddressId = i)
  single : ∀ j k a b, db.assignments.get? j = some a → db.assignments.get? k = some b →
    a.walletAddressId = b.walletAddressId → j = k
  apart : ∀ j k a b rowA rowB, db.assignments.get? j = some a → db.assignments.get? k = some b →
    db.walletAddresses.get? a.walletAddressId = some rowA → db.walletAddresses.get? b.walletAddressId = some rowB →
    rowA.assetNetworkId = rowB.assetNetworkId → a.userId ≠ b.userId → accountOf spelled db rowA ≠ accountOf spelled db rowB

section Steps

variable {db db' : Db} {locked : Nat → Bool} {userId : Nat} {assetSymbol networkCode : String}

structure Assigned (db db' : Db) (userId i : Nat) (row : PooledAddress) (a : DepositAddressAssignment) : Prop where
  -- the assignment of this address to a new holder
  addresses : db.walletAddresses.Wrote db'.walletAddresses i { row with status := .assigned }
  assignments : db'.assignments.rows = db.assignments.rows ++ [a]
  assets : db'.assets = db.assets
  networks : db'.networks = db.networks
  assetNetworks : db'.assetNetworks = db.assetNetworks
  free : db.walletAddresses.get? i = some row ∧ row.status = .available
  placed : a.walletAddressId = i ∧ a.assetNetworkId = row.assetNetworkId
  holder : a.userId = userId
  new : ∀ b ∈ db.assignments.rows, ¬ (b.userId = a.userId ∧ b.assetId = a.assetId ∧ b.networkId = a.networkId)
  routed : ∃ assetNetwork, db.assetNetworks.get? a.assetNetworkId = some assetNetwork ∧
    assetNetwork.assetId = a.assetId ∧ assetNetwork.networkId = a.networkId

/-- What a call may do: nothing; provision a free address as it is asked to; or assign a free address. -/
inductive Stepped (db : Db) : Action → Db → Prop
  | stays (a : Action) : Stepped db a db
  | provisioned (params : ProvisionAddress) (now : Time) (row : PooledAddress) (t : Table PooledAddress)
      (free : row.status = .available) (inserted : t.rows = db.walletAddresses.rows ++ [row])
      (asked : row.assetNetworkId = params.assetNetworkId ∧ row.address = params.address)
      (known : db.assetNetworks.get? params.assetNetworkId ≠ none) :
      Stepped db (.provisionAddress params now) { db with walletAddresses := t }
  | assigned {locked : Nat → Bool} {userId : Nat} {assetSymbol networkCode : String} {i : Nat} {row : PooledAddress}
      {a : DepositAddressAssignment} {db' : Db} (assigned : Assigned db db' userId i row a) :
      Stepped db (.getOrAssign locked userId assetSymbol networkCode) db'

theorem nextAvailable_some {assetNetworkId i : Nat} {row : PooledAddress}
    (next : nextAvailable db assetNetworkId locked = some (i, row)) :
    db.walletAddresses.get? i = some row ∧ row.assetNetworkId = assetNetworkId ∧ row.status = .available := by
  have member := Table.earliest_mem next
  rw [List.mem_filter, Table.mem_findMany, decide_eq_true_eq] at member
  exact member.1

theorem findRoute_ok {route : Nat × Nat × Nat} (done : (findRoute assetSymbol networkCode).run db = .ok (route, db')) :
    db = db' ∧ ∃ assetNetwork, db.assetNetworks.get? route.2.2 = some assetNetwork ∧
      assetNetwork.assetId = route.1 ∧ assetNetwork.networkId = route.2.1 := by
  simp only [findRoute, run_bind_ok, run_read, run_orThrow_ok, run_throwIf_ok, run_pure, Except.ok.injEq,
    Prod.mk.injEq] at done
  obtain ⟨_, _, ⟨rfl, rfl⟩, _, _, ⟨rfl, rfl⟩, asset, _, ⟨-, rfl⟩, network, _, ⟨-, rfl⟩, _, _, ⟨rfl, rfl⟩,
    assetNetwork, _, ⟨found, rfl⟩, _, _, ⟨-, rfl⟩, rfl, rfl⟩ := done
  obtain ⟨position, same⟩ := Table.find?_some found
  exact ⟨rfl, assetNetwork.2, position, by simpa using same⟩

theorem assign_ok {assetId networkId assetNetworkId i : Nat} {row : PooledAddress} {a : DepositAddressAssignment}
    (done : (assign userId assetId networkId assetNetworkId (i, row)).run db = .ok (a, db'))
    (free : db.walletAddresses.get? i = some row ∧ row.status = .available)
    (onNetwork : row.assetNetworkId = assetNetworkId)
    (none_yet : db.assignments.find? (isFor userId assetId networkId) = none)
    (routed : ∃ assetNetwork, db.assetNetworks.get? assetNetworkId = some assetNetwork ∧
      assetNetwork.assetId = assetId ∧ assetNetwork.networkId = networkId) : Assigned db db' userId i row a := by
  simp only [assign, run_bind_ok, run_update_ok, run_create_ok, run_pure, Except.ok.injEq, Prod.mk.injEq] at done
  obtain ⟨_, _, ⟨addresses, updated, rfl⟩, _, _, ⟨assignments, inserted, -, rfl⟩, rfl, rfl⟩ := done
  constructor
  case addresses => exact .of_update updated
  case assignments => exact (Table.insert_ok inserted).2.2
  case free => exact free
  case placed => exact ⟨rfl, onNetwork.symm⟩
  case holder => rfl
  case new =>
    intro b member same
    have other := Table.find?_none.mp none_yet b member
    simp [isFor, same] at other
  case routed => exact routed
  all_goals rfl

theorem getOrAssign_stepped {a : DepositAddressAssignment}
    (done : (getOrAssign locked userId assetSymbol networkCode).run db = .ok (a, db')) :
    Stepped db (.getOrAssign locked userId assetSymbol networkCode) db' := by
  rw [getOrAssign, run_bind_ok] at done
  obtain ⟨⟨assetId, networkId, assetNetworkId⟩, _, route, rest⟩ := done
  obtain ⟨rfl, routed⟩ := findRoute_ok route
  rw [run_bind_of_ok run_find?] at rest
  cases existing : db.assignments.find? (isFor userId assetId networkId) with
  | some found =>
    simp only [assignmentsField, existing, run_pure, Except.ok.injEq, Prod.mk.injEq] at rest
    obtain ⟨-, rfl⟩ := rest
    exact .stays _
  | none =>
    simp only [assignmentsField, existing, run_bind_ok, run_read, run_orThrow_ok, Except.ok.injEq,
      Prod.mk.injEq] at rest
    obtain ⟨_, _, ⟨rfl, rfl⟩, ⟨i, row⟩, _, ⟨next, rfl⟩, assigned⟩ := rest
    obtain ⟨found, onNetwork, free⟩ := nextAvailable_some next
    exact .assigned (assign_ok assigned ⟨found, free⟩ onNetwork existing routed)

theorem provisionAddress_stepped {params : ProvisionAddress} {now : Time} {i : Nat}
    (done : (provisionAddress params now).run db = .ok (i, db')) : Stepped db (.provisionAddress params now) db' := by
  simp only [provisionAddress, run_bind_ok, run_read, run_orThrow_ok, run_create_ok, Except.ok.injEq,
    Prod.mk.injEq] at done
  obtain ⟨_, _, ⟨rfl, rfl⟩, _, _, ⟨known, rfl⟩, t, inserted, -, rfl⟩ := done
  exact .provisioned params now _ t rfl (Table.insert_ok inserted).2.2 ⟨rfl, rfl⟩ (by simp [known])

theorem step_stepped (db : Db) (action : Action) : Stepped db action (step db action) := by
  cases action with
  | getOrAssign locked userId assetSymbol networkCode =>
    rcases commit_cases (getOrAssign locked userId assetSymbol networkCode) db with same | ⟨a, done⟩
    · rw [step, same]
      exact .stays _
    · exact getOrAssign_stepped done
  | provisionAddress params now =>
    rcases commit_cases (provisionAddress params now) db with same | ⟨i, done⟩
    · rw [step, same]
      exact .stays _
    · exact provisionAddress_stepped done

/-- Nothing is taken back: reference data, assignments and the addresses themselves stay as they are. -/
structure Kept (db db' : Db) : Prop where
  networks : db'.networks = db.networks
  assetNetworks : db'.assetNetworks = db.assetNetworks
  assignments : db.assignments.Carries id db'.assignments
  addresses : db.walletAddresses.Carries PooledAddress.toWalletAddress db'.walletAddresses

structure Sound (db : Db) : Prop where
  -- what every reached state satisfies, whatever the addresses denote
  assigned : ∀ i row, db.walletAddresses.get? i = some row →
    (row.status = .assigned ↔ ∃ j a, db.assignments.get? j = some a ∧ a.walletAddressId = i)
  placed : ∀ j a, db.assignments.get? j = some a →
    ∃ row, db.walletAddresses.get? a.walletAddressId = some row ∧ row.assetNetworkId = a.assetNetworkId
  routed : ∀ j a, db.assignments.get? j = some a → ∃ assetNetwork,
    db.assetNetworks.get? a.assetNetworkId = some assetNetwork ∧ assetNetwork.assetId = a.assetId ∧
      assetNetwork.networkId = a.networkId

theorem Starts.sound (starts : Starts db) : Sound db := by
  have none_yet (j : Nat) : db.assignments.get? j = none := by simp [Table.get?, starts.2]
  have no_address (i : Nat) : db.walletAddresses.get? i = none := by simp [Table.get?, starts.1]
  constructor <;> simp [none_yet, no_address]

theorem Sound.stepped {action : Action} (sound : Sound db) (stepped : Stepped db action db') : Sound db' := by
  cases stepped with
  | stays => exact sound
  | provisioned params now row t free inserted asked known =>
    have get := Table.get?_of_append inserted
    constructor
    case assigned =>
      intro i other found
      rw [get] at found
      split at found
      next last =>
        cases found
        -- the id of a new address is not referenced yet
        constructor
        next => intro assigned; rw [free] at assigned; cases assigned
        next =>
          rintro ⟨j, a, there, points⟩
          obtain ⟨_, inside, -⟩ := sound.placed j a there
          exact absurd (Table.get?_lt inside) (by rw [points, last]; exact lt_irrefl _)
      next => exact sound.assigned i other found
    case placed =>
      intro j a there
      obtain ⟨other, found, same⟩ := sound.placed j a there
      refine ⟨other, ?_, same⟩
      rw [get, if_neg (Nat.ne_of_lt (Table.get?_lt found)), found]
    case routed => exact sound.routed
  | @assigned _ _ _ _ i row a _ assigned =>
    have get := Table.get?_of_append assigned.assignments
    constructor
    case assigned =>
      intro j other found
      rw [assigned.addresses j] at found
      by_cases same : j = i
      next =>
        rw [if_pos same] at found
        cases found
        refine ⟨fun _ => ⟨db.assignments.size, a, by rw [get, if_pos rfl], assigned.placed.1.trans same.symm⟩, ?_⟩
        exact fun _ => rfl
      next =>
        rw [if_neg same] at found
        rw [sound.assigned j other found]
        constructor
        next =>
          rintro ⟨k, b, there, points⟩
          exact ⟨k, b, by rw [get, if_neg (Nat.ne_of_lt (Table.get?_lt there)), there], points⟩
        next =>
          rintro ⟨k, b, there, points⟩
          rw [get] at there
          split at there
          next => cases there; exact absurd (points.symm.trans assigned.placed.1) same
          next => exact ⟨k, b, there, points⟩
    case placed =>
      intro k b there
      rw [get] at there
      split at there
      next =>
        cases there
        rw [assigned.placed.1]
        exact ⟨_, assigned.addresses.get, assigned.placed.2.symm⟩
      next =>
        obtain ⟨other, found, same⟩ := sound.placed k b there
        by_cases this : b.walletAddressId = i
        next =>
          rw [this, assigned.free.1] at found
          cases found
          rw [this]
          exact ⟨_, assigned.addresses.get, same⟩
        next => exact ⟨other, (assigned.addresses.other this).trans found, same⟩
    case routed =>
      intro k b there
      rw [assigned.assetNetworks]
      rw [get] at there
      split at there
      next => cases there; exact assigned.routed
      next => exact sound.routed k b there

theorem assigned_once {j k : Nat} {a b : DepositAddressAssignment}
    (first : db.assignments.get? j = some a) (second : db.assignments.get? k = some b)
    (user : a.userId = b.userId) (asset : a.assetId = b.assetId) (network : a.networkId = b.networkId) : j = k := by
  by_contra different
  have apart := Table.clash_of_ne first second different
  simp [RowSpec.clash, uniqueOn, user, asset, network] at apart

theorem assigned_single {j k : Nat} {a b : DepositAddressAssignment} (first : db.assignments.get? j = some a)
    (second : db.assignments.get? k = some b) (same : a.walletAddressId = b.walletAddressId) : j = k := by
  by_contra different
  have apart := Table.clash_of_ne first second different
  simp [RowSpec.clash, uniqueOn, same] at apart

variable {spelled : NetworkFamily → String → String}

theorem Sound.users_differ (sound : Sound db) {j k : Nat} {a b : DepositAddressAssignment}
    (first : db.assignments.get? j = some a) (second : db.assignments.get? k = some b)
    (onNetwork : a.assetNetworkId = b.assetNetworkId) (different : j ≠ k) : a.userId ≠ b.userId := by
  intro user
  obtain ⟨assetNetwork, found, asset, network⟩ := sound.routed j a first
  obtain ⟨assetNetwork', found', asset', network'⟩ := sound.routed k b second
  rw [onNetwork, found'] at found
  cases found
  exact different (assigned_once first second user (asset.symm.trans asset') (network.symm.trans network'))

structure Provisioned (start : Db) (asked : List ProvisionAddress) (db : Db) : Prop where
  -- the pool holds what was provisioned, over the reference data of the start
  networks : db.networks = start.networks
  assetNetworks : db.assetNetworks = start.assetNetworks
  known : ∀ i row, db.walletAddresses.get? i = some row → start.assetNetworks.get? row.assetNetworkId ≠ none
  asked : ∀ i row, db.walletAddresses.get? i = some row →
    ∃ params ∈ asked, params.assetNetworkId = row.assetNetworkId ∧ params.address = row.address

theorem Provisioned.mono {start : Db} {asked asked' : List ProvisionAddress} (provisioned : Provisioned start asked db)
    (more : asked ⊆ asked') : Provisioned start asked' db where
  networks := provisioned.networks
  assetNetworks := provisioned.assetNetworks
  known := provisioned.known
  asked i row found := by
    obtain ⟨params, member, same⟩ := provisioned.asked i row found
    exact ⟨params, more member, same⟩

theorem Provisioned.stepped {start : Db} {asked : List ProvisionAddress} {action : Action}
    (provisioned : Provisioned start asked db) (stepped : Stepped db action db') (listed : provisions [action] ⊆ asked) :
    Provisioned start asked db' := by
  cases stepped with
  | stays => exact provisioned
  | provisioned params now row t free inserted as_asked known =>
    have get := Table.get?_of_append inserted
    constructor
    case networks => exact provisioned.networks
    case assetNetworks => exact provisioned.assetNetworks
    case known =>
      intro i other found
      rw [get] at found
      split at found
      next =>
        cases found
        rwa [as_asked.1, ← provisioned.assetNetworks]
      next => exact provisioned.known i other found
    case asked =>
      intro i other found
      rw [get] at found
      split at found
      next =>
        cases found
        exact ⟨params, listed (by simp [provisions]), as_asked.1.symm, as_asked.2.symm⟩
      next => exact provisioned.asked i other found
  | @assigned _ _ _ _ j row a _ assigned =>
    -- an assignment rewrites the status of its address only
    have same {i : Nat} {other : PooledAddress} (found : db'.walletAddresses.get? i = some other) :
        ∃ was, db.walletAddresses.get? i = some was ∧ other.toWalletAddress = was.toWalletAddress := by
      rw [assigned.addresses i] at found
      split at found
      next here =>
        cases found
        exact ⟨row, by rw [here, assigned.free.1], rfl⟩
      next => exact ⟨other, found, rfl⟩
    constructor
    case networks => rw [assigned.networks, provisioned.networks]
    case assetNetworks => rw [assigned.assetNetworks, provisioned.assetNetworks]
    case known =>
      intro i other found
      obtain ⟨was, before, columns⟩ := same found
      rw [columns]
      exact provisioned.known i was before
    case asked =>
      intro i other found
      obtain ⟨was, before, columns⟩ := same found
      rw [columns]
      exact provisioned.asked i was before

theorem Provisioned.foldl {start : Db} (starts : Starts start) (actions : List Action) :
    Provisioned start (provisions actions) (actions.foldl step start) := by
  induction actions using List.reverseRecOn with
  | nil =>
    have empty (i : Nat) : start.walletAddresses.get? i = none := by simp [Table.get?, starts.1]
    constructor <;> simp [empty]
  | append_singleton actions action ih =>
    rw [List.foldl_append, List.foldl_cons, List.foldl_nil]
    have all : provisions (actions ++ [action]) = provisions actions ++ provisions [action] := List.filterMap_append
    rw [all]
    exact (ih.mono (List.subset_append_left ..)).stepped (step_stepped _ action) (List.subset_append_right ..)

/-- Two addresses of an asset network are spelled differently, by the unique index, and so they denote two accounts. -/
theorem Provisioned.accounts_differ {start : Db} {actions : List Action}
    (provisioned : Provisioned start (provisions actions) db) (one : OneSpelling spelled start actions) {i j : Nat}
    {rowA rowB : PooledAddress} (first : db.walletAddresses.get? i = some rowA)
    (second : db.walletAddresses.get? j = some rowB) (different : i ≠ j)
    (onNetwork : rowA.assetNetworkId = rowB.assetNetworkId) : accountOf spelled db rowA ≠ accountOf spelled db rowB := by
  have spellings : rowA.address ≠ rowB.address := by
    intro same
    have clash := Table.clash_of_ne first second different
    have apart := uniqueOn_eq_none.mp clash
    exact apart ⟨onNetwork, same⟩
  have fixed (assetNetworkId : Nat) (address : String) :
      accountAt spelled db assetNetworkId address = accountAt spelled start assetNetworkId address := by
    unfold accountAt
    rw [provisioned.networks, provisioned.assetNetworks]
  intro same
  rw [accountOf, accountOf, fixed, fixed] at same
  obtain ⟨paramsA, askedA, networkA, addressA⟩ := provisioned.asked i rowA first
  obtain ⟨paramsB, askedB, networkB, addressB⟩ := provisioned.asked j rowB second
  have known := provisioned.known j rowB second
  rw [← networkB] at known
  have spelled_same := one paramsB askedB paramsA askedA known (by rw [networkA, networkB, onNetwork])
    (by rw [networkA, networkB, addressA, addressB, same])
  rw [addressA, addressB] at spelled_same
  exact spellings spelled_same

theorem Sound.exclusive {start : Db} {actions : List Action} (sound : Sound db)
    (provisioned : Provisioned start (provisions actions) db) (one : OneSpelling spelled start actions) :
    Exclusive spelled db := by
  constructor
  case once => exact fun j k a b first second => assigned_once first second
  case assigned => exact sound.assigned
  case single => exact fun j k a b first second => assigned_single first second
  case apart =>
    intro j k a b rowA rowB first second foundA foundB onNetwork users
    have different : a.walletAddressId ≠ b.walletAddressId := by
      intro same
      have one_row := assigned_single first second same
      subst one_row
      cases first.symm.trans second
      exact users rfl
    exact provisioned.accounts_differ one foundA foundB different onNetwork

theorem mem_loadWatchedAddresses {assetNetworkId : Nat} {watched : WatchedAddress} :
    watched ∈ loadWatchedAddresses db assetNetworkId ↔ ∃ row, db.walletAddresses.get? watched.walletAddressId = some row ∧
      row.assetNetworkId = assetNetworkId ∧ row.status = .assigned ∧
      (∃ a ∈ db.assignments.rows, a.walletAddressId = watched.walletAddressId) ∧
      watched.address = row.address ∧ watched.destinationTag = row.destinationTag := by
  simp only [loadWatchedAddresses, List.mem_map, List.mem_filter, Prod.exists, Table.mem_findMany, List.any_eq_true,
    decide_eq_true_eq]
  constructor
  next =>
    rintro ⟨i, row, ⟨⟨found, onNetwork, status⟩, assignment⟩, rfl⟩
    exact ⟨row, found, onNetwork, status, assignment, rfl, rfl⟩
  next =>
    rintro ⟨row, found, onNetwork, status, assignment, address, tag⟩
    refine ⟨watched.walletAddressId, row, ⟨⟨found, onNetwork, status⟩, assignment⟩, ?_⟩
    rw [← address, ← tag]

theorem Exclusive.byLowercaseAddress (sound : Sound db) (exclusive : Exclusive spelled db) {assetNetworkId : Nat}
    {assetNetwork : AssetNetwork} {network : Network} (pair : db.assetNetworks.get? assetNetworkId = some assetNetwork)
    (onNetwork : db.networks.get? assetNetwork.networkId = some network) (evm : network.family = .evm)
    {watched : WatchedAddress} (listed : watched ∈ loadWatchedAddresses db assetNetworkId) :
    VerdictVaut.byLowercaseAddress (loadWatchedAddresses db assetNetworkId) (toLowerCase watched.address) =
      some watched := by
  -- then the mapper of an EVM network finds each watched address under its own account, and no other
  have account_eq {row : PooledAddress} (on : row.assetNetworkId = assetNetworkId) :
      accountOf spelled db row = some (toLowerCase row.address) := by
    simp [accountOf, accountAt, on, pair, onNetwork, evm, account]
  cases looked : VerdictVaut.byLowercaseAddress (loadWatchedAddresses db assetNetworkId) (toLowerCase watched.address) with
  | none =>
    have missed := List.find?_eq_none.mp looked watched (List.mem_reverse.mpr listed)
    simp at missed
  | some other =>
    have same : toLowerCase other.address = toLowerCase watched.address := by simpa using List.find?_some looked
    have among := List.mem_reverse.mp (List.mem_of_find?_eq_some looked)
    obtain ⟨row, found, on, -, ⟨a, member, points⟩, address, tag⟩ := mem_loadWatchedAddresses.mp listed
    obtain ⟨row', found', on', -, ⟨b, member', points'⟩, address', tag'⟩ := mem_loadWatchedAddresses.mp among
    obtain ⟨j, there⟩ := Table.mem_iff_get?.mp member
    obtain ⟨k, there'⟩ := Table.mem_iff_get?.mp member'
    by_cases one : j = k
    next =>
      -- one assignment, one address
      subst one
      rw [there] at there'
      cases there'
      rw [← points, points', found'] at found
      cases found
      have id : other.walletAddressId = watched.walletAddressId := points'.symm.trans points
      obtain ⟨_, _, _⟩ := watched
      obtain ⟨_, _, _⟩ := other
      simp_all
    next =>
      obtain ⟨_, placed, onA⟩ := sound.placed j a there
      obtain ⟨_, placed', onB⟩ := sound.placed k b there'
      rw [points, found] at placed
      rw [points', found'] at placed'
      cases placed
      cases placed'
      have users := sound.users_differ there there' (by rw [← onA, ← onB, on, on']) one
      have apart := exclusive.apart j k a b row row' there there' (by rw [points, found]) (by rw [points', found'])
        (by rw [on, on']) users
      rw [account_eq on, account_eq on', ← address, ← address', same] at apart
      exact absurd rfl apart

/-- When no account is provisioned under two spellings, the deposit addresses are exclusive all along the run. -/
theorem addresses_exclusive {actions : List Action} (starts : Starts db) (one : OneSpelling spelled db actions)
    (earlier rest : List Action) (split : actions = earlier ++ rest) : Exclusive spelled (earlier.foldl step db) := by
  have sound : Sound (earlier.foldl step db) :=
    (Reachable.refl starts |>.foldl earlier).invariant Sound (fun _ => Starts.sound) fun s a _ before =>
      before.stepped (step_stepped s a)
  have listed : provisions earlier ⊆ provisions actions := by
    rw [split, provisions, provisions, List.filterMap_append]
    exact List.subset_append_left ..
  exact sound.exclusive ((Provisioned.foldl starts earlier).mono listed) one

end Steps

instance (spelled : NetworkFamily → String → String) (db : Db) (actions : List Action) :
    Decidable (OneSpelling spelled db actions) := by
  unfold OneSpelling
  infer_instance

def twoSpellings : List Action :=
  -- two spellings of one EVM account are provisioned, and two users ask for an address
  [.provisionAddress ⟨0, "0x52908400098527886E0F7030069857D2E4169EE7", none, .production⟩ 0,
    .provisionAddress ⟨0, "0x52908400098527886e0f7030069857d2e4169ee7", none, .production⟩ 1,
    .getOrAssign (fun _ => false) 0 "ETH" "ethereum", .getOrAssign (fun _ => false) 1 "ETH" "ethereum"]

def emptyPool : Db where
  assets := ⟨[⟨"ETH", 18, false⟩], by decide, by decide⟩
  networks := ⟨[⟨"ethereum", .evm⟩], by decide, by decide⟩
  assetNetworks := ⟨[⟨0, 0, false, 0, true⟩], by decide, by decide⟩
  walletAddresses := .empty
  assignments := .empty

def twoAccounts : List Action :=
  -- two accounts, the first of them twice under one spelling: the second of these calls is refused
  [.provisionAddress ⟨0, "0x52908400098527886E0F7030069857D2E4169EE7", none, .production⟩ 0,
    .provisionAddress ⟨0, "0x52908400098527886E0F7030069857D2E4169EE7", none, .production⟩ 1,
    .provisionAddress ⟨0, "0x8617E340B3D01FA5F11F306F4090FD50E238070D", none, .production⟩ 2,
    .getOrAssign (fun _ => false) 0 "ETH" "ethereum", .getOrAssign (fun _ => false) 1 "ETH" "ethereum"]

theorem twoAccounts_exclusive : (twoAccounts.foldl step emptyPool).assignments.size = 2 ∧
    Exclusive (fun _ address => address) (twoAccounts.foldl step emptyPool) :=
  ⟨by decide +kernel, addresses_exclusive ⟨rfl, rfl⟩ (by decide +kernel) twoAccounts [] rfl⟩

/-- Both users get one account, and what is sent to the address of the first is mapped to that of the second. -/
theorem twoSpellings_shared : Starts emptyPool ∧
    ¬ Exclusive (fun _ address => address) (twoSpellings.foldl step emptyPool) ∧
    (mapNativeBlockToDeposits ⟨0, [⟨"0x1", some "0x52908400098527886E0F7030069857D2E4169EE7", 1⟩]⟩
      (loadWatchedAddresses (twoSpellings.foldl step emptyPool) 0) 0 18).map RawChainDeposit.walletAddressId = [1] := by
  refine ⟨⟨rfl, rfl⟩, fun exclusive => ?_, by decide +kernel⟩
  have first : (twoSpellings.foldl step emptyPool).assignments.get? 0 = some ⟨0, 0, 0, 0, 0, none, .production⟩ := by
    decide +kernel
  have second : (twoSpellings.foldl step emptyPool).assignments.get? 1 = some ⟨1, 0, 0, 0, 1, none, .production⟩ := by
    decide +kernel
  have upper : (twoSpellings.foldl step emptyPool).walletAddresses.get? 0 =
      some ⟨⟨0, "0x52908400098527886E0F7030069857D2E4169EE7", none⟩, .production, .assigned, 0⟩ := by
    decide +kernel
  have lower : (twoSpellings.foldl step emptyPool).walletAddresses.get? 1 =
      some ⟨⟨0, "0x52908400098527886e0f7030069857d2e4169ee7", none⟩, .production, .assigned, 1⟩ := by
    decide +kernel
  exact exclusive.apart 0 1 _ _ _ _ first second upper lower rfl (by decide) (by decide +kernel)

end DepositAddressService

end VerdictVaut

import VerdictVaut.System.Charged
import VerdictVaut.System.WithdrawalRuns
import VerdictVaut.Wallet.Fireblocks

set_option autoImplicit false

namespace VerdictVaut

open Relational Relational.Tx WithdrawalsService

namespace WithdrawalsService

def isUnsent (w : Withdrawal) : Bool :=
  -- nothing has been recorded yet of a broadcast, or what was recorded has been declared lost
  decide (w.status ∈ [WithdrawalStatus.requested, .riskReview, .approved, .broadcasting, .pendingManualBroadcast,
    .executionAmbiguous])

def Unhashed (db : Db) : Prop :=
  ∀ id w, db.wallet.withdrawals.get? id = some w → isUnsent w = true → w.txHash = none

section Unhashed

variable {db db' : Db} {operation : Operation} {old new : Withdrawal} {funds : Funds}

theorem Moves.unhashed (moves : Moves operation old new funds) (before : isUnsent old = true → old.txHash = none)
    (unsent : isUnsent new = true) : new.txHash = none := by
  cases moves with
  | cancel | reject | fail | failProviderRejectedSubmission | confirmBroadcast | recordManualBroadcast
  | recordProviderBroadcast | recordUnconfirmed | creditConfirmed => simp [isUnsent] at unsent
  | declareExecutionAmbiguous => rfl
  | approve allowed | claimLease allowed | confirmNotExecuted allowed => exact before (by simp [isUnsent, allowed])
  | recordExecution now outcome allowed =>
    have none := before (by simp [isUnsent, allowed])
    unfold executed at unsent ⊢
    split
    next => exact none
    next => simp [isUnsent] at unsent
    next => exact none
    next => exact none

theorem Unhashed.wrote {db db' : Db} {id : Nat} {row : Withdrawal} (unhashed : Unhashed db)
    (wrote : Table.Wrote db.wallet.withdrawals db'.wallet.withdrawals id row)
    (fresh : isUnsent row = true → row.txHash = none) : Unhashed db' := by
  intro other w found
  by_cases same : other = id
  next =>
    rw [same, wrote.get] at found
    rwa [← Option.some.inj found]
  next =>
    rw [wrote.other same] at found
    exact unhashed other w found

theorem Unhashed.kept (unhashed : Unhashed db) (effect : WalletEffect db db') : Unhashed db' := by
  cases effect with
  | unchanged same => rwa [same]
  | changed done =>
    obtain ⟨t, l, rfl, wrote, -⟩ := done.result
    exact unhashed.wrote wrote fun unsent => done.moves.unhashed (unhashed _ _ done.found) unsent
  | requested fits done =>
    obtain ⟨t, l, assetId, asset, rfl, wrote, -⟩ := done.result
    exact unhashed.wrote wrote fun _ => rfl
  | observed done =>
    obtain ⟨t, l, rfl, -⟩ := done.result
    exact unhashed
  | rejected found waiting same wrote =>
    rw [same]
    exact unhashed

end Unhashed

end WithdrawalsService

theorem Platform.ReachedUnder.unhashed {fees : FeeCalculator} {config : WalletConfig} {s : Platform}
    (reserve : fees.Reserves) (reached : Platform.ReachedUnder fees config s) : Unhashed s.db := by
  apply Reachable.invariant (fun s : Platform => Unhashed s.db) _ _ reached
  next =>
    rintro _ ⟨seed, rfl⟩
    intro id w found
    cases found
  next =>
    intro s action earlier unhashed
    cases action with
    | trading action => exact unhashed
    | wallet action =>
      have integrity := Platform.ReachedUnder.integrity reserve earlier
      exact unhashed.kept (@Platform.walletStep_effect config s integrity action)

namespace FireblocksWebhookService

open FireblocksCustodyAdapter (given PENDING_STATUSES BROADCAST_STATUSES REJECTED_STATUSES)

structure WebhookData where
  id : Option String
  status : Option String
  txHash : Option String
  externalTxId : Option Nat
  lastUpdated : Option String
  deriving DecidableEq

structure FireblocksWebhookEnvelope where
  type : Option String
  data : Option WebhookData
  deriving DecidableEq

inductive FireblocksWebhookOutcome
  | processed | duplicate | unrecognized | error
  deriving DecidableEq

inductive LookupStatus
  | pending | broadcast | rejected
  deriving DecidableEq

structure WithdrawalExecutorStatusLookup where
  status : LookupStatus
  txHash : Option String
  providerReference : Option String
  reason : Option String
  deriving DecidableEq

def unrecognizedStatusMessage (status : String) : String :=
  "Fireblocks reported transaction status \"" ++ status ++ "\", which is not in this adapter's verified status list — " ++
    "refusing to guess whether this means pending/broadcast/rejected. Treat as ambiguous and investigate directly with Fireblocks."

def mapFireblocksResponseToStatusLookup (id status : String) (txHash : Option String) :
    Except String WithdrawalExecutorStatusLookup :=
  if REJECTED_STATUSES.contains status then .ok ⟨.rejected, none, some id, some ("Fireblocks status " ++ status)⟩
  else if BROADCAST_STATUSES.contains status then
    match given txHash with
    | some hash => .ok ⟨.broadcast, some hash, some id, none⟩
    | none => .ok ⟨.pending, none, some id, some ("Fireblocks reported status " ++ status ++ " but no txHash yet.")⟩
  else if PENDING_STATUSES.contains status then .ok ⟨.pending, none, some id, none⟩
  else .error (unrecognizedStatusMessage status)

def identified (payload : FireblocksWebhookEnvelope) : Option (WebhookData × String × String) :=
  -- the data of an envelope that can be told apart from others: its transaction and its status
  match payload.data with
  | none => none
  | some data =>
    match given data.id, given data.status with
    | some id, some status => some (data, id, status)
    | _, _ => none

def externalEventId (data : WebhookData) (id status : String) : String :=
  id ++ ":" ++ status ++ ":" ++ data.lastUpdated.getD "no-timestamp"

structure ProviderWebhookEvent where
  externalEventId : String
  eventType : String
  resourceId : String
  payload : FireblocksWebhookEnvelope
  processedAt : Option Time
  processingNote : Option String
  processingError : Option String
  deriving DecidableEq

def ProviderWebhookEvent.received (payload : FireblocksWebhookEnvelope) (externalEventId id : String) :
    ProviderWebhookEvent :=
  { externalEventId := externalEventId
    eventType := payload.type.getD "UNKNOWN"
    resourceId := id
    payload := payload
    processedAt := none
    processingNote := none
    processingError := none }

def markProcessed (event : ProviderWebhookEvent) (now : Time) (error : Option String) : ProviderWebhookEvent :=
  { event with
    processedAt := some now
    processingError := error
    processingNote := some (if (given error).isSome then "failed" else "ok") }

/-- What `interpretAndApply` asks of the withdrawals. -/
inductive WithdrawalCall
  | recordProviderBroadcast (txHash : String) (providerReference : Option String)
  | failProviderRejectedSubmission (reason : String)
  deriving DecidableEq

def WithdrawalCall.body (now : Time) (withdrawalId : Nat) : WithdrawalCall → Tx Db Fault Bool
  | .recordProviderBroadcast txHash providerReference =>
    WithdrawalsService.recordProviderBroadcast now withdrawalId txHash providerReference
  | .failProviderRejectedSubmission reason => WithdrawalsService.failProviderRejectedSubmission withdrawalId reason

def WithdrawalCall.action (now : Time) (withdrawalId : Nat) : WithdrawalCall → WalletAction
  | .recordProviderBroadcast txHash providerReference =>
    .recordProviderBroadcast now withdrawalId txHash providerReference
  | .failProviderRejectedSubmission reason => .failProviderRejectedSubmission withdrawalId reason

def callOf (lookup : WithdrawalExecutorStatusLookup) : Option WithdrawalCall :=
  match lookup.status, given lookup.txHash with
  | .broadcast, some txHash => some (.recordProviderBroadcast txHash lookup.providerReference)
  | .rejected, _ =>
    some (.failProviderRejectedSubmission (lookup.reason.getD "Provider webhook reported rejection."))
  | _, _ => none

inductive Kind
  | created | duplicate | malformed | reprocess
  deriving DecidableEq

inductive Phase
  -- where a request stands: between two of its awaits
  | recorded (data : WebhookData)
  | uncorrelated
  | applied
  | failed (error : String)
  | returned (outcome : FireblocksWebhookOutcome)
  | threw
  deriving DecidableEq

structure Delivery where
  kind : Kind
  eventId : Option Nat
  phase : Phase
  deriving DecidableEq

/-- What is learnt of an update of the event's row: that it took effect, or an error, when it may have or not. -/
inductive Reply
  | received
  | lost (error : String)
  | refused (error : String)
  deriving DecidableEq

structure State where
  platform : Platform
  events : List ProviderWebhookEvent
  deliveries : List Delivery
  -- the deliveries that have come to their interpretation, the first first
  interpreted : List Nat

inductive WebhookAction
  | platform (action : Action)
  | deliver (payload : FireblocksWebhookEnvelope) (audited : Bool)
  | reprocess (eventId : Nat)
  | interpret (k : Nat) (now : Time) (late : Option Fault)
  | mark (k : Nat) (now : Time) (reply : Reply)
  | crash (k : Nat)

def State.turns (s : State) (k : Nat) (delivery : Delivery) (phase : Phase) : State :=
  { s with deliveries := s.deliveries.set k { delivery with phase := phase } }

def State.marks (s : State) (eventId : Option Nat) (now : Time) (error : Option String) : State :=
  match eventId with
  | none => s
  | some i => { s with events := s.events.modify i fun event => markProcessed event now error }

section Step

variable (fees : FeeCalculator) (config : WalletConfig) (message : Fault → String)

/-- `processWebhookPayload` up to the interpretation: the insert of the event's row decides which request goes on. An
error of the audit log that follows it leaves the row behind. -/
def delivers (s : State) (payload : FireblocksWebhookEnvelope) (audited : Bool) : State :=
  match identified payload with
  | none => { s with deliveries := s.deliveries ++ [⟨.malformed, none, .returned .unrecognized⟩] }
  | some (data, id, status) =>
    match s.events.findIdx? fun event => event.externalEventId = externalEventId data id status with
    | some i => { s with deliveries := s.deliveries ++ [⟨.duplicate, some i, .returned .duplicate⟩] }
    | none =>
      { s with
        events := s.events ++ [.received payload (externalEventId data id status) id]
        deliveries := s.deliveries ++
          [⟨.created, some s.events.length, if audited then .recorded data else .threw⟩] }

def reprocesses (s : State) (eventId : Nat) : State :=
  match s.events[eventId]? with
  | none => s
  | some event =>
    match identified event.payload with
    | none => { s with deliveries := s.deliveries ++ [⟨.reprocess, some eventId, .returned .unrecognized⟩] }
    | some (data, _, _) => { s with deliveries := s.deliveries ++ [⟨.reprocess, some eventId, .recorded data⟩] }

def thrown (s : Platform) (body : Tx Db Fault Bool) (late : Option Fault) : Option Fault :=
  -- the call's own error, if its transaction throws, or one that comes after its commit
  match (runTransaction Db.ledgerField body).run s.db with
  | .ok _ => late
  | .error fault => some fault

/-- The platform after `interpretAndApply`, and where the request goes on. -/
def interpretAndApply (s : Platform) (data : WebhookData) (now : Time) (late : Option Fault) : Platform × Phase :=
  match data.externalTxId with
  | none => (s, .uncorrelated)
  | some withdrawalId =>
    match mapFireblocksResponseToStatusLookup (data.id.getD "") (data.status.getD "") data.txHash with
    | .error error => (s, .failed error)
    | .ok lookup =>
      match callOf lookup with
      | none => (s, .applied)
      | some call =>
        (s.walletStep config (call.action now withdrawalId),
          match thrown s (call.body now withdrawalId) late with
          | none => .applied
          | some fault => .failed (message fault))

def interprets (s : State) (k : Nat) (delivery : Delivery) (data : WebhookData) (now : Time) (late : Option Fault) :
    State :=
  let (platform, phase) := interpretAndApply config message s.platform data now late
  { s.turns k delivery phase with platform := platform, interpreted := s.interpreted ++ [k] }

def UNCORRELATED : String :=
  "Payload has no externalTxId — cannot correlate to a VerdictVaut withdrawal."

/-- The update of the event's row that ends a request. Only that of a success is inside the `try`. -/
def marked (s : State) (k : Nat) (delivery : Delivery) (now : Time) (error : Option String)
    (outcome : FireblocksWebhookOutcome) (onError : String → Phase) : Reply → State
  | .received => (s.marks delivery.eventId now error).turns k delivery (.returned outcome)
  | .lost late => (s.marks delivery.eventId now error).turns k delivery (onError late)
  | .refused late => s.turns k delivery (onError late)

def step (s : State) : WebhookAction → State
  | .platform action => { s with platform := s.platform.stepUnder fees config action }
  | .deliver payload audited => delivers s payload audited
  | .reprocess eventId => reprocesses s eventId
  | .interpret k now late =>
    match s.deliveries[k]? with
    | some ⟨kind, eventId, .recorded data⟩ =>
      interprets config message s k ⟨kind, eventId, .recorded data⟩ data now late
    | _ => s
  | .mark k now reply =>
    match s.deliveries[k]? with
    | some ⟨kind, eventId, .uncorrelated⟩ =>
      marked s k ⟨kind, eventId, .uncorrelated⟩ now (some UNCORRELATED) .unrecognized (fun _ => .threw) reply
    | some ⟨kind, eventId, .applied⟩ => marked s k ⟨kind, eventId, .applied⟩ now none .processed .failed reply
    | some ⟨kind, eventId, .failed error⟩ =>
      marked s k ⟨kind, eventId, .failed error⟩ now (some error) .error (fun _ => .threw) reply
    | _ => s
  | .crash k =>
    match s.deliveries[k]? with
    | some ⟨_, _, .returned _⟩ => s
    | some delivery => s.turns k delivery .threw
    | none => s

def initially (platform : Platform) : State where
  platform := platform
  events := []
  deliveries := []
  interpreted := []

def Reached : State → Prop :=
  Reachable (fun s => ∃ seed, s = initially (Platform.initial seed)) (step fees config message)

end Step

section Deliveries

def firsts (deliveries : List Delivery) : List Nat :=
  -- the events that the requests of some log were the first to bring
  deliveries.filterMap fun delivery => if delivery.kind = .created then delivery.eventId else none

structure Later (event event' : ProviderWebhookEvent) : Prop where
  -- the same event, which may have been processed since
  key : event'.externalEventId = event.externalEventId
  payload : event'.payload = event.payload
  processed : event.processedAt ≠ none → event'.processedAt ≠ none

def Kept (events events' : List ProviderWebhookEvent) : Prop :=
  ∀ (i : Nat) (event : ProviderWebhookEvent), events[i]? = some event →
    ∃ event', events'[i]? = some event' ∧ Later event event'

/-- The event of a request that is past its insert, and whether it has been processed by the end of the request. -/
structure Knows (events : List ProviderWebhookEvent) (delivery : Delivery) : Prop where
  source : ∀ data, delivery.phase = .recorded data → ∃ i event id status, delivery.eventId = some i ∧
    events[i]? = some event ∧ identified event.payload = some (data, id, status)
  listed : delivery.kind ≠ .malformed → ∃ i event, delivery.eventId = some i ∧ events[i]? = some event
  done : delivery.kind = .created ∨ delivery.kind = .reprocess → ∀ outcome, delivery.phase = .returned outcome →
    ∃ i event, delivery.eventId = some i ∧ events[i]? = some event ∧ event.processedAt ≠ none
  closed : delivery.kind = .malformed ∨ delivery.kind = .duplicate → ∃ outcome, delivery.phase = .returned outcome

structure Sound (s : State) : Prop where
  keys : (s.events.map ProviderWebhookEvent.externalEventId).Nodup
  named : ∀ event ∈ s.events, ∃ data id status, identified event.payload = some (data, id, status) ∧
    event.externalEventId = externalEventId data id status
  created : firsts s.deliveries = List.range s.events.length
  knows : ∀ delivery ∈ s.deliveries, Knows s.events delivery
  once : s.interpreted.Nodup
  past : ∀ k ∈ s.interpreted, ∃ delivery, s.deliveries[k]? = some delivery ∧ ∀ data, delivery.phase ≠ .recorded data

variable {s : State} {events events' : List ProviderWebhookEvent} {deliveries : List Delivery} {delivery : Delivery}
  {k : Nat} {phase : Phase}

theorem Later.refl (event : ProviderWebhookEvent) : Later event event := ⟨rfl, rfl, id⟩

theorem Kept.refl (events : List ProviderWebhookEvent) : Kept events events :=
  fun _ event found => ⟨event, found, .refl event⟩

theorem Kept.modify (events : List ProviderWebhookEvent) (i : Nat) (now : Time) (error : Option String) :
    Kept events (events.modify i fun event => markProcessed event now error) := by
  intro j event found
  rw [List.getElem?_modify, found]
  refine ⟨_, rfl, ?_⟩
  split
  next => exact ⟨rfl, rfl, fun _ => by simp [markProcessed]⟩
  next => exact .refl event

theorem Kept.append (events added : List ProviderWebhookEvent) : Kept events (events ++ added) := by
  intro i event found
  refine ⟨event, ?_, .refl event⟩
  rw [List.getElem?_append_left (List.getElem?_eq_some_iff.mp found).1]
  exact found

theorem Kept.keys (kept : Kept events events') (length : events'.length = events.length) :
    events'.map ProviderWebhookEvent.externalEventId = events.map ProviderWebhookEvent.externalEventId := by
  apply List.ext_getElem?
  intro i
  rw [List.getElem?_map, List.getElem?_map]
  cases found : events[i]? with
  | none =>
    have outside : events'.length ≤ i := by
      rw [length]
      exact List.getElem?_eq_none_iff.mp found
    rw [List.getElem?_eq_none_iff.mpr outside]
  | some event =>
    obtain ⟨event', found', later⟩ := kept i event found
    rw [found', Option.map_some, Option.map_some, later.key]

theorem firsts_set {next : Delivery} (listed : deliveries[k]? = some delivery) (kind : next.kind = delivery.kind)
    (eventId : next.eventId = delivery.eventId) : firsts (deliveries.set k next) = firsts deliveries := by
  unfold firsts
  induction deliveries generalizing k with
  | nil => simp at listed
  | cons first rest ih =>
    cases k with
    | zero =>
      obtain rfl := Option.some.inj listed
      rw [List.set_cons_zero, List.filterMap_cons, List.filterMap_cons, kind, eventId]
    | succ k =>
      rw [List.set_cons_succ, List.filterMap_cons, List.filterMap_cons, ih listed]

theorem Knows.kept (knows : Knows events delivery) (kept : Kept events events') : Knows events' delivery := by
  constructor
  next =>
    intro data recorded
    obtain ⟨i, event, id, status, mine, found, source⟩ := knows.source data recorded
    obtain ⟨event', found', later⟩ := kept i event found
    rw [← later.payload] at source
    exact ⟨i, event', id, status, mine, found', source⟩
  next =>
    intro formed
    obtain ⟨i, event, mine, found⟩ := knows.listed formed
    obtain ⟨event', found', -⟩ := kept i event found
    exact ⟨i, event', mine, found'⟩
  next =>
    intro kind outcome returned
    obtain ⟨i, event, mine, found, processed⟩ := knows.done kind outcome returned
    obtain ⟨event', found', later⟩ := kept i event found
    exact ⟨i, event', mine, found', later.processed processed⟩
  next => exact knows.closed

theorem Knows.turn (knows : Knows events delivery) (kept : Kept events events')
    (running : ∀ outcome, delivery.phase ≠ .returned outcome) (unrecorded : ∀ data, phase ≠ .recorded data)
    (done : ∀ outcome, phase = .returned outcome → ∀ i event, delivery.eventId = some i → events'[i]? = some event →
      event.processedAt ≠ none) : Knows events' { delivery with phase := phase } := by
  have opened : ¬ (delivery.kind = .malformed ∨ delivery.kind = .duplicate) := by
    intro closed
    obtain ⟨outcome, returned⟩ := knows.closed closed
    exact running outcome returned
  obtain ⟨i, event, mine, found⟩ := (knows.kept kept).listed fun malformed => opened (.inl malformed)
  constructor
  next => exact fun data recorded => absurd recorded (unrecorded data)
  next => exact fun _ => ⟨i, event, mine, found⟩
  next => exact fun _ outcome returned => ⟨i, event, mine, found, done outcome returned i event mine found⟩
  next => exact fun closed => absurd closed opened

theorem Sound.turn (sound : Sound s) {platform : Platform} {interpreted : List Nat}
    (listed : s.deliveries[k]? = some delivery) (kept : Kept s.events events')
    (length : events'.length = s.events.length) (knows : Knows events' { delivery with phase := phase })
    (unrecorded : ∀ data, phase ≠ .recorded data)
    (once : interpreted = s.interpreted ∨ (interpreted = s.interpreted ++ [k] ∧ k ∉ s.interpreted)) :
    Sound ⟨platform, events', s.deliveries.set k { delivery with phase := phase }, interpreted⟩ := by
  have inside : k < s.deliveries.length := (List.getElem?_eq_some_iff.mp listed).1
  constructor
  next =>
    rw [kept.keys length]
    exact sound.keys
  next =>
    intro event' member
    obtain ⟨i, found'⟩ := List.mem_iff_getElem?.mp member
    have within : i < s.events.length := by
      rw [← length]
      exact (List.getElem?_eq_some_iff.mp found').1
    obtain ⟨other, same, later⟩ := kept i s.events[i] (List.getElem?_eq_getElem within)
    obtain rfl := Option.some.inj (found'.symm.trans same)
    obtain ⟨data, id, status, source, key⟩ := sound.named s.events[i] (List.getElem_mem within)
    exact ⟨data, id, status, by rw [later.payload]; exact source, by rw [later.key]; exact key⟩
  next =>
    change firsts (s.deliveries.set k { delivery with phase := phase }) = List.range events'.length
    rw [length, ← sound.created]
    exact firsts_set listed rfl rfl
  next =>
    intro other member
    rcases List.mem_or_eq_of_mem_set member with before | rfl
    next => exact (sound.knows other before).kept kept
    next => exact knows
  next =>
    rcases once with rfl | ⟨rfl, new⟩
    next => exact sound.once
    next =>
      rw [List.nodup_append]
      refine ⟨sound.once, List.nodup_singleton k, ?_⟩
      intro old before same member
      obtain rfl := List.mem_singleton.mp member
      rintro rfl
      exact new before
  next =>
    have mine : (s.deliveries.set k { delivery with phase := phase })[k]? = some { delivery with phase := phase } := by
      rw [List.getElem?_set_self inside]
    intro j member
    by_cases same : j = k
    next =>
      subst same
      exact ⟨_, mine, unrecorded⟩
    next =>
      have before : j ∈ s.interpreted := by
        rcases once with rfl | ⟨rfl, -⟩
        next => exact member
        next => exact (List.mem_append.mp member).resolve_right fun last => same (List.mem_singleton.mp last)
      obtain ⟨other, found, past⟩ := sound.past j before
      exact ⟨other, by rw [List.getElem?_set_ne (Ne.symm same)]; exact found, past⟩

theorem Sound.past_append (sound : Sound s) (added : Delivery) (k : Nat) (member : k ∈ s.interpreted) :
    ∃ delivery, (s.deliveries ++ [added])[k]? = some delivery ∧ ∀ data, delivery.phase ≠ .recorded data := by
  obtain ⟨delivery, found, past⟩ := sound.past k member
  refine ⟨delivery, ?_, past⟩
  rw [List.getElem?_append_left (List.getElem?_eq_some_iff.mp found).1]
  exact found

theorem Sound.add (sound : Sound s) {added : Delivery} (kind : added.kind ≠ .created) (knows : Knows s.events added) :
    Sound { s with deliveries := s.deliveries ++ [added] } where
  keys := sound.keys
  named := sound.named
  created := by
    have none : firsts [added] = [] := by simp [firsts, kind]
    change firsts (s.deliveries ++ [added]) = List.range s.events.length
    rw [firsts, List.filterMap_append]
    change firsts s.deliveries ++ firsts [added] = List.range s.events.length
    rw [none, List.append_nil, sound.created]
  knows delivery member := by
    rcases List.mem_append.mp member with before | last
    next => exact sound.knows delivery before
    next =>
      obtain rfl := List.mem_singleton.mp last
      exact knows
  once := sound.once
  past := sound.past_append added

theorem Sound.create (sound : Sound s) {payload : FireblocksWebhookEnvelope} {data : WebhookData} {id status : String}
    (known : identified payload = some (data, id, status))
    (fresh : ∀ event ∈ s.events, event.externalEventId ≠ externalEventId data id status)
    (phase_of : phase = .recorded data ∨ phase = .threw) :
    Sound { s with
      events := s.events ++ [.received payload (externalEventId data id status) id]
      deliveries := s.deliveries ++ [⟨.created, some s.events.length, phase⟩] } := by
  have last : (s.events ++ [ProviderWebhookEvent.received payload (externalEventId data id status) id])[s.events.length]? =
      some (.received payload (externalEventId data id status) id) := List.getElem?_concat_length
  constructor
  next =>
    rw [List.map_append, List.nodup_append]
    refine ⟨sound.keys, List.nodup_singleton _, ?_⟩
    intro key before other member
    obtain rfl := List.mem_singleton.mp member
    obtain ⟨event, inside, rfl⟩ := List.mem_map.mp before
    exact fresh event inside
  next =>
    intro event member
    rcases List.mem_append.mp member with before | new
    next => exact sound.named event before
    next =>
      obtain rfl := List.mem_singleton.mp new
      exact ⟨data, id, status, known, rfl⟩
  next =>
    have one : firsts [⟨.created, some s.events.length, phase⟩] = [s.events.length] := rfl
    change firsts (s.deliveries ++ [_]) = List.range (s.events ++ [_]).length
    rw [firsts, List.filterMap_append]
    change firsts s.deliveries ++ firsts [_] = List.range (s.events ++ [_]).length
    rw [one, sound.created, List.length_append, List.length_singleton, List.range_succ]
  next =>
    intro delivery member
    rcases List.mem_append.mp member with before | new
    next => exact (sound.knows delivery before).kept (.append s.events _)
    next =>
      obtain rfl := List.mem_singleton.mp new
      constructor
      next =>
        rintro other recorded
        rcases phase_of with rfl | rfl
        next =>
          obtain rfl := Phase.recorded.inj recorded
          exact ⟨_, _, id, status, rfl, last, known⟩
        next => cases recorded
      next => exact fun _ => ⟨_, _, rfl, last⟩
      next =>
        intro _ outcome returned
        rcases phase_of with rfl | rfl <;> cases returned
      next => simp
  next => exact sound.once
  next => exact sound.past_append _

end Deliveries

section Steps

variable {fees : FeeCalculator} {config : WalletConfig} {message : Fault → String} {s : State}

theorem identified_some {payload : FireblocksWebhookEnvelope} {data : WebhookData} {id status : String}
    (known : identified payload = some (data, id, status)) :
    payload.data = some data ∧ given data.id = some id ∧ given data.status = some status := by
  unfold identified at known
  split at known
  next => cases known
  next found present =>
    split at known
    next id' status' one two =>
      obtain ⟨rfl, rfl, rfl⟩ := known
      exact ⟨present, one, two⟩
    next => cases known

theorem Sound.delivers (sound : Sound s) (payload : FireblocksWebhookEnvelope) (audited : Bool) :
    Sound (delivers s payload audited) := by
  unfold FireblocksWebhookService.delivers
  split
  next =>
    apply sound.add
    next => simp
    next => exact ⟨by simp, by simp, by simp, fun _ => ⟨_, rfl⟩⟩
  next data id status known =>
    split
    next i found =>
      obtain ⟨inside, _, _⟩ := List.findIdx?_eq_some_iff_getElem.mp found
      apply sound.add
      next => simp
      next => exact ⟨by simp, fun _ => ⟨i, s.events[i], rfl, List.getElem?_eq_getElem inside⟩, by simp, fun _ => ⟨_, rfl⟩⟩
    next absent =>
      apply sound.create known
      next =>
        intro event member same
        have other := List.findIdx?_eq_none_iff.mp absent event member
        simp [same] at other
      next =>
        cases audited with
        | true => exact .inl rfl
        | false => exact .inr rfl

theorem Sound.reprocesses (sound : Sound s) (eventId : Nat) : Sound (reprocesses s eventId) := by
  unfold FireblocksWebhookService.reprocesses
  split
  next => exact sound
  next event found =>
    obtain ⟨data, id, status, known, -⟩ := sound.named event (List.mem_of_getElem? found)
    rw [known]
    apply sound.add
    next => simp
    next =>
      constructor
      next =>
        intro other recorded
        obtain rfl := Phase.recorded.inj recorded
        exact ⟨eventId, event, id, status, rfl, found, known⟩
      next => exact fun _ => ⟨eventId, event, rfl, found⟩
      next => simp
      next => simp

theorem interpretAndApply_phase (s : Platform) (data : WebhookData) (now : Time) (late : Option Fault) :
    (interpretAndApply config message s data now late).2 = .uncorrelated ∨
      (interpretAndApply config message s data now late).2 = .applied ∨
      ∃ error, (interpretAndApply config message s data now late).2 = .failed error := by
  unfold interpretAndApply
  split
  next => exact .inl rfl
  next withdrawalId _ =>
    split
    next error _ => exact .inr (.inr ⟨error, rfl⟩)
    next lookup _ =>
      split
      next => exact .inr (.inl rfl)
      next call _ =>
        dsimp only
        split
        next => exact .inr (.inl rfl)
        next fault _ => exact .inr (.inr ⟨_, rfl⟩)

theorem interpretAndApply_unrecorded (s : Platform) (data : WebhookData) (now : Time) (late : Option Fault) :
    (∀ other, (interpretAndApply config message s data now late).2 ≠ .recorded other) ∧
      ∀ outcome, (interpretAndApply config message s data now late).2 ≠ .returned outcome := by
  rcases @interpretAndApply_phase config message s data now late with same | same | ⟨error, same⟩ <;> rw [same] <;> simp

theorem Sound.interprets (sound : Sound s) {k : Nat} {delivery : Delivery} {data : WebhookData} {now : Time}
    {late : Option Fault} (listed : s.deliveries[k]? = some delivery) (recorded : delivery.phase = .recorded data) :
    Sound (interprets config message s k delivery data now late) := by
  have after := @interpretAndApply_unrecorded config message s.platform data now late
  have new : k ∉ s.interpreted := by
    intro before
    obtain ⟨other, found, past⟩ := sound.past k before
    obtain rfl := Option.some.inj (listed.symm.trans found)
    exact past data recorded
  apply sound.turn listed (.refl _) rfl _ after.1 (.inr ⟨rfl, new⟩)
  apply (sound.knows delivery (List.mem_of_getElem? listed)).turn (.refl _) _ after.1
  next => exact fun outcome returned => absurd returned (after.2 outcome)
  next => simp [recorded]

theorem Sound.marked (sound : Sound s) {k : Nat} {delivery : Delivery} {now : Time} {error : Option String}
    {outcome : FireblocksWebhookOutcome} {onError : String → Phase} (listed : s.deliveries[k]? = some delivery)
    (running : ∀ outcome, delivery.phase ≠ .returned outcome) (unrecorded : ∀ late data, onError late ≠ .recorded data)
    (unreturned : ∀ late outcome, onError late ≠ .returned outcome) (reply : Reply) :
    Sound (marked s k delivery now error outcome onError reply) := by
  have knows := sound.knows delivery (List.mem_of_getElem? listed)
  have opened : delivery.kind ≠ .malformed := by
    intro malformed
    obtain ⟨outcome, returned⟩ := knows.closed (.inl malformed)
    exact running outcome returned
  obtain ⟨i, event, mine, found⟩ := knows.listed opened
  have kept := Kept.modify s.events i now error
  have length : (s.events.modify i fun event => markProcessed event now error).length = s.events.length :=
    List.length_modify ..
  have marks : s.marks delivery.eventId now error =
      { s with events := s.events.modify i fun event => markProcessed event now error } := by
    rw [mine]
    rfl
  cases reply with
  | received =>
    simp only [FireblocksWebhookService.marked, marks, State.turns]
    apply sound.turn listed kept length _ (by simp) (.inl rfl)
    apply knows.turn kept running (by simp)
    intro _ _ j marked own there
    obtain rfl := Option.some.inj (mine.symm.trans own)
    rw [List.getElem?_modify, found] at there
    obtain rfl := Option.some.inj there
    simp [markProcessed]
  | lost late =>
    simp only [FireblocksWebhookService.marked, marks, State.turns]
    apply sound.turn listed kept length _ (unrecorded late) (.inl rfl)
    exact knows.turn kept running (unrecorded late) fun outcome returned => absurd returned (unreturned late outcome)
  | refused late =>
    apply sound.turn listed (.refl _) rfl _ (unrecorded late) (.inl rfl)
    exact knows.turn (.refl _) running (unrecorded late) fun outcome returned => absurd returned (unreturned late outcome)

theorem Sound.step (sound : Sound s) (action : WebhookAction) : Sound (step fees config message s action) := by
  cases action with
  | platform action => exact ⟨sound.keys, sound.named, sound.created, sound.knows, sound.once, sound.past⟩
  | deliver payload audited => exact sound.delivers payload audited
  | reprocess eventId => exact sound.reprocesses eventId
  | interpret k now late =>
    rw [FireblocksWebhookService.step]
    split
    next kind eventId data listed => exact sound.interprets listed rfl
    next => exact sound
  | mark k now reply =>
    rw [FireblocksWebhookService.step]
    split
    next kind eventId listed => exact sound.marked listed (by simp) (by simp) (by simp) reply
    next kind eventId listed => exact sound.marked listed (by simp) (by simp) (by simp) reply
    next kind eventId error listed => exact sound.marked listed (by simp) (by simp) (by simp) reply
    next => exact sound
  | crash k =>
    rw [FireblocksWebhookService.step]
    split
    next => exact sound
    next delivery running listed =>
      have unreturned : ∀ outcome, delivery.phase ≠ .returned outcome := by
        intro outcome returned
        exact running delivery.kind delivery.eventId outcome (by rw [← returned])
      apply sound.turn listed (.refl _) rfl _ (by simp) (.inl rfl)
      exact (sound.knows delivery (List.mem_of_getElem? listed)).turn (.refl _) unreturned (by simp) (by simp)
    next => exact sound

theorem Reached.sound (reached : Reached fees config message s) : Sound s := by
  apply Reachable.invariant Sound _ (fun s action _ sound => sound.step action) reached
  rintro s ⟨seed, rfl⟩
  constructor <;> simp [initially, firsts]

end Steps

section Calls

variable {fees : FeeCalculator} {config : WalletConfig} {message : Fault → String} {s : State} {p : Platform}

def ProviderWebhookEvent.Asks (event : ProviderWebhookEvent) (withdrawalId : Nat) (call : WithdrawalCall) : Prop :=
  -- the call on a withdrawal that an event's own payload asks for
  ∃ data id status lookup, identified event.payload = some (data, id, status) ∧ data.externalTxId = some withdrawalId ∧
    mapFireblocksResponseToStatusLookup id status data.txHash = .ok lookup ∧ callOf lookup = some call

theorem interpretAndApply_platform {payload : FireblocksWebhookEnvelope} {data : WebhookData} {id status : String}
    (known : identified payload = some (data, id, status)) (now : Time) (late : Option Fault) :
    (interpretAndApply config message p data now late).1 = p ∨
      ∃ withdrawalId lookup call, data.externalTxId = some withdrawalId ∧
        mapFireblocksResponseToStatusLookup id status data.txHash = .ok lookup ∧ callOf lookup = some call ∧
        (interpretAndApply config message p data now late).1 = p.walletStep config (call.action now withdrawalId) := by
  obtain ⟨-, one, two⟩ := identified_some known
  have idText : data.id.getD "" = id := by rw [(Option.filter_eq_some_iff.mp one).1, Option.getD_some]
  have statusText : data.status.getD "" = status := by rw [(Option.filter_eq_some_iff.mp two).1, Option.getD_some]
  unfold interpretAndApply
  rw [idText, statusText]
  split
  next => exact .inl rfl
  next withdrawalId mine =>
    split
    next => exact .inl rfl
    next lookup looked =>
      split
      next => exact .inl rfl
      next call asked => exact .inr ⟨withdrawalId, lookup, call, mine, looked, asked, rfl⟩

theorem WithdrawalCall.changes (call : WithdrawalCall) (now : Time) (withdrawalId : Nat) :
    (p.walletStep config (call.action now withdrawalId)).db = p.db ∨
      ∃ operation old new funds, Changed operation p.db (p.walletStep config (call.action now withdrawalId)).db withdrawalId
        old new funds ∧ isUnsent old = true ∧ funds ≠ .captured := by
  -- either call moves one withdrawal that has no hash, with its own funds, or nothing
  cases call with
  | recordProviderBroadcast txHash providerReference =>
    rcases Platform.transact_cases p (WithdrawalsService.recordProviderBroadcast now withdrawalId txHash providerReference)
      (fun recorded => if recorded then [.moved withdrawalId (.recordProviderBroadcast txHash)] else []) with
      same | ⟨a, db, ran, same⟩
    next => exact .inl (congrArg Platform.db same)
    next =>
      have after : (p.walletStep config ((WithdrawalCall.recordProviderBroadcast txHash providerReference).action now
          withdrawalId)).db = db := congrArg Platform.db same
      rw [after]
      rcases recordProviderBroadcast_ok ran with ⟨-, rfl⟩ | ⟨-, old, new, changed⟩
      next => exact .inl rfl
      next =>
        refine .inr ⟨_, old, new, _, changed, ?_, by simp⟩
        cases changed.moves with
        | recordProviderBroadcast now txHash providerReference allowed => simp [isUnsent, allowed]
  | failProviderRejectedSubmission reason =>
    rcases Platform.transact_cases p (WithdrawalsService.failProviderRejectedSubmission withdrawalId reason)
      (fun failed => if failed then [.moved withdrawalId .failProviderRejectedSubmission] else []) with
      same | ⟨a, db, ran, same⟩
    next => exact .inl (congrArg Platform.db same)
    next =>
      have after : (p.walletStep config ((WithdrawalCall.failProviderRejectedSubmission reason).action now
          withdrawalId)).db = db := congrArg Platform.db same
      rw [after]
      rcases failProviderRejectedSubmission_ok ran with ⟨-, rfl⟩ | ⟨-, old, new, changed⟩
      next => exact .inl rfl
      next =>
        refine .inr ⟨_, old, new, _, changed, ?_, by simp⟩
        cases changed.moves with
        | failProviderRejectedSubmission reason allowed =>
          simp only [List.mem_cons, List.not_mem_nil, or_false] at allowed
          rcases allowed with status | status | status <;> simp [isUnsent, status]

structure Untouched (db db' : Db) (id : Nat) (w : Withdrawal) : Prop where
  -- the row of a withdrawal, and the funds reserved for it, are as before
  row : db'.wallet.withdrawals.get? id = some w
  reserved : db'.core.ledger.funds.forRef .withdrawal id = db.core.ledger.funds.forRef .withdrawal id

theorem WithdrawalCall.untouched (call : WithdrawalCall) (now : Time) (withdrawalId : Nat) (unhashed : Unhashed p.db)
    {id : Nat} {w : Withdrawal} {txHash : String} (found : p.db.wallet.withdrawals.get? id = some w)
    (hash : w.txHash = some txHash) :
    Untouched p.db (p.walletStep config (call.action now withdrawalId)).db id w := by
  rcases @WithdrawalCall.changes config p call now withdrawalId with same | ⟨operation, old, new, funds, changed, unsent, held⟩
  next =>
    rw [same]
    exact ⟨found, rfl⟩
  next =>
    have other : id ≠ withdrawalId := by
      rintro rfl
      have mine := found.symm.trans changed.found
      obtain rfl := Option.some.inj mine
      rw [unhashed id w found unsent] at hash
      cases hash
    obtain ⟨t, l, after, wrote, moved⟩ := changed.result
    rw [after]
    constructor
    next => exact (wrote.other other).trans found
    next =>
      cases funds with
      | held =>
        obtain rfl : l = p.db.core.ledger := moved
        rfl
      | released => exact moved.reservation.others .withdrawal id (by simp [other])
      | captured => exact absurd rfl held

theorem step_platform (sound : Sound s) (action : WebhookAction) (webhook : ∀ a, action ≠ .platform a) :
    (step fees config message s action).platform = s.platform ∨
      ∃ k now late delivery i event withdrawalId call, action = .interpret k now late ∧ k ∉ s.interpreted ∧
        s.deliveries[k]? = some delivery ∧ delivery.eventId = some i ∧ s.events[i]? = some event ∧
        event.Asks withdrawalId call ∧
        (step fees config message s action).platform = s.platform.walletStep config (call.action now withdrawalId) := by
  cases action with
  | platform a => exact absurd rfl (webhook a)
  | deliver payload audited =>
    left
    simp only [step, delivers]
    split
    next => rfl
    next => split <;> rfl
  | reprocess eventId =>
    left
    simp only [step, reprocesses]
    split
    next => rfl
    next => split <;> rfl
  | interpret k now late =>
    rw [step]
    split
    next kind eventId data listed =>
      obtain ⟨i, event, id, status, mine, found, known⟩ :=
        (sound.knows _ (List.mem_of_getElem? listed)).source data rfl
      have new : k ∉ s.interpreted := by
        intro before
        obtain ⟨other, there, past⟩ := sound.past k before
        obtain rfl := Option.some.inj (listed.symm.trans there)
        exact past data rfl
      rcases @interpretAndApply_platform config message s.platform _ _ _ _ known now late with
        same | ⟨withdrawalId, lookup, call, named, looked, asked, same⟩
      next => exact .inl same
      next =>
        exact .inr ⟨k, now, late, _, i, event, withdrawalId, call, rfl, new, listed, mine, found,
          ⟨data, id, status, lookup, known, named, looked, asked⟩, same⟩
    next => exact .inl rfl
  | mark k now reply =>
    have marks : ∀ (delivery : Delivery) (error : Option String) (outcome : FireblocksWebhookOutcome)
        (onError : String → Phase), (marked s k delivery now error outcome onError reply).platform = s.platform := by
      intro delivery error outcome onError
      cases reply <;> cases owned : delivery.eventId <;> simp [marked, State.marks, State.turns, owned]
    left
    rw [step]
    split
    next => exact marks ..
    next => exact marks ..
    next => exact marks ..
    next => rfl
  | crash k =>
    left
    rw [step]
    split <;> rfl

theorem Reached.platform (reached : Reached fees config message s) : Platform.ReachedUnder fees config s.platform := by
  induction reached with
  | refl initial =>
    obtain ⟨seed, rfl⟩ := initial
    exact .refl ⟨seed, rfl⟩
  | @tail s earlier action ih =>
    by_cases own : ∃ a, action = .platform a
    next =>
      obtain ⟨a, rfl⟩ := own
      exact ih.tail a
    next =>
      have webhook : ∀ a, action ≠ .platform a := fun a same => own ⟨a, same⟩
      rcases @step_platform fees config message s (Reached.sound earlier) action webhook with
        same | ⟨k, now, late, delivery, i, event, withdrawalId, call, -, -, -, -, -, -, same⟩
      next =>
        rw [same]
        exact ih
      next =>
        rw [same]
        exact ih.tail (.wallet (call.action now withdrawalId))

/-- What the webhooks of any number of requests, repeated, reordered and cut short anywhere, and the rest of the platform
between them can do. The platform goes through a run of its own; every event has one row and one request that brought it,
and each request is interpreted at most once; no request returns before its event is marked; a webhook asks nothing but
what its stored payload says, and never touches a withdrawal that has a transaction hash, nor the funds behind it. -/
theorem reached_delivered (reserve : fees.Reserves) (reached : Reached fees config message s) :
    Platform.ReachedUnder fees config s.platform ∧
    (s.events.map ProviderWebhookEvent.externalEventId).Nodup ∧ firsts s.deliveries = List.range s.events.length ∧
    s.interpreted.Nodup ∧
    (∀ delivery ∈ s.deliveries, delivery.kind = .created ∨ delivery.kind = .reprocess →
      ∀ i event outcome, delivery.eventId = some i → s.events[i]? = some event → delivery.phase = .returned outcome →
        event.processedAt ≠ none) ∧
    ∀ action, (∀ a, action ≠ .platform a) →
      ((step fees config message s action).platform = s.platform ∨
        ∃ k now late delivery i event withdrawalId call, action = .interpret k now late ∧ k ∉ s.interpreted ∧
          s.deliveries[k]? = some delivery ∧ delivery.eventId = some i ∧ s.events[i]? = some event ∧
          event.Asks withdrawalId call ∧
          (step fees config message s action).platform = s.platform.walletStep config (call.action now withdrawalId)) ∧
      ∀ id w txHash, s.platform.db.wallet.withdrawals.get? id = some w → w.txHash = some txHash →
        Untouched s.platform.db (step fees config message s action).platform.db id w := by
  have sound := Reached.sound reached
  have running := Reached.platform reached
  refine ⟨running, sound.keys, sound.created, sound.once, ?_, ?_⟩
  next =>
    intro delivery member kind i event outcome mine found returned
    obtain ⟨j, other, own, there, processed⟩ := (sound.knows delivery member).done kind outcome returned
    obtain rfl := Option.some.inj (mine.symm.trans own)
    rwa [Option.some.inj (found.symm.trans there)]
  next =>
    intro action webhook
    have effect := @step_platform fees config message s sound action webhook
    refine ⟨effect, ?_⟩
    intro id w txHash found hash
    rcases effect with same | ⟨k, now, late, delivery, i, event, withdrawalId, call, -, -, -, -, -, -, same⟩
    next =>
      rw [same]
      exact ⟨found, rfl⟩
    next =>
      rw [same]
      exact call.untouched now withdrawalId (Platform.ReachedUnder.unhashed reserve running) found hash

end Calls

section Samples

def completed : FireblocksWebhookEnvelope where
  type := some "TRANSACTION_STATUS_UPDATED"
  data := some ⟨some "fb-1", some "COMPLETED", some "0xh", some 0, some "t1"⟩

def rejected : FireblocksWebhookEnvelope where
  type := some "TRANSACTION_STATUS_UPDATED"
  data := some ⟨some "fb-1", some "REJECTED", none, some 0, some "t0"⟩

def awaitingBroadcast : List Action :=
  requestedWithdrawal ++ [.wallet (.approve 0 0), .wallet (.claimLease 0), .wallet (.startExecution 0),
    .wallet (.endExecution 0 (some (.awaitingManualBroadcast none))), .wallet (.recordExecution 0 1)]

/-- A withdrawal waits for its broadcast; the provider reports it twice, and late an earlier rejection. -/
def reported : List WebhookAction :=
  awaitingBroadcast.map .platform ++
    [.deliver completed true, .deliver completed true, .interpret 0 2 none, .mark 0 3 .received, .deliver rejected true]

def silent (_ : Fault) : String := ""

def afterReports : State :=
  reported.foldl (step percentFees .sample silent) (initially (Platform.initial .sample))

theorem initially_reached : Reached percentFees .sample silent (initially (Platform.initial .sample)) :=
  .refl ⟨.sample, rfl⟩

theorem afterReports_reached : Reached percentFees .sample silent afterReports :=
  initially_reached.foldl reported

theorem afterReports_delivered : ∃ w, afterReports.platform.db.wallet.withdrawals.get? 0 = some w ∧
    w.status = .broadcast ∧ Untouched afterReports.platform.db
      (step percentFees .sample silent afterReports (.interpret 2 4 none)).platform.db 0 w := by
  have row : (afterReports.platform.db.wallet.withdrawals.get? 0).map (fun w => (w.status, w.txHash)) =
      some (.broadcast, some "0xh") := by decide +kernel
  obtain ⟨w, found, columns⟩ := Option.map_eq_some_iff.mp row
  simp only [Prod.mk.injEq] at columns
  exact ⟨w, found, columns.1, ((reached_delivered percentFees_funded.reserves afterReports_reached).2.2.2.2.2
    (.interpret 2 4 none) (by simp)).2 0 w "0xh" found columns.2⟩

end Samples

end FireblocksWebhookService

end VerdictVaut

import VerdictVaut.Auth.Chains

set_option autoImplicit false

namespace VerdictVaut

namespace Browser

open Relational AuthService

structure LocalStorage where
  -- what all tabs of one browser share
  accessToken : Option Jwt
  refreshToken : Option Jwt
  deriving DecidableEq

inductive StorageOp
  | setAccessToken (token : Jwt)
  | setRefreshToken (token : Jwt)
  | removeAccessToken
  | removeRefreshToken
  deriving DecidableEq

def StorageOp.run : StorageOp → LocalStorage → LocalStorage
  | .setAccessToken token, storage => { storage with accessToken := some token }
  | .setRefreshToken token, storage => { storage with refreshToken := some token }
  | .removeAccessToken, storage => { storage with accessToken := none }
  | .removeRefreshToken, storage => { storage with refreshToken := none }

def setTokens (tokens : TokenPair) : List StorageOp :=
  [.setAccessToken tokens.accessToken, .setRefreshToken tokens.refreshToken]

def clearTokens : List StorageOp :=
  [.removeAccessToken, .removeRefreshToken]

/-- Where a tab's `refreshInFlight` stands: the request is on its way; the server has it; the response is being
stored. -/
inductive Refreshing
  | sent (refreshToken : Jwt)
  | awaiting (call : Nat)
  | storing
  deriving DecidableEq

/-- A tab runs one piece of code at a time: while that has statements on the storage left, nothing else. -/
structure Tab where
  refreshInFlight : Option Refreshing
  pending : List StorageOp
  deriving DecidableEq

structure State where
  server : AuthService.State
  storage : LocalStorage
  tabs : Nat → Tab

inductive Action
  | refreshAccessToken (tab : Nat)
  | arrive (tab : Nat)
  | advance (call : Nat) (env : Env)
  | fail (call : Nat)
  | setStatus (userId : Nat) (status : UserStatus)
  | respond (tab : Nat)
  | store (tab : Nat)
  | signalSessionExpired (tab : Nat)

def Action.tab : Action → Option Nat
  | .refreshAccessToken w | .arrive w | .respond w | .store w | .signalSessionExpired w => some w
  | .advance _ _ | .fail _ | .setStatus _ _ => none

def State.setTab (s : State) (w : Nat) (tab : Tab) : State :=
  { s with tabs := Function.update s.tabs w tab }

section Step

variable (config : Config) (s : State)

/-- The token is read and the request sent in one turn; a second caller awaits the first one's promise. -/
def refreshAccessToken (w : Nat) : State :=
  match s.tabs w, s.storage.refreshToken with
  | ⟨none, []⟩, some refreshToken => s.setTab w ⟨some (.sent refreshToken), []⟩
  | _, _ => s

def arrive (w : Nat) : State :=
  match s.tabs w with
  | ⟨some (.sent refreshToken), pending⟩ =>
    { s.setTab w ⟨some (.awaiting s.server.calls.length), pending⟩ with
      server := AuthService.step config s.server (.receive (.refresh refreshToken)) }
  | _ => s

def handle : Outcome → List StorageOp
  -- a response with a token pair is stored; after any other the tokens are removed
  | .issued tokens => setTokens tokens
  | _ => clearTokens

def respond (w : Nat) : State :=
  match s.tabs w with
  | ⟨some (.awaiting call), []⟩ =>
    match s.server.calls[call]? with
    | some ⟨_, .finished outcome⟩ => s.setTab w ⟨some .storing, handle outcome⟩
    | _ => s
  | _ => s

def afterStoring (refreshInFlight : Option Refreshing) (rest : List StorageOp) : Option Refreshing :=
  -- the promise is cleared after the last statement of its handler
  if rest = [] ∧ refreshInFlight = some .storing then none else refreshInFlight

def store (w : Nat) : State :=
  match s.tabs w with
  | ⟨refreshInFlight, op :: rest⟩ =>
    { s.setTab w ⟨afterStoring refreshInFlight rest, rest⟩ with storage := op.run s.storage }
  | _ => s

def signalSessionExpired (w : Nat) : State :=
  match s.tabs w with
  | ⟨refreshInFlight, []⟩ => s.setTab w ⟨refreshInFlight, clearTokens⟩
  | _ => s

def step : Action → State
  | .refreshAccessToken w => refreshAccessToken s w
  | .arrive w => arrive config s w
  | .advance call env => { s with server := AuthService.step config s.server (.advance call env) }
  | .fail call => { s with server := AuthService.step config s.server (.abort call) }
  | .setStatus userId status => { s with server := AuthService.step config s.server (.setStatus userId status) }
  | .respond w => respond s w
  | .store w => store s w
  | .signalSessionExpired w => signalSessionExpired s w

end Step

def Fresh (tokens : List RefreshToken) (token : Jwt) : Prop :=
  ∃ (id : Nat) (row : RefreshToken), tokens[id]? = some row ∧ row.tokenHash = hashToken token ∧ row.isLive = true

/-- The server is at rest, after whatever has happened before, and the browser holds a live token or none. -/
structure Starts (config : Config) (s : State) : Prop where
  reached : Reached config s.server
  rest : ∀ (k : Nat) request phase, s.server.calls[k]? = some ⟨request, phase⟩ → ∃ outcome, phase = .finished outcome
  fresh : ∀ token, s.storage.refreshToken = some token → Fresh s.server.tokens token
  idle : ∀ w, s.tabs w = ⟨none, []⟩

def Alone (s : State) (a : Action) : Prop :=
  -- a tab reads the token for a refresh only while no other tab's refresh is in flight
  ∀ w, a = .refreshAccessToken w → ∀ other ≠ w, (s.tabs other).refreshInFlight = none

inductive AloneRun (config : Config) : State → Prop
  | start {s : State} (starts : Starts config s) : AloneRun config s
  | tail {s : State} (earlier : AloneRun config s) (a : Action) (alone : Alone s a) : AloneRun config (step config s a)

def Honest (tokens : List RefreshToken) (refreshToken : Jwt) : Phase → Prop
  -- how far the call of a refresh has come, and what it still relies on
  | .received | .verified => Fresh tokens refreshToken
  | .found _ | .rotating _ | .issuing _ _ | .finished (.threw _) => True
  | .finished (.issued pair) => Fresh tokens pair.refreshToken
  | _ => False

/-- The statements left of a handler: the last of them writes a fresh token or removes the old one. -/
inductive Storing (tokens : List RefreshToken) : List StorageOp → Prop
  | set (pair : TokenPair) (fresh : Fresh tokens pair.refreshToken) : Storing tokens (setTokens pair)
  | setRefreshToken (token : Jwt) (fresh : Fresh tokens token) : Storing tokens [.setRefreshToken token]
  | clear : Storing tokens clearTokens
  | removeRefreshToken : Storing tokens [.removeRefreshToken]

inductive Clearing : List StorageOp → Prop
  | done : Clearing []
  | clear : Clearing clearTokens
  | removeRefreshToken : Clearing [.removeRefreshToken]

/-- At most one refresh is in flight, the only call that runs is its call, and whoever reads the token while there
is none finds a fresh one. -/
structure Orderly (config : Config) (s : State) : Prop where
  reached : Reached config s.server
  one : ∀ v w, (s.tabs v).refreshInFlight ≠ none → (s.tabs w).refreshInFlight ≠ none → v = w
  fresh : (∀ w, (s.tabs w).refreshInFlight = none) →
    ∀ token, s.storage.refreshToken = some token → Fresh s.server.tokens token
  sent : ∀ w refreshToken, (s.tabs w).refreshInFlight = some (.sent refreshToken) → Fresh s.server.tokens refreshToken
  awaiting : ∀ w k, (s.tabs w).refreshInFlight = some (.awaiting k) → ∃ refreshToken phase,
    s.server.calls[k]? = some ⟨.refresh refreshToken, phase⟩ ∧ Honest s.server.tokens refreshToken phase
  storing : ∀ w, (s.tabs w).refreshInFlight = some .storing → Storing s.server.tokens (s.tabs w).pending
  clearing : ∀ w, (s.tabs w).refreshInFlight ≠ some .storing → Clearing (s.tabs w).pending
  calls : ∀ (k : Nat) request phase, s.server.calls[k]? = some ⟨request, phase⟩ →
    (∃ outcome, phase = .finished outcome) ∨ ∃ w, (s.tabs w).refreshInFlight = some (.awaiting k)

section Server

variable {config : Config} {server server' : AuthService.State} {a : AuthService.Action}

theorem server_moves (sound : Sound server) (stepped : Stepped config server a server')
    (own : ∀ request, a ≠ .receive request) :
    (server'.tokens = server.tokens ∧ server'.calls = server.calls) ∨
      ∃ k request phase next, server.calls[k]? = some ⟨request, phase⟩ ∧ (∀ outcome, phase ≠ .finished outcome) ∧
        server'.calls = server.calls.set k ⟨request, next⟩ ∧ ∀ refreshToken, request = .refresh refreshToken →
          Honest server.tokens refreshToken phase → Honest server'.tokens refreshToken next := by
  -- between requests, the server moves one running call; for an honest refresh this is never the reuse branch
  cases stepped with
  | stays users => exact .inl ⟨rfl, rfl⟩
  | received request => exact absurd rfl (own request)
  | @turned a k request phase next was turn users =>
    refine .inr ⟨k, request, phase, next, was, turn.running, rfl, fun refreshToken same honest => ?_⟩
    subst same
    cases turn with
    | threw | found | rotating => exact trivial
    | verified => exact honest
    | replayed stored hash dead =>
      -- the row that was found revoked is the live row of this token
      obtain ⟨id, row, found, hash', live⟩ := honest
      obtain rfl := sound.distinct _ _ _ _ found stored (hash'.trans hash.symm)
      obtain rfl := Option.some.inj (found.symm.trans stored)
      rw [dead] at live
      cases live
  | @signedOut k env request was signsOut selected =>
    refine .inr ⟨k, request, .received, _, was, by simp, rfl, fun refreshToken same _ => ?_⟩
    subst same
    cases signsOut
  | @rotated k env refreshToken stored was picked =>
    exact .inr ⟨k, _, _, _, was, by simp, rfl, fun _ _ _ => trivial⟩
  | @issued k env request userId rotated was fresh =>
    refine .inr ⟨k, _, _, _, was, by simp, rfl, fun _ _ _ => ?_⟩
    exact ⟨server.tokens.length, _, List.getElem?_concat_length, rfl, rfl⟩
  | @revokedAll k env request phase userId outcome was revokes =>
    refine .inr ⟨k, request, phase, _, was, ?_, rfl, fun refreshToken same honest => ?_⟩
    · cases revokes <;> simp
    · subst same
      cases revokes
      exact honest.elim

end Server

section Tabs

variable {config : Config} {s : State} {v w k : Nat} {tab : Tab}

theorem setTab_self : (s.setTab w tab).tabs w = tab :=
  Function.update_self ..

theorem setTab_other (ne : v ≠ w) : (s.setTab w tab).tabs v = s.tabs v :=
  Function.update_of_ne ne ..

theorem Starts.orderly (starts : Starts config s) : Orderly config s where
  reached := starts.reached
  one v _ busy _ := absurd (by rw [starts.idle v]) busy
  fresh _ := starts.fresh
  sent w _ busy := by
    rw [starts.idle w] at busy
    cases busy
  awaiting w _ busy := by
    rw [starts.idle w] at busy
    cases busy
  storing w busy := by
    rw [starts.idle w] at busy
    cases busy
  clearing w _ := by
    rw [starts.idle w]
    exact .done
  calls k request phase reads := .inl (starts.rest k request phase reads)

theorem Orderly.served (orderly : Orderly config s) {a : AuthService.Action} (own : ∀ request, a ≠ .receive request) :
    Orderly config { s with server := AuthService.step config s.server a } := by
  have reached : Reached config (AuthService.step config s.server a) := orderly.reached.tail a
  have stepped : Stepped config s.server a (AuthService.step config s.server a) := step_stepped s.server a
  rcases server_moves orderly.reached.sound stepped own with
    ⟨tokens, calls⟩ | ⟨k, request, phase, next, was, running, moved, honest⟩
  · refine ⟨reached, orderly.one, ?_, ?_, ?_, ?_, orderly.clearing, ?_⟩
    · rw [tokens]
      exact orderly.fresh
    · rw [tokens]
      exact orderly.sent
    · rw [tokens, calls]
      exact orderly.awaiting
    · rw [tokens]
      exact orderly.storing
    · rw [calls]
      exact orderly.calls
  -- some tab awaits the call that moves, and no other tab's refresh is in flight
  · obtain ⟨w, awaits⟩ : ∃ w, (s.tabs w).refreshInFlight = some (.awaiting k) := by
      rcases orderly.calls k request phase was with ⟨outcome, ended⟩ | awaited
      · exact absurd ended (running outcome)
      · exact awaited
    have others (v : Nat) (refreshing : Refreshing) (busy : (s.tabs v).refreshInFlight = some refreshing) :
        refreshing = .awaiting k := by
      obtain rfl := orderly.one v w (by simp [busy]) (by simp [awaits])
      exact Option.some.inj (busy.symm.trans awaits)
    have moves {j : Nat} {call : Call} (reads : (AuthService.step config s.server a).calls[j]? = some call) :
        s.server.calls[j]? = some call ∨ j = k ∧ call = ⟨request, next⟩ :=
      moves_reads (by rw [← reads, moved]; rfl)
    refine ⟨reached, orderly.one, ?_, ?_, ?_, ?_, orderly.clearing, ?_⟩
    · intro idle
      rw [idle w] at awaits
      cases awaits
    · intro v refreshToken busy
      cases others v _ busy
    · intro v j busy
      obtain rfl := Refreshing.awaiting.inj (others v _ busy)
      obtain ⟨refreshToken, phase', now, holds⟩ := orderly.awaiting v j busy
      obtain ⟨rfl, rfl⟩ := Call.mk.inj (Option.some.inj (was.symm.trans now))
      obtain ⟨inside, -⟩ := List.getElem?_eq_some_iff.mp was
      exact ⟨refreshToken, next, by rw [moved]; exact List.getElem?_set_self inside, honest refreshToken rfl holds⟩
    · intro v busy
      cases others v _ busy
    · intro j request' phase' reads
      rcases moves reads with before | ⟨rfl, -⟩
      · exact orderly.calls j request' phase' before
      · exact .inr ⟨w, awaits⟩

theorem orderly_of_alone (w : Nat) (reached : Reached config s.server)
    (alone : ∀ v ≠ w, (s.tabs v).refreshInFlight = none ∧ Clearing (s.tabs v).pending)
    (fresh : (s.tabs w).refreshInFlight = none →
      ∀ token, s.storage.refreshToken = some token → Fresh s.server.tokens token)
    (sent : ∀ refreshToken, (s.tabs w).refreshInFlight = some (.sent refreshToken) → Fresh s.server.tokens refreshToken)
    (awaiting : ∀ k, (s.tabs w).refreshInFlight = some (.awaiting k) → ∃ refreshToken phase,
      s.server.calls[k]? = some ⟨.refresh refreshToken, phase⟩ ∧ Honest s.server.tokens refreshToken phase)
    (storing : (s.tabs w).refreshInFlight = some .storing → Storing s.server.tokens (s.tabs w).pending)
    (clearing : (s.tabs w).refreshInFlight ≠ some .storing → Clearing (s.tabs w).pending)
    (calls : ∀ (k : Nat) request phase, s.server.calls[k]? = some ⟨request, phase⟩ →
      (∃ outcome, phase = .finished outcome) ∨ (s.tabs w).refreshInFlight = some (.awaiting k)) : Orderly config s := by
  have mine {v : Nat} (busy : (s.tabs v).refreshInFlight ≠ none) : v = w := by
    by_contra other
    exact busy (alone v other).1
  refine ⟨reached, ?_, fun idle => fresh (idle w), ?_, ?_, ?_, ?_, ?_⟩
  · intro v v' busy busy'
    rw [mine busy, mine busy']
  · intro v refreshToken busy
    obtain rfl : v = w := mine (by simp [busy])
    exact sent refreshToken busy
  · intro v k busy
    obtain rfl : v = w := mine (by simp [busy])
    exact awaiting k busy
  · intro v busy
    obtain rfl : v = w := mine (by simp [busy])
    exact storing busy
  · intro v busy
    by_cases same : v = w
    · subst same
      exact clearing busy
    · exact (alone v same).2
  · intro k request phase reads
    rcases calls k request phase reads with ended | awaits
    · exact .inl ended
    · exact .inr ⟨w, awaits⟩

theorem Orderly.others (orderly : Orderly config s) (busy : (s.tabs w).refreshInFlight ≠ none) (v : Nat) (ne : v ≠ w) :
    (s.tabs v).refreshInFlight = none ∧ Clearing (s.tabs v).pending := by
  have free : (s.tabs v).refreshInFlight = none := by
    by_contra also
    exact ne (orderly.one v w also busy)
  exact ⟨free, orderly.clearing v (by simp [free])⟩

theorem Orderly.runs (orderly : Orderly config s) (busy : (s.tabs w).refreshInFlight ≠ none) {request : Request}
    {phase : Phase} (reads : s.server.calls[k]? = some ⟨request, phase⟩) :
    (∃ outcome, phase = .finished outcome) ∨ (s.tabs w).refreshInFlight = some (.awaiting k) := by
  rcases orderly.calls k request phase reads with ended | ⟨v, awaits⟩
  · exact .inl ended
  · obtain rfl := orderly.one v w (by simp [awaits]) busy
    exact .inr awaits

theorem Orderly.refreshAccessToken (orderly : Orderly config s)
    (alone : ∀ other ≠ w, (s.tabs other).refreshInFlight = none) : Orderly config (refreshAccessToken s w) := by
  unfold Browser.refreshAccessToken
  split
  · rename_i refreshToken idle held
    have free (v : Nat) : (s.tabs v).refreshInFlight = none := by
      by_cases same : v = w
      · rw [same, idle]
      · exact alone v same
    have mine : (s.setTab w ⟨some (.sent refreshToken), []⟩).tabs w = ⟨some (.sent refreshToken), []⟩ := setTab_self
    apply orderly_of_alone w
    · exact orderly.reached
    · intro v other
      rw [setTab_other other]
      exact ⟨free v, orderly.clearing v (by simp [free v])⟩
    · rw [mine]
      intro unsent
      cases unsent
    · rw [mine]
      intro token same
      obtain rfl := Refreshing.sent.inj (Option.some.inj same)
      exact orderly.fresh free _ held
    · rw [mine]
      intro k same
      cases same
    · rw [mine]
      intro same
      cases same
    · rw [mine]
      intro _
      exact .done
    · intro k request phase reads
      rcases orderly.calls k request phase reads with ended | ⟨v, awaits⟩
      · exact .inl ended
      · rw [free v] at awaits
        cases awaits
  · exact orderly

theorem Orderly.arrive (orderly : Orderly config s) : Orderly config (arrive config s w) := by
  unfold Browser.arrive
  split
  · rename_i refreshToken pending sent
    have busy : (s.tabs w).refreshInFlight = some (.sent refreshToken) := by rw [sent]
    have unsettled : (s.tabs w).refreshInFlight ≠ none := by simp [busy]
    have mine : (s.setTab w ⟨some (.awaiting s.server.calls.length), pending⟩).tabs w =
      ⟨some (.awaiting s.server.calls.length), pending⟩ := setTab_self
    apply orderly_of_alone w
    · exact orderly.reached.tail (.receive (.refresh refreshToken))
    · intro v other
      rw [show (s.setTab w _).tabs v = s.tabs v from setTab_other other]
      exact orderly.others unsettled v other
    · intro idle
      rw [mine] at idle
      cases idle
    · intro token same
      rw [mine] at same
      cases same
    · intro k same
      rw [mine] at same
      obtain rfl := Refreshing.awaiting.inj (Option.some.inj same)
      exact ⟨refreshToken, .received, List.getElem?_concat_length, orderly.sent w refreshToken busy⟩
    · intro same
      rw [mine] at same
      cases same
    · intro _
      rw [mine]
      have cleared := orderly.clearing w (by simp [busy])
      rw [sent] at cleared
      exact cleared
    · intro k request phase reads
      rcases received_reads reads with before | ⟨rfl, -⟩
      · rcases orderly.runs unsettled before with ended | awaits
        · exact .inl ended
        · rw [busy] at awaits
          cases awaits
      · right
        rw [mine]
  · exact orderly

theorem Orderly.respond (orderly : Orderly config s) : Orderly config (respond s w) := by
  unfold Browser.respond
  split
  · rename_i call awaiting
    split
    · rename_i request outcome ended
      have busy : (s.tabs w).refreshInFlight = some (.awaiting call) := by rw [awaiting]
      have unsettled : (s.tabs w).refreshInFlight ≠ none := by simp [busy]
      have mine : (s.setTab w ⟨some .storing, handle outcome⟩).tabs w = ⟨some .storing, handle outcome⟩ := setTab_self
      apply orderly_of_alone w
      · exact orderly.reached
      · intro v other
        rw [setTab_other other]
        exact orderly.others unsettled v other
      · intro idle
        rw [mine] at idle
        cases idle
      · intro token same
        rw [mine] at same
        cases same
      · intro k same
        rw [mine] at same
        cases same
      · intro _
        rw [mine]
        obtain ⟨refreshToken, phase, now, honest⟩ := orderly.awaiting w call busy
        obtain ⟨-, rfl⟩ := Call.mk.inj (Option.some.inj (ended.symm.trans now))
        cases outcome with
        | issued pair => exact .set pair honest
        | threw e => exact .clear
        | completed => exact honest.elim
      · intro stored
        exact absurd (by rw [mine]) stored
      · intro k request' phase reads
        left
        rcases orderly.runs unsettled reads with finished | awaits
        · exact finished
        · rw [busy] at awaits
          obtain rfl := Refreshing.awaiting.inj (Option.some.inj awaits)
          obtain ⟨-, rfl⟩ := Call.mk.inj (Option.some.inj (ended.symm.trans reads))
          exact ⟨outcome, rfl⟩
    · exact orderly
  · exact orderly

theorem Clearing.run {op : StorageOp} {rest : List StorageOp} (clearing : Clearing (op :: rest)) (storage : LocalStorage) :
    Clearing rest ∧ ∀ token, (op.run storage).refreshToken = some token → storage.refreshToken = some token := by
  -- a storage statement of a tab whose refresh is not being stored only removes
  cases clearing with
  | clear => exact ⟨.removeRefreshToken, fun _ held => held⟩
  | removeRefreshToken => exact ⟨.done, fun _ held => by cases held⟩

theorem Storing.run {tokens : List RefreshToken} {op : StorageOp} {rest : List StorageOp}
    (storing : Storing tokens (op :: rest)) (storage : LocalStorage) : rest ≠ [] ∧ Storing tokens rest ∨
      rest = [] ∧ ∀ token, (op.run storage).refreshToken = some token → Fresh tokens token := by
  cases storing with
  | set pair fresh => exact .inl ⟨by simp, .setRefreshToken _ fresh⟩
  | setRefreshToken token fresh =>
    refine .inr ⟨rfl, fun held same => ?_⟩
    obtain rfl := Option.some.inj same
    exact fresh
  | clear => exact .inl ⟨by simp, .removeRefreshToken⟩
  | removeRefreshToken => exact .inr ⟨rfl, fun _ held => by cases held⟩

theorem Orderly.cleared (orderly : Orderly config s) {storage : LocalStorage}
    (unstored : (s.tabs w).refreshInFlight ≠ some .storing) (same : tab.refreshInFlight = (s.tabs w).refreshInFlight)
    (clearing : Clearing tab.pending)
    (removed : ∀ token, storage.refreshToken = some token → s.storage.refreshToken = some token) :
    Orderly config { s.setTab w tab with storage := storage } := by
  -- a tab that is not storing a response goes on clearing; its refresh, if any, stands where it stood
  have flight (v : Nat) : ((s.setTab w tab).tabs v).refreshInFlight = (s.tabs v).refreshInFlight := by
    by_cases mine : v = w
    · rw [mine, setTab_self, same]
    · rw [setTab_other mine]
  refine ⟨orderly.reached, ?_, ?_, ?_, ?_, ?_, ?_, ?_⟩
  · intro v v' busy busy'
    rw [flight] at busy busy'
    exact orderly.one v v' busy busy'
  · intro idle token held
    exact orderly.fresh (fun v => (flight v).symm.trans (idle v)) token (removed token held)
  · intro v token busy
    exact orderly.sent v token ((flight v).symm.trans busy)
  · intro v k busy
    exact orderly.awaiting v k ((flight v).symm.trans busy)
  · intro v busy
    have other : v ≠ w := by
      rintro rfl
      exact unstored ((flight v).symm.trans busy)
    rw [show (s.setTab w tab).tabs v = s.tabs v from setTab_other other] at busy ⊢
    exact orderly.storing v busy
  · intro v busy
    by_cases mine : v = w
    · rw [mine, show (s.setTab w tab).tabs w = tab from setTab_self]
      exact clearing
    · rw [show (s.setTab w tab).tabs v = s.tabs v from setTab_other mine] at busy ⊢
      exact orderly.clearing v busy
  · intro k request phase reads
    rcases orderly.calls k request phase reads with ended | ⟨v, awaits⟩
    · exact .inl ended
    · exact .inr ⟨v, (flight v).trans awaits⟩

theorem Orderly.store (orderly : Orderly config s) : Orderly config (store s w) := by
  unfold Browser.store
  split
  · rename_i refreshInFlight op rest pending
    by_cases storing : refreshInFlight = some .storing
    · subst storing
      have busy : (s.tabs w).refreshInFlight = some .storing := by rw [pending]
      have unsettled : (s.tabs w).refreshInFlight ≠ none := by simp [busy]
      have handler := orderly.storing w busy
      rw [pending] at handler
      have mine : (s.setTab w ⟨afterStoring (some .storing) rest, rest⟩).tabs w =
        ⟨afterStoring (some .storing) rest, rest⟩ := setTab_self
      have ended (k : Nat) (request : Request) (phase : Phase) (reads : s.server.calls[k]? = some ⟨request, phase⟩) :
          ∃ outcome, phase = .finished outcome := by
        rcases orderly.runs unsettled reads with ended | awaits
        · exact ended
        · rw [busy] at awaits
          cases awaits
      apply orderly_of_alone w
      · exact orderly.reached
      · intro v other
        rw [show (s.setTab w _).tabs v = s.tabs v from setTab_other other]
        exact orderly.others unsettled v other
      · intro idle token held
        rw [mine] at idle
        rcases handler.run s.storage with ⟨more, -⟩ | ⟨-, fresh⟩
        · rw [afterStoring, if_neg fun last => more last.1] at idle
          cases idle
        · exact fresh token held
      · intro token same
        rw [mine, afterStoring] at same
        split at same <;> cases same
      · intro k same
        rw [mine, afterStoring] at same
        split at same <;> cases same
      · intro same
        rw [mine, afterStoring] at same
        rw [mine]
        rcases handler.run s.storage with ⟨-, more⟩ | ⟨last, -⟩
        · exact more
        · rw [if_pos ⟨last, rfl⟩] at same
          cases same
      · intro done
        rw [mine, afterStoring] at done
        rw [mine]
        rcases handler.run s.storage with ⟨more, -⟩ | ⟨last, -⟩
        · rw [if_neg fun last => more last.1] at done
          exact absurd rfl done
        · rw [last]
          exact .done
      · intro k request phase reads
        exact .inl (ended k request phase reads)
    · have flight : (s.tabs w).refreshInFlight = refreshInFlight := by rw [pending]
      have unstored : (s.tabs w).refreshInFlight ≠ some .storing := by rwa [flight]
      have clearing := orderly.clearing w unstored
      rw [pending] at clearing
      obtain ⟨cleared, removed⟩ := clearing.run s.storage
      refine orderly.cleared unstored ?_ cleared removed
      rw [flight, afterStoring, if_neg fun both => storing both.2]
  · exact orderly

theorem Orderly.signalSessionExpired (orderly : Orderly config s) : Orderly config (signalSessionExpired s w) := by
  unfold Browser.signalSessionExpired
  split
  · rename_i refreshInFlight idle
    have flight : (s.tabs w).refreshInFlight = refreshInFlight := by rw [idle]
    have unstored : (s.tabs w).refreshInFlight ≠ some .storing := by
      intro storing
      have handler := orderly.storing w storing
      rw [idle] at handler
      cases handler
    exact orderly.cleared unstored flight.symm .clear fun _ held => held
  · exact orderly

theorem Orderly.step (orderly : Orderly config s) {a : Action} (alone : Alone s a) : Orderly config (step config s a) := by
  cases a with
  | refreshAccessToken w => exact orderly.refreshAccessToken (alone w rfl)
  | arrive w => exact orderly.arrive
  | advance call env => exact orderly.served (by simp)
  | fail call => exact orderly.served (by simp)
  | setStatus userId status => exact orderly.served (by simp)
  | respond w => exact orderly.respond
  | store w => exact orderly.store
  | signalSessionExpired w => exact orderly.signalSessionExpired

theorem AloneRun.orderly (run : AloneRun config s) : Orderly config s := by
  induction run with
  | start starts => exact starts.orderly
  | tail earlier a alone ih => exact ih.step alone

theorem step_tabs {a : Action} (other : a.tab ≠ some v) : (step config s a).tabs v = s.tabs v := by
  have frame {w : Nat} (other : some w ≠ some v) (tab : Tab) : (s.setTab w tab).tabs v = s.tabs v :=
    setTab_other fun same => other (congrArg some same.symm)
  cases a with
  | refreshAccessToken w =>
    rw [step, Browser.refreshAccessToken]
    split
    · exact frame other _
    · rfl
  | arrive w =>
    rw [step, Browser.arrive]
    split
    · exact frame other _
    · rfl
  | advance | fail | setStatus => rfl
  | respond w =>
    rw [step, Browser.respond]
    split
    · split
      · exact frame other _
      · rfl
    · rfl
  | store w =>
    rw [step, Browser.store]
    split
    · exact frame other _
    · rfl
  | signalSessionExpired w =>
    rw [step, Browser.signalSessionExpired]
    split
    · exact frame other _
    · rfl

theorem foldl_tabs {actions : List Action} (others : ∀ a ∈ actions, a.tab ≠ some v) :
    (actions.foldl (step config) s).tabs v = s.tabs v := by
  induction actions generalizing s with
  | nil => rfl
  | cons a rest ih =>
    rw [List.foldl_cons, ih fun b member => others b (List.mem_cons_of_mem _ member)]
    exact step_tabs (others a (List.mem_cons_self ..))

theorem AloneRun.foldl (run : AloneRun config s) (actions : List Action)
    (unread : ∀ a ∈ actions, ∀ w, a ≠ .refreshAccessToken w) : AloneRun config (actions.foldl (Browser.step config) s) := by
  induction actions generalizing s with
  | nil => exact run
  | cons a rest ih =>
    refine ih (run.tail a fun w same => ?_) fun b member => unread b (List.mem_cons_of_mem _ member)
    exact absurd same (unread a (List.mem_cons_self ..) w)

end Tabs

/-- No call of the browser's tabs is ever about to revoke all sessions of the user. -/
theorem honest_tabs_never_replay {config : Config} {s : State} (run : AloneRun config s) (k : Nat) (request : Request) :
    s.server.calls[k]? ≠ some ⟨request, .replayed⟩ := by
  intro replays
  have orderly := run.orderly
  rcases orderly.calls k request _ replays with ⟨outcome, ended⟩ | ⟨w, awaits⟩
  · cases ended
  · obtain ⟨refreshToken, phase, now, honest⟩ := orderly.awaiting w k awaits
    obtain ⟨-, rfl⟩ := Call.mk.inj (Option.some.inj (replays.symm.trans now))
    exact honest

section Samples

def signedIn : State where
  -- right after a login whose tokens the browser has stored
  server := AuthService.State.after ([.receive (.login "user" "password")] ++ AuthService.Action.statements 0 3 1)
  storage := ⟨some ⟨0, 1⟩, some ⟨0, 1⟩⟩
  tabs _ := ⟨none, []⟩

theorem signedIn_starts : Starts .sample signedIn where
  reached := AuthService.State.reached_after _
  rest k request phase reads := by
    have only : signedIn.server.calls = [⟨.login "user" "password", .finished (.issued ⟨⟨0, 1⟩, ⟨0, 1⟩⟩)⟩] := by
      decide +kernel
    rw [only, List.getElem?_singleton] at reads
    obtain ⟨-, same⟩ := Option.ite_none_right_eq_some.mp reads
    obtain ⟨-, rfl⟩ := Call.mk.inj (Option.some.inj same)
    exact ⟨_, rfl⟩
  fresh token held := by
    obtain rfl := Option.some.inj held
    exact ⟨0, ⟨0, ⟨0, 1⟩, 1000, none⟩, by decide +kernel, rfl, rfl⟩
  idle _ := rfl

/-- Two tabs read the token; the second one's request arrives when the first one's exchange is done. -/
def twoTabs : List Action :=
  [.refreshAccessToken 0, .refreshAccessToken 1, .arrive 0] ++ List.replicate 5 (.advance 1 (.sample 2)) ++
    [.arrive 1] ++ List.replicate 2 (.advance 2 (.sample 3))

theorem twoTabs_replay : Starts .sample signedIn ∧
    (twoTabs.foldl (step .sample) signedIn).server.calls[2]? = some ⟨.refresh ⟨0, 1⟩, .replayed⟩ ∧
    (((twoTabs ++ [Action.advance 2 (.sample 3)]).foldl (step .sample) signedIn).server.tokens.any RefreshToken.isLive) = false :=
  ⟨signedIn_starts, by decide +kernel, by decide +kernel⟩

def firstTab : List Action :=
  -- the first tab has stored its response before the second one reads the token
  [.arrive 0] ++ List.replicate 5 (.advance 1 (.sample 2)) ++ [.respond 0, .store 0, .store 0]

def tabByTab : State :=
  let first := firstTab.foldl (step .sample) (step .sample signedIn (.refreshAccessToken 0))
  [Action.arrive 1, .advance 2 (.sample 3), .advance 2 (.sample 3)].foldl (step .sample)
    (step .sample first (.refreshAccessToken 1))

theorem tabByTab_honest : tabByTab.server.calls[2]? = some ⟨.refresh ⟨0, 2⟩, .found 1⟩ ∧
    tabByTab.server.calls[2]? ≠ some ⟨.refresh ⟨0, 2⟩, .replayed⟩ := by
  have first : AloneRun .sample (step .sample signedIn (.refreshAccessToken 0)) :=
    .tail (.start signedIn_starts) _ fun _ _ _ _ => rfl
  have second : AloneRun .sample (step .sample (firstTab.foldl (step .sample)
      (step .sample signedIn (.refreshAccessToken 0))) (.refreshAccessToken 1)) := by
    refine .tail (first.foldl firstTab (by simp [firstTab])) _ fun _ _ other _ => ?_
    by_cases same : other = 0
    · subst same
      decide +kernel
    · rw [foldl_tabs (by simp [firstTab, Action.tab, Ne.symm same]),
        step_tabs (by simp [Action.tab, Ne.symm same])]
      rfl
  exact ⟨by decide +kernel, honest_tabs_never_replay (second.foldl _ (by simp)) 2 _⟩

end Samples

end Browser

end VerdictVaut

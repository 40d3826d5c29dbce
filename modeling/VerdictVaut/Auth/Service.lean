import VerdictVaut.Shared.Runs
import VerdictVaut.Trading.Types

set_option autoImplicit false

namespace VerdictVaut

open Relational

namespace AuthService

def LOCK_THRESHOLD : Nat := 5

def BASE_LOCK_MS : Nat := 60000

def MAX_LOCK_MS : Nat := 15 * 60000

def computeLockDurationMs (failedLoginAttempts : Nat) : Nat :=
  if failedLoginAttempts ≤ LOCK_THRESHOLD then 0
  else min (BASE_LOCK_MS * 2 ^ (failedLoginAttempts - LOCK_THRESHOLD - 1)) MAX_LOCK_MS

def isCurrentlyLocked (lockedUntil : Option Time) (now : Time) : Bool :=
  match lockedUntil with
  | none => false
  | some lockedUntil => decide (now < lockedUntil)

structure User where
  -- the columns of a user row that signing in and out reads or writes
  email : String
  passwordHash : String
  status : UserStatus
  failedLoginAttempts : Nat
  lockedUntil : Option Time
  deriving DecidableEq

/-- A signed token: whom it is for and its random id. It stands for its string and for the string's hash. -/
structure Jwt where
  sub : Nat
  jwtid : Nat
  deriving DecidableEq, Repr

structure TokenPair where
  accessToken : Jwt
  refreshToken : Jwt
  deriving DecidableEq, Repr

structure RefreshToken where
  userId : Nat
  tokenHash : Jwt
  expiresAt : Time
  revokedAt : Option Time
  deriving DecidableEq

def RefreshToken.isLive (token : RefreshToken) : Bool :=
  token.revokedAt.isNone

def hashToken (token : Jwt) : Jwt := token

inductive HttpException
  | unauthorized (message : String)
  | forbidden (message : String)
  | notFound (message : String)
  | internal
  deriving DecidableEq, Repr

inductive Outcome
  | issued (tokens : TokenPair)
  | completed
  | threw (e : HttpException)
  deriving DecidableEq, Repr

inductive Request
  | login (email password : String)
  | refresh (refreshToken : Jwt)
  | logout (userId : Nat) (refreshToken : Jwt)
  | revokeSession (userId sessionId : Nat)
  | changePassword (userId : Nat) (currentPassword newPassword : String)
  deriving DecidableEq

inductive Phase
  -- where a call stands: between two of its database statements
  | received
  -- login: the wrong password is to be counted, the clock to be read for the lock, the lock to be written, the
  -- counters to be reset
  | counting (userId : Nat)
  | locking (userId failedLoginAttempts : Nat)
  | applying (userId failedLoginAttempts : Nat) (clock : Time)
  | resetting (userId : Nat) (user : User)
  -- refresh: the signature is good; the stored row was revoked; it was live; so was the user
  | verified
  | replayed
  | found (stored : Nat)
  | rotating (stored : Nat)
  -- changePassword: the new hash is to be stored; the sessions are to be revoked
  | changing (passwordHash : String)
  | changed
  -- issueTokenPair: the new row is to be inserted, in exchange for the rotated one or after a login
  | issuing (userId : Nat) (rotated : Option Nat)
  | finished (outcome : Outcome)
  deriving DecidableEq

structure Call where
  request : Request
  phase : Phase
  deriving DecidableEq

/-- What has happened so far: a token was inserted by a call, or a call revoked all sessions of a user. -/
inductive Event
  | issued (call token : Nat) (rotated : Option Nat)
  | revokedAll (call userId : Nat)
  deriving DecidableEq

structure State where
  -- the two tables, the calls received so far and what they have done
  users : List User
  tokens : List RefreshToken
  calls : List Call
  events : List Event
  deriving DecidableEq

/-- What one statement of a call finds outside the database: the clock, whether the presented token verifies,
the salt and the random ids it draws. -/
structure Env where
  now : Time
  verifies : Bool
  salt : Nat
  accessJwtid : Nat
  refreshJwtid : Nat

inductive Action
  | receive (request : Request)
  | advance (call : Nat) (env : Env)
  | abort (call : Nat)
  | setStatus (userId : Nat) (status : UserStatus)

structure Config where
  -- bcrypt and the configured lifetime of a refresh token
  comparePassword : String → String → Bool
  hashPassword : String → Nat → String
  refreshTtl : Int

/-- `updateMany` on the unrevoked rows that a filter selects: the only way a row is ever changed. -/
def revokeWhere (selected : Nat → RefreshToken → Bool) (now : Time) (tokens : List RefreshToken) : List RefreshToken :=
  tokens.mapIdx fun id token =>
    if selected id token && token.isLive then { token with revokedAt := some now } else token

/-- The number of rows that `updateMany` reports. -/
def selectedCount (selected : Nat → RefreshToken → Bool) (tokens : List RefreshToken) : Nat :=
  (tokens.zipIdx.filter fun row => selected row.2 row.1 && row.1.isLive).length

def byUser (userId : Nat) (_ : Nat) (token : RefreshToken) : Bool :=
  decide (token.userId = userId)

def byToken (userId : Nat) (tokenHash : Jwt) (_ : Nat) (token : RefreshToken) : Bool :=
  decide (token.userId = userId ∧ token.tokenHash = tokenHash)

def byId (stored : Nat) (id : Nat) (_ : RefreshToken) : Bool :=
  decide (id = stored)

def bySession (userId sessionId : Nat) (id : Nat) (token : RefreshToken) : Bool :=
  decide (id = sessionId ∧ token.userId = userId)

namespace State

def moves (s : State) (k : Nat) (request : Request) (phase : Phase) : State :=
  { s with calls := s.calls.set k ⟨request, phase⟩ }

def updateUser (s : State) (userId : Nat) (data : User → User) : State :=
  { s with users := s.users.modify userId data }

def revoke (s : State) (selected : Nat → RefreshToken → Bool) (now : Time) : State :=
  { s with tokens := revokeWhere selected now s.tokens }

def findFirst (s : State) (userId : Nat) (tokenHash : Jwt) : Option (Nat × RefreshToken) :=
  (s.tokens.zipIdx.find? fun row => byToken userId tokenHash row.2 row.1).map Prod.swap

end State

def threw (e : HttpException) : Phase :=
  .finished (.threw e)

section Statements

variable (config : Config) (s : State) (now : Time)

/-- `login` up to its first write: the account is read and the password compared, also while it is locked. -/
def checkPassword (email password : String) : Phase :=
  match s.users.findIdx? fun user => decide (user.email = email) with
  | none => threw (.unauthorized "Invalid email or password")
  | some userId =>
    match s.users[userId]? with
    | none => threw (.unauthorized "Invalid email or password")
    | some user =>
      if isCurrentlyLocked user.lockedUntil now then threw (.unauthorized "Invalid email or password")
      else if ¬ config.comparePassword password user.passwordHash then .counting userId
      else .resetting userId user

def checkSuspended (userId : Nat) (user : User) : Phase :=
  -- the suspension is checked on the user as first read
  if user.status = .suspended then threw (.forbidden "Account is suspended") else .issuing userId none

def resetFailures (user : User) : User :=
  { user with failedLoginAttempts := 0, lockedUntil := none }

def countFailure (user : User) : User :=
  { user with failedLoginAttempts := user.failedLoginAttempts + 1 }

def lockAccount (failedLoginAttempts : Nat) (user : User) : User :=
  { user with lockedUntil := some (now + computeLockDurationMs failedLoginAttempts) }

def afterCounting (userId : Nat) : Phase :=
  match s.users[userId]? with
  | none => threw .internal
  | some user =>
    if 0 < computeLockDurationMs (user.failedLoginAttempts + 1) then .locking userId (user.failedLoginAttempts + 1)
    else threw (.unauthorized "Invalid email or password")

def lookUp (refreshToken : Jwt) : Phase :=
  -- the row is looked up whether or not it is revoked
  match s.findFirst refreshToken.sub (hashToken refreshToken) with
  | none => threw (.unauthorized "Refresh token is no longer valid")
  | some (id, stored) =>
    if ¬ stored.isLive then .replayed
    else if stored.expiresAt < now then threw (.unauthorized "Refresh token is no longer valid")
    else .found id

def checkUser (userId stored : Nat) : Phase :=
  match s.users[userId]? with
  | none => threw (.unauthorized "Refresh token is no longer valid")
  | some user =>
    if user.status = .suspended then threw (.unauthorized "Refresh token is no longer valid") else .rotating stored

def checkCurrentPassword (env : Env) (userId : Nat) (currentPassword newPassword : String) : Phase :=
  match s.users[userId]? with
  | none => threw .internal
  | some user =>
    if config.comparePassword currentPassword user.passwordHash then .changing (config.hashPassword newPassword env.salt)
    else threw (.forbidden "Current password is incorrect")

end Statements

section Step

variable (config : Config) (s : State) (k : Nat) (env : Env)

/-- `randomUUID` does not repeat itself: a statement that would draw a used id is not taken. -/
def issueTokenPair (request : Request) (userId : Nat) (rotated : Option Nat) : State :=
  let accessToken : Jwt := ⟨userId, env.accessJwtid⟩
  let refreshToken : Jwt := ⟨userId, env.refreshJwtid⟩
  if s.tokens.any fun token => decide (token.tokenHash = hashToken refreshToken) then s
  else
    { s.moves k request (.finished (.issued ⟨accessToken, refreshToken⟩)) with
      tokens := s.tokens ++ [⟨userId, hashToken refreshToken, env.now + config.refreshTtl, none⟩]
      events := .issued k s.tokens.length rotated :: s.events }

def revokeAll (request : Request) (userId : Nat) (outcome : Outcome) : State :=
  { (s.revoke (byUser userId) env.now).moves k request (.finished outcome) with
    events := .revokedAll k userId :: s.events }

def rotate (request : Request) (userId stored : Nat) : State :=
  if selectedCount (byId stored) s.tokens = 0 then
    s.moves k request (threw (.unauthorized "Refresh token is no longer valid"))
  else (s.revoke (byId stored) env.now).moves k request (.issuing userId (some stored))

def advance : Request → Phase → State
  | .login email password, .received =>
    s.moves k (.login email password) (checkPassword config s env.now email password)
  | .login email password, .counting userId =>
    (s.updateUser userId countFailure).moves k (.login email password) (afterCounting s userId)
  | .login email password, .locking userId failedLoginAttempts =>
    s.moves k (.login email password) (.applying userId failedLoginAttempts env.now)
  | .login email password, .applying userId failedLoginAttempts clock =>
    (s.updateUser userId (lockAccount clock failedLoginAttempts)).moves k (.login email password)
      (threw (.unauthorized "Invalid email or password"))
  | .login email password, .resetting userId user =>
    if 0 < user.failedLoginAttempts ∨ user.lockedUntil ≠ none then
      (s.updateUser userId resetFailures).moves k (.login email password) (checkSuspended userId user)
    else s.moves k (.login email password) (checkSuspended userId user)
  | .refresh refreshToken, .received =>
    s.moves k (.refresh refreshToken)
      (if env.verifies then .verified else threw (.unauthorized "Invalid or expired refresh token"))
  | .refresh refreshToken, .verified => s.moves k (.refresh refreshToken) (lookUp s env.now refreshToken)
  | .refresh refreshToken, .replayed =>
    revokeAll s k env (.refresh refreshToken) refreshToken.sub
      (.threw (.unauthorized "Refresh token is no longer valid"))
  | .refresh refreshToken, .found stored => s.moves k (.refresh refreshToken) (checkUser s refreshToken.sub stored)
  | .refresh refreshToken, .rotating stored => rotate s k env (.refresh refreshToken) refreshToken.sub stored
  | .logout userId refreshToken, .received =>
    (s.revoke (byToken userId (hashToken refreshToken)) env.now).moves k (.logout userId refreshToken)
      (.finished .completed)
  | .revokeSession userId sessionId, .received =>
    if selectedCount (bySession userId sessionId) s.tokens = 0 then
      s.moves k (.revokeSession userId sessionId) (threw (.notFound "Session not found"))
    else
      (s.revoke (bySession userId sessionId) env.now).moves k (.revokeSession userId sessionId) (.finished .completed)
  | .changePassword userId currentPassword newPassword, .received =>
    s.moves k (.changePassword userId currentPassword newPassword)
      (checkCurrentPassword config s env userId currentPassword newPassword)
  | .changePassword userId currentPassword newPassword, .changing passwordHash =>
    (s.updateUser userId fun user => { user with passwordHash := passwordHash }).moves k
      (.changePassword userId currentPassword newPassword) .changed
  | .changePassword userId currentPassword newPassword, .changed =>
    revokeAll s k env (.changePassword userId currentPassword newPassword) userId .completed
  | request, .issuing userId rotated => issueTokenPair config s k env request userId rotated
  | _, _ => s

def abandon (request : Request) : Phase → State
  | .finished _ => s
  | _ => s.moves k request (threw .internal)

/-- A call is received, executes its next statement or fails where it stands; or an admin changes a status. -/
def step : Action → State
  | .receive request => { s with calls := s.calls ++ [⟨request, .received⟩] }
  | .advance k env =>
    match s.calls[k]? with
    | some call => advance config s k env call.request call.phase
    | none => s
  | .abort k =>
    match s.calls[k]? with
    | some call => abandon s k call.request call.phase
    | none => s
  | .setStatus userId status => s.updateUser userId fun user => { user with status := status }

end Step

def Starts (s : State) : Prop :=
  -- some users have registered; nobody has signed in yet
  s.tokens = [] ∧ s.calls = [] ∧ s.events = []

def Reached (config : Config) : State → Prop :=
  Reachable Starts (step config)

end AuthService

end VerdictVaut

import VerdictVaut.Auth.Service

set_option autoImplicit false

namespace VerdictVaut

namespace AuthService

section Rows

variable {tokens tokens' : List RefreshToken} {selected : Nat → RefreshToken → Bool} {now : Time} {i : Nat}
  {row row' : RefreshToken}

def Ages (tokens tokens' : List RefreshToken) : Prop :=
  -- rows keep their user and hash, and what is revoked stays as it is
  ∀ (i : Nat) (row : RefreshToken), tokens[i]? = some row → ∃ row' : RefreshToken, tokens'[i]? = some row' ∧ row'.userId = row.userId ∧
    row'.tokenHash = row.tokenHash ∧ (row.isLive = false → row' = row)

theorem Ages.refl (tokens : List RefreshToken) : Ages tokens tokens :=
  fun _ row found => ⟨row, found, rfl, rfl, fun _ => rfl⟩

theorem Ages.trans {tokens tokens' tokens'' : List RefreshToken} (first : Ages tokens tokens')
    (second : Ages tokens' tokens'') : Ages tokens tokens'' := by
  intro i row found
  obtain ⟨row', found', owner', hash', same'⟩ := first i row found
  obtain ⟨row'', found'', owner'', hash'', same''⟩ := second i row' found'
  refine ⟨row'', found'', owner''.trans owner', hash''.trans hash', fun dead => ?_⟩
  obtain rfl := same' dead
  exact same'' dead

theorem Ages.append (tokens : List RefreshToken) (row : RefreshToken) : Ages tokens (tokens ++ [row]) := by
  intro i old found
  obtain ⟨inside, -⟩ := List.getElem?_eq_some_iff.mp found
  exact ⟨old, by rw [List.getElem?_append_left inside, found], rfl, rfl, fun _ => rfl⟩

theorem revokeWhere_get? : (revokeWhere selected now tokens)[i]? = tokens[i]?.map fun token =>
    if selected i token && token.isLive then { token with revokedAt := some now } else token := by
  simp only [revokeWhere, List.getElem?_mapIdx]

@[simp] theorem revokeWhere_length : (revokeWhere selected now tokens).length = tokens.length := by
  simp only [revokeWhere, List.length_mapIdx]

theorem revokeWhere_ages : Ages tokens (revokeWhere selected now tokens) := by
  intro i row found
  rw [revokeWhere_get?, found]
  by_cases hit : (selected i row && row.isLive) = true
  · rw [Option.map_some, if_pos hit]
    have live : row.isLive = true := (Bool.and_eq_true _ _ ▸ hit).2
    exact ⟨_, rfl, rfl, rfl, fun dead => absurd live (by rw [dead]; decide)⟩
  · rw [Option.map_some, if_neg hit]
    exact ⟨row, rfl, rfl, rfl, fun _ => rfl⟩

theorem revokeWhere_selected (found : (revokeWhere selected now tokens)[i]? = some row')
    (old : tokens[i]? = some row) (hit : selected i row = true) : row'.isLive = false := by
  rw [revokeWhere_get?, old, Option.map_some] at found
  obtain rfl := Option.some.inj found
  cases live : row.isLive with
  | true => simp [hit, RefreshToken.isLive]
  | false =>
    rw [Bool.and_false, if_neg Bool.false_ne_true]
    exact live

theorem selectedCount_ne_zero (some_picked : selectedCount selected tokens ≠ 0) :
    ∃ i row, tokens[i]? = some row ∧ selected i row = true ∧ row.isLive = true := by
  have picked : tokens.zipIdx.filter (fun row => selected row.2 row.1 && row.1.isLive) ≠ [] := by
    intro empty
    exact some_picked (by rw [selectedCount, empty, List.length_nil])
  obtain ⟨⟨row, i⟩, member⟩ := List.exists_mem_of_ne_nil _ picked
  rw [List.mem_filter, List.mem_zipIdx_iff_getElem?, Bool.and_eq_true] at member
  exact ⟨i, row, member.1, member.2⟩

theorem State.findFirst_some {s : State} {userId : Nat} {tokenHash : Jwt}
    (found : s.findFirst userId tokenHash = some (i, row)) :
    s.tokens[i]? = some row ∧ row.userId = userId ∧ row.tokenHash = tokenHash := by
  obtain ⟨⟨_, _⟩, hit, same⟩ := Option.map_eq_some_iff.mp found
  obtain ⟨rfl, rfl⟩ := Prod.mk.inj same
  have matched := List.find?_some hit
  simp only [byToken, decide_eq_true_eq] at matched
  exact ⟨List.mem_zipIdx_iff_getElem?.mp (List.mem_of_find?_eq_some hit), matched⟩

theorem State.findFirst_of_get? {s : State} (found : s.tokens[i]? = some row) :
    ∃ found, s.findFirst row.userId row.tokenHash = some found := by
  refine Option.isSome_iff_exists.mp ?_
  rw [State.findFirst, Option.isSome_map, List.find?_isSome]
  exact ⟨(row, i), List.mem_zipIdx_iff_getElem?.mpr found, by simp [byToken]⟩

end Rows

section Steps

variable {config : Config} {s s' : State} {k : Nat} {request : Request} {phase : Phase} {env : Env}

inductive Turn (s : State) : Request → Phase → Phase → Prop
  -- the turns of a call that only reads the tokens
  | threw {request : Request} {phase : Phase} (running : ∀ outcome, phase ≠ .finished outcome) (e : HttpException) :
      Turn s request phase (threw e)
  | counting {email password : String} (userId : Nat) : Turn s (.login email password) .received (.counting userId)
  | locking {email password : String} {userId : Nat} (failedLoginAttempts : Nat) :
      Turn s (.login email password) (.counting userId) (.locking userId failedLoginAttempts)
  | applying {email password : String} {userId failedLoginAttempts : Nat} (clock : Time) :
      Turn s (.login email password) (.locking userId failedLoginAttempts) (.applying userId failedLoginAttempts clock)
  | resetting {email password : String} (userId : Nat) (user : User) :
      Turn s (.login email password) .received (.resetting userId user)
  | admitted {email password : String} {userId : Nat} {user : User} :
      Turn s (.login email password) (.resetting userId user) (.issuing userId none)
  | verified {refreshToken : Jwt} : Turn s (.refresh refreshToken) .received .verified
  | replayed {refreshToken : Jwt} {id : Nat} {row : RefreshToken} (stored : s.tokens[id]? = some row)
      (hash : row.tokenHash = refreshToken) (dead : row.isLive = false) :
      Turn s (.refresh refreshToken) .verified .replayed
  | found {refreshToken : Jwt} {id : Nat} {row : RefreshToken} (stored : s.tokens[id]? = some row)
      (owner : row.userId = refreshToken.sub) (hash : row.tokenHash = refreshToken) (live : row.isLive = true) :
      Turn s (.refresh refreshToken) .verified (.found id)
  | rotating {refreshToken : Jwt} {stored : Nat} : Turn s (.refresh refreshToken) (.found stored) (.rotating stored)
  | changing {userId : Nat} {currentPassword newPassword : String} (passwordHash : String) :
      Turn s (.changePassword userId currentPassword newPassword) .received (.changing passwordHash)
  | changed {userId : Nat} {currentPassword newPassword passwordHash : String} :
      Turn s (.changePassword userId currentPassword newPassword) (.changing passwordHash) .changed

inductive Revokes : Request → Phase → Nat → Prop
  -- the calls that revoke all sessions of a user, once they have come to it
  | reuse (refreshToken : Jwt) : Revokes (.refresh refreshToken) .replayed refreshToken.sub
  | password (userId : Nat) (currentPassword newPassword : String) :
      Revokes (.changePassword userId currentPassword newPassword) .changed userId

inductive SignsOut : Request → Prop
  | logout (userId : Nat) (refreshToken : Jwt) : SignsOut (.logout userId refreshToken)
  | revokeSession (userId sessionId : Nat) : SignsOut (.revokeSession userId sessionId)

/-- What a step may do: nothing to calls and tokens; receive a call; move one on that reads the tokens; sign out;
rotate a live token; insert a token; or revoke all sessions of a user. -/
inductive Stepped (config : Config) (s : State) : Action → State → Prop
  | stays (a : Action) (users : List User) : Stepped config s a { s with users := users }
  | received (request : Request) : Stepped config s (.receive request) { s with calls := s.calls ++ [⟨request, .received⟩] }
  | turned {a : Action} {k : Nat} {request : Request} {phase next : Phase} (was : s.calls[k]? = some ⟨request, phase⟩)
      (turn : Turn s request phase next) (users : List User) :
      Stepped config s a { s.moves k request next with users := users }
  | signedOut {k : Nat} {env : Env} {request : Request} (was : s.calls[k]? = some ⟨request, .received⟩)
      (signsOut : SignsOut request) (selected : Nat → RefreshToken → Bool) :
      Stepped config s (.advance k env) ((s.revoke selected env.now).moves k request (.finished .completed))
  | rotated {k : Nat} {env : Env} {refreshToken : Jwt} {stored : Nat}
      (was : s.calls[k]? = some ⟨.refresh refreshToken, .rotating stored⟩)
      (picked : selectedCount (byId stored) s.tokens ≠ 0) :
      Stepped config s (.advance k env)
        ((s.revoke (byId stored) env.now).moves k (.refresh refreshToken) (.issuing refreshToken.sub (some stored)))
  | issued {k : Nat} {env : Env} {request : Request} {userId : Nat} {rotated : Option Nat}
      (was : s.calls[k]? = some ⟨request, .issuing userId rotated⟩)
      (fresh : ∀ token ∈ s.tokens, token.tokenHash ≠ ⟨userId, env.refreshJwtid⟩) :
      Stepped config s (.advance k env)
        { s.moves k request (.finished (.issued ⟨⟨userId, env.accessJwtid⟩, ⟨userId, env.refreshJwtid⟩⟩)) with
          tokens := s.tokens ++ [⟨userId, ⟨userId, env.refreshJwtid⟩, env.now + config.refreshTtl, none⟩]
          events := .issued k s.tokens.length rotated :: s.events }
  | revokedAll {k : Nat} {env : Env} {request : Request} {phase : Phase} {userId : Nat} {outcome : Outcome}
      (was : s.calls[k]? = some ⟨request, phase⟩) (revokes : Revokes request phase userId) :
      Stepped config s (.advance k env) (revokeAll s k env request userId outcome)

theorem checkPassword_turn {email password : String} :
    Turn s (.login email password) .received (checkPassword config s env.now email password) := by
  unfold checkPassword
  split
  · exact .threw (by simp) _
  · rename_i userId _
    split
    · exact .threw (by simp) _
    · rename_i user _
      split
      · exact .threw (by simp) _
      · split
        · exact .counting userId
        · exact .resetting userId user

theorem afterCounting_turn {email password : String} {userId : Nat} :
    Turn s (.login email password) (.counting userId) (afterCounting s userId) := by
  unfold afterCounting
  split
  · exact .threw (by simp) _
  · split
    · exact .locking _
    · exact .threw (by simp) _

theorem checkSuspended_turn {email password : String} {userId : Nat} {user : User} :
    Turn s (.login email password) (.resetting userId user) (checkSuspended userId user) := by
  unfold checkSuspended
  split
  · exact .threw (by simp) _
  · exact .admitted

theorem lookUp_turn {refreshToken : Jwt} :
    Turn s (.refresh refreshToken) .verified (lookUp s env.now refreshToken) := by
  unfold lookUp
  split
  · exact .threw (by simp) _
  · rename_i id row hit
    obtain ⟨stored, owner, hash⟩ := State.findFirst_some hit
    split
    · rename_i dead
      exact .replayed stored hash (by simpa using dead)
    · rename_i live
      split
      · exact .threw (by simp) _
      · exact .found stored owner hash (by simpa using live)

theorem checkUser_turn {refreshToken : Jwt} {stored : Nat} :
    Turn s (.refresh refreshToken) (.found stored) (checkUser s refreshToken.sub stored) := by
  unfold checkUser
  split
  · exact .threw (by simp) _
  · split
    · exact .threw (by simp) _
    · exact .rotating

theorem checkCurrentPassword_turn {userId : Nat} {currentPassword newPassword : String} :
    Turn s (.changePassword userId currentPassword newPassword) .received
      (checkCurrentPassword config s env userId currentPassword newPassword) := by
  unfold checkCurrentPassword
  split
  · exact .threw (by simp) _
  · split
    · exact .changing _
    · exact .threw (by simp) _

theorem advance_stepped (was : s.calls[k]? = some ⟨request, phase⟩) :
    Stepped config s (.advance k env) (advance config s k env request phase) := by
  unfold advance
  split
  · exact .turned was checkPassword_turn _
  · exact .turned was afterCounting_turn _
  · exact .turned was (.applying _) _
  · exact .turned was (.threw (by simp) _) _
  · split
    · exact .turned was checkSuspended_turn _
    · exact .turned was checkSuspended_turn _
  · split
    · exact .turned was .verified _
    · exact .turned was (.threw (by simp) _) _
  · exact .turned was lookUp_turn _
  · exact .revokedAll was (.reuse _)
  · exact .turned was checkUser_turn _
  · unfold rotate
    split
    · exact .turned was (.threw (by simp) _) _
    · exact .rotated was ‹_›
  · exact .signedOut was (.logout _ _) _
  · split
    · exact .turned was (.threw (by simp) _) _
    · exact .signedOut was (.revokeSession _ _) _
  · exact .turned was checkCurrentPassword_turn _
  · exact .turned was .changed _
  · exact .revokedAll was (.password _ _ _)
  · simp only [issueTokenPair]
    split
    · exact .stays _ _
    · rename_i unused
      exact .issued was fun token member same => unused (List.any_eq_true.mpr ⟨token, member, decide_eq_true same⟩)
  · exact .stays _ _

theorem step_stepped (s : State) (a : Action) : Stepped config s a (step config s a) := by
  cases a with
  | receive request => exact .received request
  | advance k env =>
    rw [step]
    split
    · exact advance_stepped ‹_›
    · exact .stays _ _
  | abort k =>
    rw [step]
    split
    · rename_i call was
      unfold abandon
      split
      · exact .stays _ _
      · rename_i running
        exact .turned was (.threw running _) _
    · exact .stays _ _
  | setStatus userId status => exact .stays _ _

end Steps

def Rotated (s : State) (old new : Nat) : Prop :=
  -- the second token was inserted in exchange for the first
  ∃ k, Event.issued k new (some old) ∈ s.events

def Descends (s : State) : Nat → Nat → Prop :=
  Relation.ReflTransGen (Rotated s)

def Live (s : State) (id : Nat) : Prop :=
  ∃ row, s.tokens[id]? = some row ∧ row.isLive = true

def Spent (s : State) (userId id : Nat) : Prop :=
  ∃ row, s.tokens[id]? = some row ∧ row.userId = userId ∧ row.isLive = false

def Stored (s : State) (refreshToken : Jwt) (id : Nat) : Prop :=
  ∃ row, s.tokens[id]? = some row ∧ row.userId = refreshToken.sub ∧ row.tokenHash = refreshToken

/-- Of a token that has been rotated out, one call holds the right to a successor or one has used it. -/
structure Sound (s : State) : Prop where
  distinct : ∀ (i j : Nat) (a b : RefreshToken), s.tokens[i]? = some a → s.tokens[j]? = some b →
    a.tokenHash = b.tokenHash → i = j
  held : ∀ (k : Nat) refreshToken phase id, s.calls[k]? = some ⟨.refresh refreshToken, phase⟩ →
    phase = .found id ∨ phase = .rotating id → Stored s refreshToken id
  pending : ∀ (k : Nat) request userId id, s.calls[k]? = some ⟨request, .issuing userId (some id)⟩ →
    Spent s userId id ∧ ∀ j t, .issued j t (some id) ∉ s.events
  alone : ∀ (j k : Nat) request request' userId userId' id, s.calls[j]? = some ⟨request, .issuing userId (some id)⟩ →
    s.calls[k]? = some ⟨request', .issuing userId' (some id)⟩ → j = k
  spent : ∀ k t id, .issued k t (some id) ∈ s.events → id < t ∧ ∃ new userId, s.tokens[t]? = some new ∧
    new.userId = userId ∧ Spent s userId id
  unique : ∀ j k t u id, .issued j t (some id) ∈ s.events → .issued k u (some id) ∈ s.events → j = k ∧ t = u
  inserted : ∀ k t rotated, .issued k t rotated ∈ s.events → t < s.tokens.length ∧
    ∃ request outcome, s.calls[k]? = some ⟨request, .finished outcome⟩
  origin : ∀ t < s.tokens.length, ∃ k rotated, .issued k t rotated ∈ s.events
  revoked : ∀ k userId, .revokedAll k userId ∈ s.events → ∃ request outcome, s.calls[k]? = some ⟨request, .finished outcome⟩

section Invariant

variable {config : Config} {s s' : State} {a : Action} {k j id userId : Nat} {request : Request} {phase next : Phase}
  {refreshToken : Jwt}

theorem moves_self {call : Call} (was : s.calls[k]? = some call) :
    (s.moves k request next).calls[k]? = some ⟨request, next⟩ := by
  obtain ⟨inside, -⟩ := List.getElem?_eq_some_iff.mp was
  exact List.getElem?_set_self inside

theorem moves_other (ne : j ≠ k) : (s.moves k request next).calls[j]? = s.calls[j]? :=
  List.getElem?_set_ne ne.symm

theorem moves_reads {call : Call} (reads : (s.moves k request next).calls[j]? = some call) :
    s.calls[j]? = some call ∨ j = k ∧ call = ⟨request, next⟩ := by
  by_cases same : j = k
  · subst same
    rw [State.moves, List.getElem?_set_self'] at reads
    obtain ⟨_, -, rfl⟩ := Option.map_eq_some_iff.mp reads
    exact .inr ⟨rfl, rfl⟩
  · exact .inl ((moves_other same).symm.trans reads)

theorem received_reads {call : Call} (reads : (s.calls ++ [⟨request, .received⟩])[j]? = some call) :
    s.calls[j]? = some call ∨ j = s.calls.length ∧ call = ⟨request, .received⟩ := by
  rcases lt_or_ge j s.calls.length with inside | beyond
  · exact .inl ((List.getElem?_append_left inside).symm.trans reads)
  · rw [List.getElem?_append_right beyond, List.getElem?_singleton] at reads
    obtain ⟨last, same⟩ := Option.ite_none_right_eq_some.mp reads
    exact .inr ⟨by omega, (Option.some.inj same).symm⟩

theorem Spent.ages (spent : Spent s userId id) (ages : Ages s.tokens s'.tokens) : Spent s' userId id := by
  obtain ⟨row, found, owner, dead⟩ := spent
  obtain ⟨row', found', owner', -, same⟩ := ages id row found
  exact ⟨row', found', owner'.trans owner, by rw [same dead, dead]⟩

theorem Spent.inside (spent : Spent s userId id) : id < s.tokens.length := by
  obtain ⟨_, found, -⟩ := spent
  obtain ⟨inside, -⟩ := List.getElem?_eq_some_iff.mp found
  exact inside

theorem Stored.ages (stored : Stored s refreshToken id) (ages : Ages s.tokens s'.tokens) : Stored s' refreshToken id := by
  obtain ⟨row, found, owner, hash⟩ := stored
  obtain ⟨row', found', owner', hash', -⟩ := ages id row found
  exact ⟨row', found', owner'.trans owner, hash'.trans hash⟩

def Harmless (s : State) (request : Request) (phase : Phase) : Prop :=
  -- a phase that holds no right to a successor, and a row only as looked up
  (∀ userId id, phase ≠ .issuing userId (some id)) ∧
    ∀ refreshToken id, request = .refresh refreshToken → phase = .found id ∨ phase = .rotating id →
      Stored s refreshToken id

theorem Harmless.received : Harmless s request .received :=
  ⟨by simp, by simp⟩

theorem Harmless.finished {outcome : Outcome} : Harmless s request (.finished outcome) :=
  ⟨by simp, by simp⟩

structure Quiet (s s' : State) : Prop where
  -- a step that inserts nothing and gives no call the right to
  ages : Ages s.tokens s'.tokens
  size : s'.tokens.length = s.tokens.length
  issues : ∀ k t rotated, .issued k t rotated ∈ s'.events ↔ .issued k t rotated ∈ s.events
  revocations : ∀ k userId, .revokedAll k userId ∈ s'.events → .revokedAll k userId ∈ s.events ∨
    ∃ request outcome, s'.calls[k]? = some ⟨request, .finished outcome⟩
  finished : ∀ (k : Nat) request outcome, s.calls[k]? = some ⟨request, .finished outcome⟩ →
    s'.calls[k]? = some ⟨request, .finished outcome⟩
  calls : ∀ (k : Nat) request phase, s'.calls[k]? = some ⟨request, phase⟩ → s.calls[k]? = some ⟨request, phase⟩ ∨
    Harmless s request phase

theorem Sound.quiet (sound : Sound s) (quiet : Quiet s s') : Sound s' where
  distinct i j a b first second same := by
    have row (i : Nat) (a : RefreshToken) (found : s'.tokens[i]? = some a) :
        ∃ old, s.tokens[i]? = some old ∧ a.tokenHash = old.tokenHash := by
      obtain ⟨inside, -⟩ := List.getElem?_eq_some_iff.mp found
      have old := List.getElem?_eq_getElem (quiet.size ▸ inside)
      obtain ⟨row', found', -, hash, -⟩ := quiet.ages i _ old
      exact ⟨_, old, by rw [← hash, Option.some.inj (found.symm.trans found')]⟩
    obtain ⟨old, was, hash⟩ := row i a first
    obtain ⟨old', was', hash'⟩ := row j b second
    exact sound.distinct i j old old' was was' (by rw [← hash, ← hash', same])
  held k refreshToken phase id reads holds := by
    rcases quiet.calls k _ phase reads with was | ⟨-, harmless⟩
    · exact (sound.held k refreshToken phase id was holds).ages quiet.ages
    · exact (harmless refreshToken id rfl holds).ages quiet.ages
  pending k request userId id reads := by
    rcases quiet.calls k request _ reads with was | ⟨harmless, -⟩
    · obtain ⟨spent, unspent⟩ := sound.pending k request userId id was
      exact ⟨spent.ages quiet.ages, fun j t issued => unspent j t ((quiet.issues j t _).mp issued)⟩
    · exact absurd rfl (harmless userId id)
  alone j k request request' userId userId' id first second := by
    rcases quiet.calls j request _ first with was | ⟨harmless, -⟩
    · rcases quiet.calls k request' _ second with was' | ⟨harmless, -⟩
      · exact sound.alone j k request request' userId userId' id was was'
      · exact absurd rfl (harmless userId' id)
    · exact absurd rfl (harmless userId id)
  spent k t id issued := by
    obtain ⟨before, new, userId, found, owner, spent⟩ := sound.spent k t id ((quiet.issues k t _).mp issued)
    obtain ⟨new', found', owner', -, -⟩ := quiet.ages t new found
    exact ⟨before, new', userId, found', owner'.trans owner, spent.ages quiet.ages⟩
  unique j k t u id first second :=
    sound.unique j k t u id ((quiet.issues j t _).mp first) ((quiet.issues k u _).mp second)
  inserted k t rotated issued := by
    obtain ⟨inside, request, outcome, ended⟩ := sound.inserted k t rotated ((quiet.issues k t rotated).mp issued)
    exact ⟨by rw [quiet.size]; exact inside, request, outcome, quiet.finished k request outcome ended⟩
  origin t inside := by
    obtain ⟨k, rotated, issued⟩ := sound.origin t (quiet.size ▸ inside)
    exact ⟨k, rotated, (quiet.issues k t rotated).mpr issued⟩
  revoked k userId done := by
    rcases quiet.revocations k userId done with before | ended
    · obtain ⟨request, outcome, ended⟩ := sound.revoked k userId before
      exact ⟨request, outcome, quiet.finished k request outcome ended⟩
    · exact ended

theorem Turn.running (turn : Turn s request phase next) : ∀ outcome, phase ≠ .finished outcome := by
  cases turn with
  | threw running => exact running
  | _ => simp

theorem Turn.harmless (sound : Sound s) (was : s.calls[k]? = some ⟨request, phase⟩)
    (turn : Turn s request phase next) : Harmless s request next := by
  cases turn with
  | found stored owner hash live =>
    refine ⟨by simp, fun presented id same holds => ?_⟩
    obtain rfl := Request.refresh.inj same
    obtain rfl : _ = id := by simpa using holds
    exact ⟨_, stored, owner, hash⟩
  | rotating =>
    refine ⟨by simp, fun presented id same holds => ?_⟩
    obtain rfl := Request.refresh.inj same
    obtain rfl : _ = id := by simpa using holds
    exact sound.held k _ _ _ was (.inl rfl)
  | threw => exact .finished
  | _ => exact ⟨by simp, by simp⟩

theorem Quiet.moved (was : s.calls[k]? = some ⟨request, phase⟩) (running : ∀ outcome, phase ≠ .finished outcome)
    (harmless : Harmless s request next) (users : List User) {tokens : List RefreshToken} {events : List Event}
    (ages : Ages s.tokens tokens) (size : tokens.length = s.tokens.length)
    (issues : ∀ k t rotated, .issued k t rotated ∈ events ↔ .issued k t rotated ∈ s.events)
    (revocations : ∀ j userId, .revokedAll j userId ∈ events → .revokedAll j userId ∈ s.events ∨
      j = k ∧ ∃ outcome, next = .finished outcome) :
    Quiet s { s.moves k request next with users := users, tokens := tokens, events := events } where
  ages := ages
  size := size
  issues := issues
  revocations j userId done := by
    -- one call moves on without a right to a successor; tokens are at most revoked
    rcases revocations j userId done with before | ⟨rfl, outcome, rfl⟩
    · exact .inl before
    · exact .inr ⟨request, outcome, moves_self was⟩
  finished j request' outcome ended := by
    have ne : j ≠ k := by
      rintro rfl
      exact running outcome (congrArg Call.phase (Option.some.inj (was.symm.trans ended)))
    exact (moves_other ne).trans ended
  calls j request' phase' reads := by
    by_cases same : j = k
    · subst same
      obtain ⟨rfl, rfl⟩ := Call.mk.inj (Option.some.inj ((moves_self was).symm.trans reads))
      exact .inr harmless
    · exact .inl ((moves_other same).symm.trans reads)

theorem Quiet.received (request : Request) : Quiet s { s with calls := s.calls ++ [⟨request, .received⟩] } where
  ages := .refl _
  size := rfl
  issues _ _ _ := Iff.rfl
  revocations _ _ := .inl
  finished k request' outcome ended := by
    obtain ⟨inside, -⟩ := List.getElem?_eq_some_iff.mp ended
    exact (List.getElem?_append_left inside).trans ended
  calls k request' phase reads := by
    rcases received_reads reads with before | ⟨-, same⟩
    · exact .inl before
    · obtain ⟨-, rfl⟩ := Call.mk.inj same
      exact .inr .received

theorem Turn.quiet (sound : Sound s) (was : s.calls[k]? = some ⟨request, phase⟩) (turn : Turn s request phase next)
    (users : List User) : Quiet s { s.moves k request next with users := users } :=
  .moved was turn.running (turn.harmless sound was) users (.refl _) rfl (fun _ _ _ => Iff.rfl) fun _ _ => .inl

theorem Sound.rotated (sound : Sound s) {now : Time} {stored : Nat}
    (was : s.calls[k]? = some ⟨.refresh refreshToken, .rotating stored⟩)
    (picked : selectedCount (byId stored) s.tokens ≠ 0) :
    Sound ((s.revoke (byId stored) now).moves k (.refresh refreshToken) (.issuing refreshToken.sub (some stored))) := by
  -- the one call whose update hits the unrevoked row gets the right to a successor
  obtain ⟨i, row, found, hit, live⟩ := selectedCount_ne_zero picked
  obtain rfl : i = stored := of_decide_eq_true hit
  obtain ⟨_, found', owner, hash⟩ := sound.held k refreshToken _ i was (.inr rfl)
  obtain rfl := Option.some.inj (found.symm.trans found')
  -- before the update nobody had exchanged the row or was about to, for then it would have been revoked
  have unpending (j : Nat) (request : Request) (userId : Nat)
      (reads : s.calls[j]? = some ⟨request, .issuing userId (some i)⟩) : False := by
    obtain ⟨⟨old, was, -, dead⟩, -⟩ := sound.pending j request userId i reads
    rw [found] at was
    rw [Option.some.inj was, dead] at live
    cases live
  have unissued (j t : Nat) (issued : .issued j t (some i) ∈ s.events) : False := by
    obtain ⟨-, -, -, -, -, old, was, -, dead⟩ := sound.spent j t i issued
    rw [found] at was
    rw [Option.some.inj was, dead] at live
    cases live
  have spent : Spent (s.revoke (byId i) now) refreshToken.sub i := by
    have ages : Ages s.tokens (revokeWhere (byId i) now s.tokens) := revokeWhere_ages
    obtain ⟨row', now', owner', -, -⟩ := ages i row found
    exact ⟨row', now', owner'.trans owner, revokeWhere_selected now' found (decide_eq_true rfl)⟩
  have quiet : Quiet s ((s.revoke (byId i) now).moves k (.refresh refreshToken) .received) :=
    .moved was (by simp) .received s.users revokeWhere_ages revokeWhere_length (fun _ _ _ => Iff.rfl)
      fun _ _ => .inl
  have others := sound.quiet quiet
  have call {j : Nat} {request : Request} {phase : Phase} (ne : j ≠ k)
      (reads : ((s.revoke (byId i) now).moves k (.refresh refreshToken)
        (.issuing refreshToken.sub (some i))).calls[j]? = some ⟨request, phase⟩) :
      s.calls[j]? = some ⟨request, phase⟩ :=
    (List.getElem?_set_ne ne.symm).symm.trans reads
  have mine {request : Request} {phase : Phase} (reads : ((s.revoke (byId i) now).moves k (.refresh refreshToken)
      (.issuing refreshToken.sub (some i))).calls[k]? = some ⟨request, phase⟩) :
      .refresh refreshToken = request ∧ .issuing refreshToken.sub (some i) = phase :=
    Call.mk.inj (Option.some.inj ((moves_self (s := s.revoke (byId i) now) was).symm.trans reads))
  refine { others with held := ?_, pending := ?_, alone := ?_, inserted := ?_, revoked := ?_ }
  · intro j presented phase id reads holds
    by_cases same : j = k
    · subst same
      obtain ⟨-, rfl⟩ := mine reads
      rcases holds with same | same <;> cases same
    · exact (sound.held j presented phase id (call same reads) holds).ages quiet.ages
  · intro j request userId id reads
    by_cases same : j = k
    · subst same
      obtain ⟨rfl, issuing⟩ := mine reads
      obtain ⟨rfl, same⟩ := Phase.issuing.inj issuing
      obtain rfl := Option.some.inj same
      exact ⟨spent, unissued⟩
    · obtain ⟨old, unspent⟩ := sound.pending j request userId id (call same reads)
      exact ⟨old.ages quiet.ages, unspent⟩
  · intro j j' request request' userId userId' id first second
    by_cases same : j = k
    · subst same
      obtain ⟨-, issuing⟩ := mine first
      obtain rfl := Option.some.inj (Phase.issuing.inj issuing).2
      by_contra different
      exact unpending j' request' userId' (call (Ne.symm different) second)
    · by_cases same' : j' = k
      · subst same'
        obtain ⟨-, issuing⟩ := mine second
        obtain rfl := Option.some.inj (Phase.issuing.inj issuing).2
        exact (unpending j request userId (call same first)).elim
      · exact sound.alone j j' request request' userId userId' id (call same first) (call same' second)
  · intro j t rotated issued
    obtain ⟨inside, request, outcome, ended⟩ := sound.inserted j t rotated issued
    have ne : j ≠ k := by
      rintro rfl
      cases was.symm.trans ended
    exact ⟨quiet.size.symm ▸ inside, request, outcome, (List.getElem?_set_ne ne.symm).trans ended⟩
  · intro j userId done
    obtain ⟨request, outcome, ended⟩ := sound.revoked j userId done
    have ne : j ≠ k := by
      rintro rfl
      cases was.symm.trans ended
    exact ⟨request, outcome, (List.getElem?_set_ne ne.symm).trans ended⟩

theorem Sound.issued (sound : Sound s) {rotated : Option Nat} {outcome : Outcome} {row : RefreshToken}
    (was : s.calls[k]? = some ⟨request, .issuing userId rotated⟩) (owner : row.userId = userId)
    (fresh : ∀ token ∈ s.tokens, token.tokenHash ≠ row.tokenHash) :
    Sound { s.moves k request (.finished outcome) with
      tokens := s.tokens ++ [row], events := .issued k s.tokens.length rotated :: s.events } := by
  have ages : Ages s.tokens (s.tokens ++ [row]) := .append _ _
  have call {j : Nat} {request' : Request} {phase : Phase} (reads : (s.moves k request
      (.finished outcome)).calls[j]? = some ⟨request', phase⟩) (running : ∀ outcome, phase ≠ .finished outcome) :
      j ≠ k ∧ s.calls[j]? = some ⟨request', phase⟩ := by
    by_cases same : j = k
    · subst same
      obtain ⟨-, ended⟩ := Call.mk.inj (Option.some.inj ((moves_self was).symm.trans reads))
      exact absurd ended.symm (running outcome)
    · exact ⟨same, (moves_other same).symm.trans reads⟩
  have ends {j : Nat} (ended : ∃ request outcome, s.calls[j]? = some ⟨request, .finished outcome⟩) :
      ∃ request' outcome', (s.moves k request (.finished outcome)).calls[j]? = some ⟨request', .finished outcome'⟩ := by
    obtain ⟨request', outcome', ended⟩ := ended
    have ne : j ≠ k := by
      rintro rfl
      cases was.symm.trans ended
    exact ⟨request', outcome', (moves_other ne).trans ended⟩
  have new (i : Nat) (a : RefreshToken) (found : (s.tokens ++ [row])[i]? = some a) :
      s.tokens[i]? = some a ∨ i = s.tokens.length ∧ a = row := by
    rcases lt_or_ge i s.tokens.length with inside | beyond
    · exact .inl ((List.getElem?_append_left inside).symm.trans found)
    · rw [List.getElem?_append_right beyond, List.getElem?_singleton] at found
      obtain ⟨last, same⟩ := Option.ite_none_right_eq_some.mp found
      exact .inr ⟨by omega, (Option.some.inj same).symm⟩
  -- the predecessor of the new token has no other successor
  have unspent (id : Nat) (rotates : rotated = some id) (j t : Nat) : .issued j t (some id) ∉ s.events := by
    subst rotates
    exact (sound.pending k request userId id was).2 j t
  refine ⟨?_, ?_, ?_, ?_, ?_, ?_, ?_, ?_, ?_⟩
  · intro i j a b first second same
    rcases new i a first with old | ⟨rfl, rfl⟩
    · rcases new j b second with old' | ⟨rfl, rfl⟩
      · exact sound.distinct i j a b old old' same
      · exact absurd same (fresh a (List.mem_of_getElem? old))
    · rcases new j b second with old' | ⟨rfl, rfl⟩
      · exact absurd same.symm (fresh b (List.mem_of_getElem? old'))
      · rfl
  · intro j presented phase id reads holds
    have running : ∀ outcome, phase ≠ .finished outcome := by
      rcases holds with rfl | rfl <;> simp
    exact (sound.held j presented phase id (call reads running).2 holds).ages ages
  · intro j request' userId' id reads
    obtain ⟨ne, before⟩ := call reads (by simp)
    obtain ⟨spent, unspent⟩ := sound.pending j request' userId' id before
    refine ⟨spent.ages ages, fun i t issued => ?_⟩
    rcases List.mem_cons.mp issued with same | old
    · obtain ⟨-, -, rotates⟩ := Event.issued.inj same
      subst rotates
      exact ne (sound.alone j k request' request userId' userId id before was)
    · exact unspent i t old
  · intro j j' request' request'' userId' userId'' id first second
    obtain ⟨-, first⟩ := call first (by simp)
    obtain ⟨-, second⟩ := call second (by simp)
    exact sound.alone j j' request' request'' userId' userId'' id first second
  · intro j t id issued
    rcases List.mem_cons.mp issued with same | old
    · obtain ⟨-, rfl, rotates⟩ := Event.issued.inj same
      subst rotates
      have spent := (sound.pending k request userId id was).1
      have before : id < s.tokens.length := spent.inside
      exact ⟨before, row, userId, List.getElem?_concat_length, owner, spent.ages ages⟩
    · obtain ⟨before, successor, userId', found, owner', spent⟩ := sound.spent j t id old
      obtain ⟨inside, -⟩ := List.getElem?_eq_some_iff.mp found
      exact ⟨before, successor, userId', (List.getElem?_append_left inside).trans found, owner', spent.ages ages⟩
  · intro i j t u id first second
    rcases List.mem_cons.mp first with same | old
    · obtain ⟨rfl, rfl, rotates⟩ := Event.issued.inj same
      rcases List.mem_cons.mp second with same' | old'
      · obtain ⟨rfl, rfl, -⟩ := Event.issued.inj same'
        exact ⟨rfl, rfl⟩
      · exact absurd old' (unspent id rotates.symm j u)
    · rcases List.mem_cons.mp second with same' | old'
      · obtain ⟨-, -, rotates⟩ := Event.issued.inj same'
        exact absurd old (unspent id rotates.symm i t)
      · exact sound.unique i j t u id old old'
  · intro j t rotated' issued
    rw [List.length_append, List.length_singleton]
    rcases List.mem_cons.mp issued with same | old
    · obtain ⟨rfl, rfl, -⟩ := Event.issued.inj same
      exact ⟨by omega, request, outcome, moves_self was⟩
    · obtain ⟨inside, ended⟩ := sound.inserted j t rotated' old
      exact ⟨by omega, ends ended⟩
  · intro t inside
    rw [List.length_append, List.length_singleton] at inside
    rcases Nat.lt_or_ge t s.tokens.length with before | beyond
    · obtain ⟨j, rotated', issued⟩ := sound.origin t before
      exact ⟨j, rotated', List.mem_cons_of_mem _ issued⟩
    · obtain rfl : t = s.tokens.length := by omega
      exact ⟨k, rotated, List.mem_cons_self ..⟩
  · intro j userId' done
    rcases List.mem_cons.mp done with same | old
    · cases same
    · exact ends (sound.revoked j userId' old)

theorem Sound.step (sound : Sound s) (stepped : Stepped config s a s') : Sound s' := by
  cases stepped with
  | stays users => exact { sound with }
  | received request => exact sound.quiet (.received request)
  | turned was turn users => exact sound.quiet (turn.quiet sound was users)
  | signedOut was signsOut selected =>
    exact sound.quiet (.moved was (by simp) .finished s.users revokeWhere_ages revokeWhere_length
      (fun _ _ _ => Iff.rfl) fun _ _ => .inl)
  | rotated was picked => exact sound.rotated was picked
  | issued was fresh => exact sound.issued was rfl fresh
  | revokedAll was revokes =>
    refine sound.quiet (.moved was ?_ .finished s.users revokeWhere_ages revokeWhere_length (fun _ _ _ => by simp) ?_)
    · cases revokes <;> simp
    · intro j userId done
      rcases List.mem_cons.mp done with same | old
      · obtain ⟨rfl, -⟩ := Event.revokedAll.inj same
        exact .inr ⟨rfl, _, rfl⟩
      · exact .inl old

theorem Stepped.ages (stepped : Stepped config s a s') : Ages s.tokens s'.tokens := by
  cases stepped with
  | signedOut | rotated | revokedAll => exact revokeWhere_ages
  | issued => exact .append _ _
  | _ => exact .refl _

theorem Reached.sound (reached : Reached config s) : Sound s := by
  refine reached.invariant Sound ?_ fun s a _ sound => sound.step (step_stepped s a)
  rintro s ⟨empty, idle, quiet⟩
  constructor <;> simp [empty, idle, quiet]

end Invariant

end AuthService

end VerdictVaut

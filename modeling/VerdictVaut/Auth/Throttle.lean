import VerdictVaut.Auth.Service

set_option autoImplicit false

namespace VerdictVaut

open Relational

namespace AuthService

structure Lock where
  -- a lock as a call computes it: from the count it got back and the clock it read
  failedLoginAttempts : Nat
  clock : Time
  deriving DecidableEq, Repr

def Lock.lockedUntil (lock : Lock) : Time :=
  lock.clock + computeLockDurationMs lock.failedLoginAttempts

def State.lockedUntil (s : State) (userId : Nat) : Option Time :=
  s.users[userId]?.bind User.lockedUntil

def Call.lands (userId : Nat) (call : Call) : Option Lock :=
  match call.phase with
  | .applying target failedLoginAttempts clock =>
    match call.request with
    | .login _ _ => if target = userId then some ⟨failedLoginAttempts, clock⟩ else none
    | _ => none
  | _ => none

def landing (userId : Nat) (s : State) : Action → Option Lock
  -- the lock that an action writes to the row of this user
  | .advance k _ => s.calls[k]?.bind (Call.lands userId)
  | _ => none

def landed (config : Config) (userId : Nat) : State → List Action → List Lock
  -- the locks that a run writes to the row of this user, in the order in which they land
  | _, [] => []
  | s, a :: rest => (landing userId s a).toList ++ landed config userId (step config s a) rest

def Call.signsIn (userId : Nat) (call : Call) : Bool :=
  match call.phase with
  | .resetting target _ => target = userId
  | _ => false

def signsIn (userId : Nat) (s : State) : Action → Bool
  -- a login of this user whose password was right takes its next step
  | .advance k _ => s.calls[k]?.any (Call.signsIn userId)
  | _ => false

def Failing (config : Config) (userId : Nat) : State → List Action → Prop :=
  Allowed (fun s a => signsIn userId s a = false) (step config)

instance (config : Config) (userId : Nat) (s : State) (actions : List Action) :
    Decidable (Failing config userId s actions) :=
  inferInstanceAs (Decidable (Allowed _ _ _ _))

/-- The ends of the locks that the row of this user has held: the one found there and those that landed. -/
def held (config : Config) (userId : Nat) (s : State) (actions : List Action) : List Time :=
  (s.lockedUntil userId).toList ++ (landed config userId s actions).map Lock.lockedUntil

/-- Over every part of a run the lock of this user moves to no earlier time, and it is not over before any lock
that has landed. -/
structure OnlyLengthens (config : Config) (userId : Nat) (s : State) (actions : List Action) : Prop where
  monotone : ∀ earlier later rest, actions = earlier ++ later ++ rest →
    ∀ time, (earlier.foldl (step config) s).lockedUntil userId = some time →
      ∃ after, ((earlier ++ later).foldl (step config) s).lockedUntil userId = some after ∧ time ≤ after
  covers : ∀ earlier rest, actions = earlier ++ rest → ∀ lock ∈ landed config userId s earlier,
    ∃ time, (earlier.foldl (step config) s).lockedUntil userId = some time ∧ lock.lockedUntil ≤ time

/-- The locks land in the order of the counts that the increments gave back and of the clock readings, and no clock was
read before the lock that the run starts with is over. -/
structure LandsInOrder (config : Config) (userId : Nat) (s : State) (actions : List Action) : Prop where
  afterStart : ∀ lock ∈ landed config userId s actions, ∀ time ∈ s.lockedUntil userId, time ≤ lock.clock
  inOrder : (landed config userId s actions).Pairwise fun first second =>
    first.failedLoginAttempts ≤ second.failedLoginAttempts ∧ first.clock ≤ second.clock

section Landing

variable {config : Config} {s : State} {a : Action} {k userId : Nat} {env : Env} {actions : List Action}

theorem computeLockDurationMs_mono {m n : Nat} (fewer : m ≤ n) :
    computeLockDurationMs m ≤ computeLockDurationMs n := by
  unfold computeLockDurationMs
  by_cases few : m ≤ LOCK_THRESHOLD
  next => simp [few]
  next =>
    have many : ¬ n ≤ LOCK_THRESHOLD := by omega
    have doubled : 2 ^ (m - LOCK_THRESHOLD - 1) ≤ 2 ^ (n - LOCK_THRESHOLD - 1) :=
      Nat.pow_le_pow_right (by decide) (by omega)
    rw [if_neg few, if_neg many]
    apply min_le_min_right
    exact Nat.mul_le_mul_left _ doubled

@[simp] theorem lockedUntil_moves {request : Request} {phase : Phase} :
    (s.moves k request phase).lockedUntil userId = s.lockedUntil userId := rfl

theorem lockedUntil_updateUser {target : Nat} {data : User → User} : (s.updateUser target data).lockedUntil userId =
    if target = userId then s.users[userId]?.bind fun user => (data user).lockedUntil else s.lockedUntil userId := by
  by_cases same : target = userId
  next => cases row : s.users[userId]? <;> simp [State.lockedUntil, State.updateUser, same, row]
  next => simp [State.lockedUntil, State.updateUser, same]

theorem lockedUntil_kept {target : Nat} {data : User → User} (kept : ∀ user, (data user).lockedUntil = user.lockedUntil) :
    (s.updateUser target data).lockedUntil userId = s.lockedUntil userId := by
  rw [lockedUntil_updateUser]
  split
  · rw [funext kept, State.lockedUntil]
  · rfl

theorem lands_some {call : Call} {lock : Lock} (lands : call.lands userId = some lock) :
    ∃ email password, call = ⟨.login email password, .applying userId lock.failedLoginAttempts lock.clock⟩ := by
  obtain ⟨request, phase⟩ := call
  unfold Call.lands at lands
  split at lands
  next target failedLoginAttempts clock applying =>
    split at lands
    next email password login =>
      split at lands
      next same =>
        cases lands
        exact ⟨email, password, by rw [show request = _ from login, show phase = _ from applying, same]⟩
      next => cases lands
    next => cases lands
  next => cases lands

theorem advance_lockedUntil {request : Request} {phase : Phase}
    (registered : userId < s.users.length) (failing : Call.signsIn userId ⟨request, phase⟩ = false) :
    (advance config s k env request phase).lockedUntil userId =
      (Call.lands userId ⟨request, phase⟩).elim (s.lockedUntil userId) fun lock => some lock.lockedUntil := by
  -- what the next statement of a call does to the lock, unless it signs this user in
  unfold advance
  split
  case h_2 => exact lockedUntil_kept fun _ => rfl
  case h_4 target failedLoginAttempts clock =>
    rw [lockedUntil_moves, lockedUntil_updateUser, List.getElem?_eq_getElem registered]
    by_cases same : target = userId <;> simp [same, lockAccount, Lock.lockedUntil, Call.lands]
  case h_5 email password target row =>
    have other : target ≠ userId := by simpa [Call.signsIn] using failing
    split <;> simp [lockedUntil_updateUser, other, Call.lands]
  case h_10 => unfold rotate; split <;> rfl
  case h_12 => split <;> rfl
  case h_14 => exact lockedUntil_kept fun _ => rfl
  case h_16 => rw [issueTokenPair]; split <;> rfl
  case h_17 unlocked _ _ _ _ _ _ _ _ _ _ _ =>
    cases lands : Call.lands userId ⟨request, phase⟩ with
    | none => rfl
    | some lock =>
      obtain ⟨email, password, same⟩ := lands_some lands
      cases same
      exact (unlocked _ _ _ _ _ rfl rfl).elim
  all_goals rfl

theorem step_lockedUntil (registered : userId < s.users.length) (failing : signsIn userId s a = false) :
    (step config s a).lockedUntil userId =
      (landing userId s a).elim (s.lockedUntil userId) fun lock => some lock.lockedUntil := by
  -- what one step does to the lock: what lands replaces it, and without a sign-in nothing else touches it
  cases a with
  | receive request => rfl
  | abort k =>
    simp only [step, landing]
    split
    · unfold abandon
      split <;> rfl
    · rfl
  | setStatus target status => exact lockedUntil_kept fun _ => rfl
  | advance k env =>
    cases was : s.calls[k]? with
    | none => simp [step, landing, was]
    | some call =>
      simp only [step, landing, was, Option.bind_some]
      exact advance_lockedUntil registered (by simpa [signsIn, was] using failing)

theorem step_users : (step config s a).users.length = s.users.length := by
  have modified (target : Nat) (data : User → User) : (s.updateUser target data).users.length = s.users.length :=
    List.length_modify data s.users target
  cases a with
  | receive request => rfl
  | setStatus target status => exact modified target _
  | abort k =>
    simp only [step]
    split
    · unfold abandon
      split <;> rfl
    · rfl
  | advance k env =>
    simp only [step]
    split
    · unfold advance
      split
      case h_5 =>
        split
        · exact modified _ _
        · rfl
      case h_10 => unfold rotate; split <;> rfl
      case h_12 => split <;> rfl
      case h_16 => rw [issueTokenPair]; split <;> rfl
      all_goals first | rfl | exact modified _ _
    · rfl

end Landing

section Runs

variable {config : Config} {s : State} {userId : Nat} {actions : List Action}

theorem landed_append (earlier later : List Action) : landed config userId s (earlier ++ later) =
    landed config userId s earlier ++ landed config userId (earlier.foldl (step config) s) later := by
  induction earlier generalizing s with
  | nil => rfl
  | cons a rest ih => simp [landed, ih]

theorem held_append (earlier later : List Action) : held config userId s (earlier ++ later) =
    held config userId s earlier ++
      (landed config userId (earlier.foldl (step config) s) later).map Lock.lockedUntil := by
  simp [held, landed_append]

theorem run_lockedUntil (registered : userId < s.users.length)
    (failing : Failing config userId s actions) :
    (actions.foldl (step config) s).lockedUntil userId = (held config userId s actions).getLast? := by
  -- after a run without a sign-in the row holds the lock that landed last
  induction actions generalizing s with
  | nil => cases row : s.lockedUntil userId <;> simp [held, landed, row]
  | cons a rest ih =>
    obtain ⟨here, later⟩ := failing
    have next := ih (by rwa [step_users]) later
    have stepped : (step config s a).lockedUntil userId = _ := step_lockedUntil registered here
    rw [List.foldl_cons, next]
    cases lock : landing userId s a with
    | none => simp [held, landed, stepped, lock]
    | some lock => simp [held, landed, stepped, lock, List.getLast?_cons]

theorem pairwise_getLast {times more : List Time} (ordered : (times ++ more).Pairwise (· ≤ ·)) {time : Time}
    (member : time ∈ times) : ∃ last, (times ++ more).getLast? = some last ∧ time ≤ last := by
  have inside : times ++ more ≠ [] := List.append_ne_nil_of_left_ne_nil (List.ne_nil_of_mem member) more
  refine ⟨(times ++ more).getLast inside, List.getLast?_eq_some_getLast inside, ?_⟩
  exact ordered.rel_getLast (List.mem_append_left more member)

theorem onlyLengthens_of_ordered (registered : userId < s.users.length)
    (failing : Failing config userId s actions)
    (ordered : (held config userId s actions).Pairwise (· ≤ ·)) : OnlyLengthens config userId s actions := by
  -- if no lock ends before one that was held before it, the lock only lengthens
  constructor
  next =>
    intro earlier later rest split time was
    rw [split] at failing ordered
    rw [run_lockedUntil registered failing.append_left.append_left] at was
    rw [run_lockedUntil registered failing.append_left, held_append]
    rw [held_append, held_append] at ordered
    exact pairwise_getLast (List.pairwise_append.mp ordered).1 (List.mem_of_getLast? was)
  next =>
    intro earlier rest split lock member
    rw [split] at failing ordered
    rw [run_lockedUntil registered failing.append_left]
    rw [held_append] at ordered
    have listed : lock.lockedUntil ∈ held config userId s earlier :=
      List.mem_append_right _ (List.mem_map_of_mem member)
    have last := @pairwise_getLast _ [] (by simpa using (List.pairwise_append.mp ordered).1) _ listed
    simpa using last

theorem ordered_of_landing_order (inOrder : LandsInOrder config userId s actions) :
    (held config userId s actions).Pairwise (· ≤ ·) := by
  have never : ∀ lock : Lock, lock.clock ≤ lock.lockedUntil := fun lock =>
    Int.le_add_of_nonneg_right (Int.natCast_nonneg _)
  rw [held, List.pairwise_append]
  constructor
  next => cases s.lockedUntil userId <;> simp
  next =>
    constructor
    next =>
      apply List.Pairwise.map Lock.lockedUntil _ inOrder.inOrder
      intro first second later
      -- the later count is no smaller, so its lock is no shorter
      have longer := computeLockDurationMs_mono later.1
      exact Int.add_le_add later.2 (by exact_mod_cast longer)
    next =>
      intro time found later written
      obtain ⟨lock, lands, rfl⟩ := List.mem_map.mp written
      exact (inOrder.afterStart lock lands time (Option.mem_toList.mp found)).trans (never lock)

/-- While every login of a user fails and the locks land in order, the lock only lengthens. -/
theorem failedLogins_onlyLengthen (registered : userId < s.users.length) (failing : Failing config userId s actions)
    (inOrder : LandsInOrder config userId s actions) : OnlyLengthens config userId s actions :=
  onlyLengthens_of_ordered registered failing (ordered_of_landing_order inOrder)

end Runs

def clockReadings : List Action → List Time
  | [] => []
  | .advance _ env :: rest => env.now :: clockReadings rest
  | _ :: rest => clockReadings rest

/-- Two passwords are guessed at once for an account with five failures. The second guess locks it for two minutes;
then the write of the first lands. -/
def parallelGuesses : List Action :=
  [.receive (.login "trader@example.com" "guess"), .receive (.login "trader@example.com" "another guess"),
    .advance 0 ⟨0, false, 0, 0, 0⟩, .advance 1 ⟨0, false, 0, 0, 0⟩, .advance 0 ⟨1, false, 0, 0, 0⟩,
    .advance 1 ⟨1, false, 0, 0, 0⟩, .advance 0 ⟨2, false, 0, 0, 0⟩, .advance 1 ⟨2, false, 0, 0, 0⟩,
    .advance 1 ⟨3, false, 0, 0, 0⟩, .advance 0 ⟨4, false, 0, 0, 0⟩]

def oneTrader : State :=
  ⟨[⟨"trader@example.com", "hash", .active, 5, none⟩], [], [], []⟩

def noPassword : Config :=
  ⟨fun _ _ => false, fun password _ => password, 0⟩

/-- The account was locked until 120002 and is then locked until 60002. -/
theorem parallelGuesses_shorten : Starts oneTrader ∧ (clockReadings parallelGuesses).Pairwise (· ≤ ·) ∧
    Failing noPassword 0 oneTrader parallelGuesses ∧ ¬ OnlyLengthens noPassword 0 oneTrader parallelGuesses := by
  refine ⟨⟨rfl, rfl, rfl⟩, by decide +kernel, by decide +kernel, fun lengthens => ?_⟩
  have locked : ((parallelGuesses.take 9).foldl (step noPassword) oneTrader).lockedUntil 0 = some 120002 := by
    decide +kernel
  have shortened : (parallelGuesses.foldl (step noPassword) oneTrader).lockedUntil 0 = some 60002 := by
    decide +kernel
  obtain ⟨after, now, longer⟩ :=
    lengthens.monotone (parallelGuesses.take 9) (parallelGuesses.drop 9) [] (by simp) 120002 locked
  rw [List.take_append_drop, shortened] at now
  cases now
  exact absurd longer (by decide)

def orderedGuesses : List Action :=
  -- the same two guesses, whose locks land in the order of their counts
  parallelGuesses.take 8 ++ [.advance 0 ⟨3, false, 0, 0, 0⟩, .advance 1 ⟨4, false, 0, 0, 0⟩]

theorem orderedGuesses_land : LandsInOrder noPassword 0 oneTrader orderedGuesses := by
  have locks : landed noPassword 0 oneTrader orderedGuesses = [⟨6, 2⟩, ⟨7, 2⟩] := by decide +kernel
  constructor
  next => exact fun lock _ time found => by cases found
  next =>
    rw [locks]
    decide

theorem orderedGuesses_lengthen : (orderedGuesses.foldl (step noPassword) oneTrader).lockedUntil 0 = some 120002 ∧
    OnlyLengthens noPassword 0 oneTrader orderedGuesses :=
  ⟨by decide +kernel, failedLogins_onlyLengthen (by decide) (by decide +kernel) orderedGuesses_land⟩

end AuthService

end VerdictVaut

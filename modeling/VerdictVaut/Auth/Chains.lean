import VerdictVaut.Auth.Rotation
import Mathlib.Logic.Relator

set_option autoImplicit false

namespace VerdictVaut

namespace AuthService

open Relational

section Chains

variable {config : Config} {s s' : State} {a : Action} {k t u id userId : Nat}

theorem Sound.spent_of_rotated (sound : Sound s) (rotated : Rotated s t u) : ¬ Live s t := by
  obtain ⟨k, issued⟩ := rotated
  obtain ⟨-, -, -, -, -, row, found, -, dead⟩ := sound.spent k u t issued
  rintro ⟨row', found', live⟩
  obtain rfl := Option.some.inj (found.symm.trans found')
  rw [dead] at live
  cases live

theorem Sound.rotated_once (sound : Sound s) : Relator.RightUnique (Rotated s) := by
  rintro old new new' ⟨j, issued⟩ ⟨k, issued'⟩
  exact (sound.unique j k new new' old issued issued').2

theorem Sound.descends_total (sound : Sound s) {root : Nat} (first : Descends s root t) (second : Descends s root u) :
    Descends s t u ∨ Descends s u t :=
  Relation.ReflTransGen.total_of_right_unique sound.rotated_once first second

theorem Sound.live_descends (sound : Sound s) (live : Live s t) (descends : Descends s t u) : t = u := by
  rcases descends.cases_head with same | ⟨next, rotated, -⟩
  · exact same
  · exact absurd live (sound.spent_of_rotated rotated)

theorem Sound.root (sound : Sound s) (inside : t < s.tokens.length) :
    ∃ root k, .issued k root none ∈ s.events ∧ Descends s root t := by
  induction t using Nat.strongRecOn with
  | ind t ih =>
    obtain ⟨k, rotated, issued⟩ := sound.origin t inside
    cases rotated with
    | none => exact ⟨t, k, issued, .refl⟩
    | some old =>
      obtain ⟨before, -⟩ := sound.spent k t old issued
      obtain ⟨root, j, first, descends⟩ := ih old before (before.trans inside)
      exact ⟨root, j, first, descends.tail ⟨k, issued⟩⟩

theorem Ages.dead (ages : Ages s.tokens s'.tokens) (inside : id < s.tokens.length) (dead : ¬ Live s id) : ¬ Live s' id := by
  have found := List.getElem?_eq_getElem inside
  obtain ⟨row', found', -, -, same⟩ := ages id _ found
  cases state : s.tokens[id].isLive with
  | true => exact absurd ⟨_, found, state⟩ dead
  | false =>
    rintro ⟨row, now, live⟩
    obtain rfl := Option.some.inj (found'.symm.trans now)
    rw [same state, state] at live
    cases live

theorem ages_foldl (s : State) (actions : List Action) : Ages s.tokens (actions.foldl (step config) s).tokens := by
  induction actions generalizing s with
  | nil => exact .refl _
  | cons a rest ih => exact (step_stepped s a).ages.trans (ih _)

structure Barred (s : State) (k : Nat) : Prop where
  -- a call that can no longer come to an insertion and has made none
  stopped : ∃ request phase, s.calls[k]? = some ⟨request, phase⟩ ∧
    (phase = .replayed ∨ ∃ outcome, phase = .finished outcome)
  unissued : ∀ t rotated, .issued k t rotated ∉ s.events

theorem Barred.other {request : Request} {phase : Phase} {j : Nat} {next : Call} {events : List Event}
    (barred : Barred s k) (was : s.calls[j]? = some ⟨request, phase⟩) (moving : phase ≠ .replayed)
    (running : ∀ outcome, phase ≠ .finished outcome) (issues : ∀ t rotated, .issued k t rotated ∈ events →
      .issued k t rotated ∈ s.events ∨ k = j) (tokens : List RefreshToken) (users : List User) :
    Barred { s with calls := s.calls.set j next, events := events, tokens := tokens, users := users } k := by
  obtain ⟨request', phase', now, stopped⟩ := barred.stopped
  have ne : k ≠ j := by
    rintro rfl
    obtain ⟨-, rfl⟩ := Call.mk.inj (Option.some.inj (was.symm.trans now))
    rcases stopped with replayed | ⟨outcome, ended⟩
    · exact moving replayed
    · exact running outcome ended
  refine ⟨⟨request', phase', (List.getElem?_set_ne ne.symm).trans now, stopped⟩, fun t rotated issued => ?_⟩
  rcases issues t rotated issued with old | same
  · exact barred.unissued t rotated old
  · exact ne same

theorem Barred.ended {request request' : Request} {phase : Phase} {outcome : Outcome} {events : List Event}
    (barred : Barred s k) {j : Nat} (was : s.calls[j]? = some ⟨request, phase⟩)
    (issues : ∀ t rotated, .issued k t rotated ∈ events → .issued k t rotated ∈ s.events) (tokens : List RefreshToken)
    (users : List User) : Barred { s.moves j request' (.finished outcome) with
      events := events, tokens := tokens, users := users } k := by
  refine ⟨?_, fun t rotated issued => barred.unissued t rotated (issues t rotated issued)⟩
  by_cases same : k = j
  · subst same
    exact ⟨request', _, moves_self was, .inr ⟨outcome, rfl⟩⟩
  · obtain ⟨request'', phase', now, stopped⟩ := barred.stopped
    exact ⟨request'', phase', (moves_other same).trans now, stopped⟩

theorem Barred.step (barred : Barred s k) (stepped : Stepped config s a s') : Barred s' k := by
  cases stepped with
  | stays users => exact ⟨barred.stopped, barred.unissued⟩
  | received request =>
    obtain ⟨request', phase, now, stopped⟩ := barred.stopped
    obtain ⟨inside, -⟩ := List.getElem?_eq_some_iff.mp now
    exact ⟨⟨request', phase, (List.getElem?_append_left inside).trans now, stopped⟩, barred.unissued⟩
  | turned was turn users =>
    cases turn with
    | threw running e => exact barred.ended was (fun _ _ => id) s.tokens users
    | _ => exact barred.other was (by simp) (by simp) (fun _ _ => .inl) s.tokens users
  | signedOut was signsOut selected => exact barred.ended was (fun _ _ => id) _ s.users
  | rotated was picked => exact barred.other was (by simp) (by simp) (fun _ _ => .inl) _ s.users
  | issued was fresh =>
    refine barred.other was (by simp) (by simp) (fun t rotated issued => ?_) _ s.users
    rcases List.mem_cons.mp issued with same | old
    · exact .inr (Event.issued.inj same).1
    · exact .inl old
  | revokedAll was revokes =>
    refine barred.ended was (fun t rotated issued => ?_) _ s.users
    rcases List.mem_cons.mp issued with same | old
    · cases same
    · exact old

theorem Barred.foldl (barred : Barred s k) (actions : List Action) : Barred (actions.foldl (AuthService.step config) s) k := by
  induction actions generalizing s with
  | nil => exact barred
  | cons a rest ih => exact ih (barred.step (step_stepped s a))

theorem Sound.replayed (sound : Sound s) {refreshToken : Jwt} {row : RefreshToken} {env : Env}
    (was : s.calls[k]? = some ⟨.refresh refreshToken, .verified⟩) (stored : s.tokens[id]? = some row)
    (owner : row.userId = refreshToken.sub) (hash : row.tokenHash = hashToken refreshToken) (dead : row.isLive = false) :
    AuthService.step config s (.advance k env) = s.moves k (.refresh refreshToken) .replayed := by
  obtain ⟨⟨id', row'⟩, hit⟩ := State.findFirst_of_get? stored
  obtain ⟨stored', -, hash'⟩ := State.findFirst_some hit
  obtain rfl := sound.distinct _ _ _ _ stored' stored hash'
  obtain rfl := Option.some.inj (stored'.symm.trans stored)
  rw [owner, hash] at hit
  rw [AuthService.step, was]
  show s.moves k _ (lookUp s env.now refreshToken) = _
  rw [lookUp, hit]
  simp only [dead, Bool.false_eq_true, not_false_eq_true, if_true]

theorem Sound.barred (sound : Sound s) {refreshToken : Jwt}
    (was : s.calls[k]? = some ⟨.refresh refreshToken, .verified⟩) :
    Barred (s.moves k (.refresh refreshToken) .replayed) k := by
  refine ⟨⟨_, _, moves_self was, .inl rfl⟩, fun t rotated issued => ?_⟩
  obtain ⟨-, request, outcome, ended⟩ := sound.inserted k t rotated issued
  cases was.symm.trans ended

end Chains

theorem refresh_linear {config : Config} {s : State} (reached : Reached config s) (actions : List Action) :
    (∀ old new new' j k, .issued j new (some old) ∈ s.events → .issued k new' (some old) ∈ s.events →
      j = k ∧ new = new') ∧
    (∀ t < s.tokens.length, ∃ root k, .issued k root none ∈ s.events ∧ Descends s root t) ∧
    (∀ root t u, Descends s root t → Descends s root u →
      (Descends s t u ∨ Descends s u t) ∧ (Live s t → Live s u → t = u)) ∧
    (∀ id < s.tokens.length, ¬ Live s id → ¬ Live (actions.foldl (step config) s) id) ∧
    (∀ (k : Nat) refreshToken (id : Nat) (row : RefreshToken) env, s.calls[k]? = some ⟨.refresh refreshToken, .verified⟩ → s.tokens[id]? = some row →
      row.userId = refreshToken.sub → row.tokenHash = hashToken refreshToken → row.isLive = false →
        ∀ t rotated, .issued k t rotated ∉ (actions.foldl (step config) (step config s (.advance k env))).events) := by
  have sound := reached.sound
  refine ⟨?_, ?_, ?_, ?_, ?_⟩
  · intro old new new' j k first second
    exact sound.unique j k new new' old first second
  · intro t inside
    exact sound.root inside
  · intro root t u first second
    have total := sound.descends_total first second
    refine ⟨total, fun live live' => ?_⟩
    rcases total with forward | backward
    · exact sound.live_descends live forward
    · exact (sound.live_descends live' backward).symm
  · intro id inside dead
    exact (ages_foldl s actions).dead inside dead
  · intro k refreshToken id row env was stored owner hash dead
    rw [sound.replayed was stored owner hash dead]
    exact ((sound.barred was).foldl actions).unissued

section Samples

def Config.sample : Config where
  comparePassword password passwordHash := decide (password = passwordHash)
  hashPassword password _ := password
  refreshTtl := 1000

def Env.sample (jwtid : Nat) : Env where
  now := 0
  verifies := true
  salt := 0
  accessJwtid := jwtid
  refreshJwtid := jwtid

def Action.statements (k n jwtid : Nat) : List Action :=
  -- the next statements of a call, all of which draw the same id if any
  List.replicate n (.advance k (.sample jwtid))

def State.registered : State where
  users := [⟨"user", "password", .active, 0, none⟩]
  tokens := []
  calls := []
  events := []

def State.after (actions : List Action) : State :=
  actions.foldl (step .sample) .registered

theorem State.reached_after (actions : List Action) : Reached .sample (State.after actions) :=
  Reachable.foldl (.refl ⟨rfl, rfl, rfl⟩) actions

def replayedLogin : List Action :=
  -- a login, whose token is exchanged once and then presented again
  [.receive (.login "user" "password")] ++ Action.statements 0 3 1 ++
    [.receive (.refresh ⟨0, 1⟩)] ++ Action.statements 1 5 2 ++ [.receive (.refresh ⟨0, 1⟩)] ++ Action.statements 2 1 3

theorem replayedLogin_linear : Rotated (State.after replayedLogin) 0 1 ∧
    (∀ t u, Descends (State.after replayedLogin) 0 t → Descends (State.after replayedLogin) 0 u →
      Live (State.after replayedLogin) t → Live (State.after replayedLogin) u → t = u) ∧
    ∀ t rotated, .issued 2 t rotated ∉
      ([.advance 2 (.sample 4)].foldl (step .sample) (step .sample (State.after replayedLogin) (.advance 2 (.sample 3)))).events := by
  obtain ⟨-, -, chain, -, barred⟩ := refresh_linear (State.reached_after replayedLogin) [.advance 2 (.sample 4)]
  refine ⟨⟨1, by decide +kernel⟩, fun t u first second => (chain 0 t u first second).2, ?_⟩
  exact barred 2 ⟨0, 1⟩ 0 ⟨0, ⟨0, 1⟩, 1000, some 0⟩ (.sample 3) (by decide +kernel) (by decide +kernel) rfl rfl rfl

end Samples

end AuthService

end VerdictVaut

import VerdictVaut.Auth.Chains

set_option autoImplicit false

namespace VerdictVaut

namespace AuthService

open Relational

inductive RevokedAll (s : State) (k : Nat) : Nat → Prop
  -- a password change that has succeeded, or a refresh that has detected a reuse
  | password {userId : Nat} {currentPassword newPassword : String}
      (done : s.calls[k]? = some ⟨.changePassword userId currentPassword newPassword, .finished .completed⟩) :
      RevokedAll s k userId
  | reuse {refreshToken : Jwt} {outcome : Outcome} (done : s.calls[k]? = some ⟨.refresh refreshToken, .finished outcome⟩)
      (detected : .revokedAll k refreshToken.sub ∈ s.events) : RevokedAll s k refreshToken.sub

/-- When the call revokes all sessions of a user, no refresh of that user stands between its two writes. -/
def Undisturbed (k : Nat) (s : State) (a : Action) : Prop :=
  ∀ env request phase userId, a = .advance k env → s.calls[k]? = some ⟨request, phase⟩ →
    Revokes request phase userId → ∀ (j : Nat) other rotated, s.calls[j]? ≠ some ⟨other, .issuing userId (some rotated)⟩

inductive UndisturbedRun (config : Config) (k : Nat) (s : State) : State → Prop
  | refl : UndisturbedRun config k s s
  | tail {s' : State} (earlier : UndisturbedRun config k s s') (a : Action) (undisturbed : Undisturbed k s' a) :
      UndisturbedRun config k s (step config s' a)

structure Closed (s : State) (userId n : Nat) : Prop where
  -- the user's first tokens are all revoked, and no call can exchange one of them any more
  size : n ≤ s.tokens.length
  dead : ∀ (id : Nat) (row : RefreshToken), id < n → s.tokens[id]? = some row → row.userId = userId → row.isLive = false
  pending : ∀ (k : Nat) request id, s.calls[k]? = some ⟨request, .issuing userId (some id)⟩ → n ≤ id
  rotated : ∀ old new, Rotated s old new → old < n → Spent s userId old → new < n

section Revocation

variable {config : Config} {s s' s₀ : State} {a : Action} {k userId n t u : Nat} {request : Request} {phase : Phase}

theorem Ages.size (ages : Ages s.tokens s'.tokens) : s.tokens.length ≤ s'.tokens.length := by
  by_contra short
  have found := List.getElem?_eq_getElem (Nat.lt_of_not_le short)
  obtain ⟨row, found', -⟩ := ages _ _ found
  obtain ⟨inside, -⟩ := List.getElem?_eq_some_iff.mp found'
  omega

theorem Spent.before (spent : Spent s' userId t) (ages : Ages s.tokens s'.tokens) (inside : t < s.tokens.length)
    (dead : ∀ row : RefreshToken, s.tokens[t]? = some row → row.userId = userId → row.isLive = false) : Spent s userId t := by
  have found := List.getElem?_eq_getElem inside
  obtain ⟨row, found', owner, -⟩ := spent
  obtain ⟨row', found'', owner', -, -⟩ := ages t _ found
  obtain rfl := Option.some.inj (found'.symm.trans found'')
  have mine : s.tokens[t].userId = userId := owner'.symm.trans owner
  exact ⟨_, found, mine, dead _ found mine⟩

theorem Closed.kept (closed : Closed s userId n) (ages : Ages s.tokens s'.tokens)
    (pending : ∀ (k : Nat) request id, s'.calls[k]? = some ⟨request, .issuing userId (some id)⟩ →
      s.calls[k]? = some ⟨request, .issuing userId (some id)⟩ ∨ n ≤ id)
    (rotated : ∀ old new, Rotated s' old new → Rotated s old new ∨ (Spent s userId old → n ≤ old)) :
    Closed s' userId n where
  size := closed.size.trans ages.size
  dead id row before found owner := by
    -- a step that exchanges none of the closed tokens and lets no call come to it
    have old := List.getElem?_eq_getElem (before.trans_le closed.size)
    obtain ⟨row', found', owner', -, same⟩ := ages id _ old
    obtain rfl := Option.some.inj (found'.symm.trans found)
    have dead := closed.dead id _ before old (owner'.symm.trans owner)
    rw [same dead, dead]
  pending k request id reads := by
    rcases pending k request id reads with old | new
    · exact closed.pending k request id old
    · exact new
  rotated old new exchanged before spent := by
    have spent := spent.before ages (before.trans_le closed.size) fun row => closed.dead old row before
    rcases rotated old new exchanged with earlier | later
    · exact closed.rotated old new earlier before spent
    · have := later spent
      omega

theorem Closed.step (closed : Closed s userId n) (sound : Sound s) (stepped : Stepped config s a s') :
    Closed s' userId n := by
  cases stepped with
  | stays users => exact { closed with }
  | received request =>
    refine closed.kept (.refl _) (fun k request' id reads => ?_) fun _ _ => .inl
    rcases (Quiet.received request).calls k _ _ reads with old | ⟨harmless, -⟩
    · exact .inl old
    · exact absurd rfl (harmless userId id)
  | turned was turn users =>
    have quiet := turn.quiet sound was users
    refine closed.kept (.refl _) (fun k request' id reads => ?_) fun _ _ => .inl
    rcases quiet.calls k _ _ reads with old | ⟨harmless, -⟩
    · exact .inl old
    · exact absurd rfl (harmless userId id)
  | signedOut was signsOut selected =>
    refine closed.kept revokeWhere_ages (fun k request' id reads => ?_) fun _ _ => .inl
    rcases moves_reads reads with old | ⟨-, same⟩
    · exact .inl old
    · cases same
  | @rotated k env refreshToken stored was picked =>
    refine closed.kept revokeWhere_ages (fun j request' id reads => ?_) fun _ _ => .inl
    rcases moves_reads reads with old | ⟨-, same⟩
    · exact .inl old
    -- the row was live when it was rotated, so it is none of the closed ones
    · obtain ⟨-, issuing⟩ := Call.mk.inj same
      obtain ⟨rfl, rotates⟩ := Phase.issuing.inj issuing
      obtain rfl := Option.some.inj rotates
      right
      obtain ⟨i, row, found, hit, live⟩ := selectedCount_ne_zero picked
      obtain rfl : i = id := of_decide_eq_true hit
      obtain ⟨row', found', owner, -⟩ := sound.held k refreshToken _ i was (.inr rfl)
      obtain rfl := Option.some.inj (found.symm.trans found')
      by_contra before
      rw [closed.dead i _ (Nat.lt_of_not_le before) found owner] at live
      cases live
  | @issued k env request issuedTo rotated was fresh =>
    refine closed.kept (.append _ _) (fun j request' id reads => ?_) fun old new exchanged => ?_
    · rcases moves_reads reads with before | ⟨-, same⟩
      · exact .inl before
      · cases same
    · obtain ⟨j, issued⟩ := exchanged
      rcases List.mem_cons.mp issued with same | before
      · obtain ⟨rfl, rfl, rfl⟩ := Event.issued.inj same
        right
        rintro ⟨row, found, owner, -⟩
        obtain ⟨⟨row', found', owner', -⟩, -⟩ := sound.pending j request issuedTo old was
        obtain rfl := Option.some.inj (found.symm.trans found')
        obtain rfl : issuedTo = userId := owner'.symm.trans owner
        exact closed.pending j request old was
      · exact .inl ⟨j, before⟩
  | revokedAll was revokes =>
    refine closed.kept revokeWhere_ages (fun j request' id reads => ?_) fun old new exchanged => ?_
    · rcases moves_reads reads with before | ⟨-, same⟩
      · exact .inl before
      · cases same
    · obtain ⟨j, issued⟩ := exchanged
      rcases List.mem_cons.mp issued with same | before
      · cases same
      · exact .inl ⟨j, before⟩

theorem Sound.closes (sound : Sound s) {env : Env} {outcome : Outcome}
    (quiet : ∀ (j : Nat) other rotated, s.calls[j]? ≠ some ⟨other, .issuing userId (some rotated)⟩) :
    Closed (revokeAll s k env request userId outcome) userId s.tokens.length where
  size := by rw [revokeAll]; exact revokeWhere_length.ge
  dead id row before found owner := by
    -- revoking all sessions while nothing is pending closes all tokens there are
    have old := List.getElem?_eq_getElem before
    have ages : Ages s.tokens (revokeWhere (byUser userId) env.now s.tokens) := revokeWhere_ages
    obtain ⟨row', found', owner', -⟩ := ages id _ old
    obtain rfl := Option.some.inj (found'.symm.trans found)
    exact revokeWhere_selected found old (decide_eq_true (owner'.symm.trans owner))
  pending j request' id reads := by
    rcases moves_reads (s := s.revoke (byUser userId) env.now) reads with before | ⟨-, same⟩
    · exact absurd before (quiet j request' id)
    · cases same
  rotated old new exchanged before _ := by
    obtain ⟨j, issued⟩ := exchanged
    rcases List.mem_cons.mp issued with same | earlier
    · cases same
    · exact (sound.inserted j new _ earlier).1

theorem Closed.descends (closed : Closed s userId n) (sound : Sound s) (before : t < n) {row : RefreshToken}
    (found : s.tokens[t]? = some row) (owner : row.userId = userId) (descends : Descends s t u) : ¬ Live s u := by
  suffices u < n ∧ Spent s userId u by
    obtain ⟨-, row', found', -, dead⟩ := this
    rintro ⟨row'', found'', live⟩
    obtain rfl := Option.some.inj (found'.symm.trans found'')
    rw [dead] at live
    cases live
  induction descends with
  | refl => exact ⟨before, row, found, owner, closed.dead t row before found owner⟩
  | tail _ rotated ih =>
    obtain ⟨inside, spent⟩ := ih
    have after := closed.rotated _ _ rotated inside spent
    obtain ⟨j, issued⟩ := rotated
    obtain ⟨-, new, owner', found', theirs, row', was, owner'', -⟩ := sound.spent j _ _ issued
    obtain ⟨old, was', mine, -⟩ := spent
    obtain rfl := Option.some.inj (was.symm.trans was')
    have same : new.userId = userId := theirs.trans (owner''.symm.trans mine)
    exact ⟨after, new, found', same, closed.dead _ new after found' same⟩

def Noted (s : State) : Prop :=
  -- a password change does not succeed before it has revoked the sessions
  ∀ (k : Nat) userId currentPassword newPassword,
    s.calls[k]? = some ⟨.changePassword userId currentPassword newPassword, .finished .completed⟩ →
      .revokedAll k userId ∈ s.events

theorem Noted.step (noted : Noted s) (stepped : Stepped config s a s') : Noted s' := by
  intro j changed currentPassword newPassword done
  cases stepped with
  | stays users => exact noted j changed currentPassword newPassword done
  | received request =>
    rcases received_reads done with before | ⟨-, same⟩
    · exact noted j changed currentPassword newPassword before
    · cases same
  | turned was turn users =>
    rcases moves_reads done with before | ⟨-, same⟩
    · exact noted j changed currentPassword newPassword before
    · obtain ⟨rfl, ended⟩ := Call.mk.inj same
      cases turn <;> cases ended
  | signedOut was signsOut selected =>
    rcases moves_reads (s := s.revoke selected _) done with before | ⟨-, same⟩
    · exact noted j changed currentPassword newPassword before
    · obtain ⟨rfl, -⟩ := Call.mk.inj same
      cases signsOut
  | rotated was picked =>
    rcases moves_reads (s := s.revoke _ _) done with before | ⟨-, same⟩
    · exact noted j changed currentPassword newPassword before
    · cases same
  | issued was fresh =>
    refine List.mem_cons_of_mem _ ?_
    rcases moves_reads done with before | ⟨-, same⟩
    · exact noted j changed currentPassword newPassword before
    · cases same
  | revokedAll was revokes =>
    rcases moves_reads (s := s.revoke _ _) done with before | ⟨rfl, same⟩
    · exact List.mem_cons_of_mem _ (noted j changed currentPassword newPassword before)
    · obtain ⟨rfl, -⟩ := Call.mk.inj same
      cases revokes
      exact List.mem_cons_self ..

theorem Reached.noted (reached : Reached config s) : Noted s := by
  refine reached.invariant Noted ?_ fun s a _ noted => noted.step (step_stepped s a)
  rintro s ⟨-, idle, -⟩ k userId currentPassword newPassword done
  rw [idle] at done
  cases done

theorem RevokedAll.noted (revoked : RevokedAll s k userId) (noted : Noted s) : .revokedAll k userId ∈ s.events := by
  cases revoked with
  | password done => exact noted k userId _ _ done
  | reuse done detected => exact detected

theorem Sound.closes_now (sound : Sound s) (undisturbed : Undisturbed k s a) (stepped : Stepped config s a s')
    (before : .revokedAll k userId ∉ s.events) (done : .revokedAll k userId ∈ s'.events) :
    Closed s' userId s.tokens.length := by
  cases stepped with
  | @revokedAll j env request phase revokedFor outcome was revokes =>
    rcases List.mem_cons.mp done with same | earlier
    · obtain ⟨rfl, rfl⟩ := Event.revokedAll.inj same
      exact sound.closes (undisturbed env request phase _ rfl was revokes)
    · exact absurd earlier before
  | issued was fresh =>
    rcases List.mem_cons.mp done with same | earlier
    · cases same
    · exact absurd earlier before
  | _ => exact absurd done before

theorem UndisturbedRun.ages (run : UndisturbedRun config k s s') : Ages s.tokens s'.tokens := by
  induction run with
  | refl => exact .refl _
  | tail earlier a undisturbed ih => exact ih.trans (step_stepped _ a).ages

theorem UndisturbedRun.closed (reached : Reached config s₀) {request : Request}
    (run : UndisturbedRun config s₀.calls.length (step config s₀ (.receive request)) s) : Reached config s ∧
      s₀.tokens.length ≤ s.tokens.length ∧ ∀ userId, .revokedAll s₀.calls.length userId ∈ s.events →
        ∃ n, s₀.tokens.length ≤ n ∧ Closed s userId n := by
  induction run with
  | refl =>
    refine ⟨reached.tail _, le_rfl, fun userId done => ?_⟩
    obtain ⟨request, outcome, ended⟩ := reached.sound.revoked _ userId done
    obtain ⟨inside, -⟩ := List.getElem?_eq_some_iff.mp ended
    omega
  | @tail s earlier a undisturbed ih =>
    obtain ⟨reached', size, closes⟩ := ih
    have stepped : Stepped config s a (step config s a) := step_stepped s a
    refine ⟨reached'.tail a, size.trans stepped.ages.size, fun userId done => ?_⟩
    by_cases before : .revokedAll s₀.calls.length userId ∈ s.events
    · obtain ⟨n, later, closed⟩ := closes userId before
      exact ⟨n, later, closed.step reached'.sound stepped⟩
    · exact ⟨s.tokens.length, size, reached'.sound.closes_now undisturbed stepped before done⟩

end Revocation

theorem revokeAll_complete {config : Config} {s₀ s : State} {k userId t u : Nat} {request : Request} {row : RefreshToken}
    (reached : Reached config s₀) (started : s₀.calls.length = k)
    (run : UndisturbedRun config k (step config s₀ (.receive request)) s) (revoked : RevokedAll s k userId)
    (issued : s₀.tokens[t]? = some row) (owner : row.userId = userId) (descends : Descends s t u) : ¬ Live s u := by
  subst started
  obtain ⟨reached', size, closes⟩ := run.closed reached
  obtain ⟨n, later, closed⟩ := closes userId (revoked.noted reached'.noted)
  obtain ⟨before, -⟩ := List.getElem?_eq_some_iff.mp issued
  obtain ⟨row', now, owner', -⟩ := ((step_stepped s₀ _).ages.trans run.ages) t row issued
  exact closed.descends reached'.sound (before.trans_le later) now (owner'.trans owner) descends

section Samples

def rotatedLogin : State :=
  -- a login whose token a refresh has rotated; the successor is yet to be inserted
  State.after ([.receive (.login "user" "password")] ++ Action.statements 0 3 1 ++
    [.receive (.refresh ⟨0, 1⟩)] ++ Action.statements 1 4 2)

def passwordChange : List Action :=
  [.receive (.changePassword 0 "password" "another")] ++ Action.statements 2 3 0

theorem rotatedLogin_survives :
    Reached .sample rotatedLogin ∧ RevokedAll (passwordChange.foldl (step .sample) rotatedLogin) 2 0 ∧
      rotatedLogin.calls.length = 2 ∧ rotatedLogin.tokens[0]? = some ⟨0, ⟨0, 1⟩, 1000, some 0⟩ ∧
      Descends ((passwordChange ++ Action.statements 1 1 2).foldl (step .sample) rotatedLogin) 0 1 ∧
      Live ((passwordChange ++ Action.statements 1 1 2).foldl (step .sample) rotatedLogin) 1 := by
  have changed : (passwordChange.foldl (step .sample) rotatedLogin).calls[2]? =
      some ⟨.changePassword 0 "password" "another", .finished .completed⟩ := by decide +kernel
  refine ⟨State.reached_after _, .password changed, by decide +kernel, by decide +kernel, ?_, ?_⟩
  · exact .single ⟨1, by decide +kernel⟩
  · exact ⟨⟨0, ⟨0, 2⟩, 1000, none⟩, by decide +kernel, rfl⟩

def refreshedLogin : State :=
  -- the same with the exchange completed before the password is changed
  State.after ([.receive (.login "user" "password")] ++ Action.statements 0 3 1 ++
    [.receive (.refresh ⟨0, 1⟩)] ++ Action.statements 1 5 2)

def Phase.exchanges : Phase → Bool
  | .issuing _ (some _) => true
  | _ => false

theorem undisturbed_of_settled {k : Nat} {s : State} (settled : s.calls.all (fun call => !call.phase.exchanges) = true)
    (a : Action) : Undisturbed k s a := by
  intro _ _ _ userId _ _ _ j other rotated reads
  have quiet := List.all_eq_true.mp settled _ (List.mem_of_getElem? reads)
  cases quiet

theorem refreshedLogin_revoked :
    ¬ Live (passwordChange.foldl (step .sample) refreshedLogin) 1 := by
  have changed : (passwordChange.foldl (step .sample) refreshedLogin).calls[2]? =
      some ⟨.changePassword 0 "password" "another", .finished .completed⟩ := by decide +kernel
  have run : UndisturbedRun .sample 2 (step .sample refreshedLogin (.receive (.changePassword 0 "password" "another")))
      (passwordChange.foldl (step .sample) refreshedLogin) := by
    let call : Action := .advance 2 (.sample 0)
    refine .tail (.tail (.tail .refl call ?_) call ?_) call ?_
    · exact undisturbed_of_settled (by decide +kernel) _
    · exact undisturbed_of_settled (by decide +kernel) _
    · exact undisturbed_of_settled (by decide +kernel) _
  have issued : refreshedLogin.tokens[0]? = some ⟨0, ⟨0, 1⟩, 1000, some 0⟩ := by decide +kernel
  exact revokeAll_complete (State.reached_after _) (by decide +kernel) run (.password changed) issued rfl (.single ⟨1, by decide +kernel⟩)

end Samples

end AuthService

end VerdictVaut

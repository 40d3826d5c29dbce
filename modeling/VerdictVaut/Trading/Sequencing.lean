import VerdictVaut.Trading.KeyedSerialQueue

set_option autoImplicit false

namespace VerdictVaut.KeyedSerialQueue

open Promises

variable {Key V : Type} [DecidableEq Key] [Inhabited V]

section Traces

variable {stage : Nat → Stage V} {q : Queue Key V}

theorem Matches.step (m : Matches q stage) (action : Action Key V) : ∃ stage', Matches (step q action) stage' := by
  cases action with
  | run key => exact ⟨stage, m.run key⟩
  | fire => exact m.fire
  | returns call own => exact m.returns call own
  | throws call reason => exact m.throws call reason
  | settles call outcome => exact m.settles call outcome

theorem trace_matches (actions : Nat → Action Key V) (t : Nat) : ∃ stage, Matches (trace actions t) stage := by
  induction t with
  | zero => exact ⟨_, Matches.initial⟩
  | succ t ih =>
    obtain ⟨stage, m⟩ := ih
    exact m.step (actions t)

def Fair (actions : Nat → Action Key V) : Prop :=
  ∀ t, ∃ u, t ≤ u ∧ actions u = .fire

section Jobs

variable {actions : Nat → Action Key V} {t : Nat} {j : Job Pid (Callback Key) V} {rest : List (Job Pid (Callback Key) V)}

theorem step_jobs {action : Action Key V} (other : action ≠ .fire) : ∃ new, (step q action).loop.jobs = q.loop.jobs ++ new := by
  cases action with
  | fire => exact absurd rfl other
  | run key =>
    obtain ⟨first, start⟩ := q.loop.react_jobs ((q.tails key).getD .resolved) (startReaction q.calls.length)
    obtain ⟨second, tail⟩ := (q.loop.react ((q.tails key).getD .resolved) (startReaction q.calls.length)).react_jobs
      (.result q.calls.length) (tailReaction q.calls.length)
    obtain ⟨third, cleanup⟩ := ((q.loop.react ((q.tails key).getD .resolved) (startReaction q.calls.length)).react
      (.result q.calls.length) (tailReaction q.calls.length)).react_jobs (.tail q.calls.length)
      (cleanupReaction key q.calls.length)
    exact ⟨first ++ second ++ third, by simp only [step, run, start, tail, cleanup, List.append_assoc]⟩
  | returns call own =>
    simp only [step, returns]
    split
    · exact ⟨_, rfl⟩
    next outcome _ =>
      obtain ⟨new, queued⟩ := q.loop.settle_jobs (.own call) outcome
      exact ⟨new ++ [.adopt (.own call) (.result call)], by simp [Loop.resolveWith, queued]⟩
    · exact ⟨[], (List.append_nil _).symm⟩
  | throws call reason =>
    simp only [step, throws]
    split
    · exact q.loop.settle_jobs _ _
    · exact ⟨[], (List.append_nil _).symm⟩
  | settles call outcome =>
    simp only [step, settles]
    split
    · exact q.loop.settle_jobs _ _
    · exact ⟨[], (List.append_nil _).symm⟩

theorem fire_jobs (taken : q.loop.jobs = j :: rest) : ∃ new, (fire q).loop.jobs = rest ++ new := by
  unfold fire
  rw [taken]
  cases j with
  | adopt promise target => exact Loop.react_jobs { q.loop with jobs := rest } promise (Loop.link target)
  | react reaction outcome =>
    simp only []
    split
    · exact Loop.settle_jobs { q.loop with jobs := rest } _ _
    next c _ =>
      cases c with
      | task call => exact ⟨[], (List.append_nil _).symm⟩
      | ignore => exact Loop.settle_jobs { q.loop with jobs := rest } _ _
      | cleanup key call => exact Loop.settle_jobs { q.loop with jobs := rest } _ _

theorem trace_fire {u : Nat} (fires : actions u = .fire) : trace actions (u + 1) = fire (trace actions u) := by
  change step (trace actions u) (actions u) = _
  rw [fires]
  rfl

theorem next_fire (fair : Fair actions) (t : Nat) : ∃ u, t ≤ u ∧ actions u = .fire ∧
    ∃ new, (trace actions u).loop.jobs = (trace actions t).loop.jobs ++ new := by
  -- until the next job is run, jobs are only queued behind the ones that are there
  obtain ⟨m, later, fires⟩ := fair t
  obtain ⟨distance, rfl⟩ := Nat.exists_eq_add_of_le later
  clear later
  induction distance generalizing t with
  | zero => exact ⟨t, Nat.le_refl t, fires, [], (List.append_nil _).symm⟩
  | succ distance ih =>
    by_cases now : actions t = .fire
    · exact ⟨t, Nat.le_refl t, now, [], (List.append_nil _).symm⟩
    · obtain ⟨new, queued⟩ := step_jobs (q := trace actions t) now
      obtain ⟨u, after, runs, more, jobs⟩ := ih (t + 1) (by rwa [Nat.add_right_comm, Nat.add_assoc])
      refine ⟨u, Nat.le_of_succ_le after, runs, new ++ more, ?_⟩
      rw [jobs, ← List.append_assoc, ← queued]
      rfl

theorem eventually_head (fair : Fair actions) (queued : j ∈ (trace actions t).loop.jobs) :
    ∃ u, t ≤ u ∧ actions u = .fire ∧ ∃ rest, (trace actions u).loop.jobs = j :: rest := by
  obtain ⟨ahead, behind, jobs⟩ := List.append_of_mem queued
  clear queued
  induction ahead generalizing t behind with
  | nil =>
    obtain ⟨u, later, fires, new, still⟩ := next_fire fair t
    exact ⟨u, later, fires, behind ++ new, by rw [still, jobs]; rfl⟩
  | cons first ahead ih =>
    obtain ⟨u, later, fires, new, still⟩ := next_fire fair t
    have head : (trace actions u).loop.jobs = first :: (ahead ++ j :: (behind ++ new)) := by
      rw [still, jobs]
      simp only [List.append_assoc, List.cons_append]
    obtain ⟨more, left⟩ := fire_jobs head
    have shorter : (trace actions (u + 1)).loop.jobs = ahead ++ j :: (behind ++ new ++ more) := by
      rw [trace_fire fires, left]
      simp only [List.append_assoc, List.cons_append]
    obtain ⟨u', later', found⟩ := ih _ shorter
    exact ⟨u', Nat.le_trans (Nat.le_trans later (Nat.le_succ u)) later', found⟩

end Jobs

section Progress

variable {actions : Nat → Action Key V} {t u r p : Nat} {outcome : Outcome V}

theorem step_calls (action : Action Key V) : ∃ more, (step q action).calls = q.calls ++ more := by
  cases action with
  | run key => exact ⟨[key], rfl⟩
  | fire =>
    refine ⟨[], (List.append_nil q.calls).symm ▸ ?_⟩
    simp only [step, fire]
    split
    · rfl
    · rfl
    next reaction outcome rest _ =>
      split
      · rfl
      next c _ => cases c <;> rfl
  | returns call own =>
    refine ⟨[], (List.append_nil q.calls).symm ▸ ?_⟩
    simp only [step, returns]
    split <;> rfl
  | throws call reason =>
    refine ⟨[], (List.append_nil q.calls).symm ▸ ?_⟩
    simp only [step, throws]
    split <;> rfl
  | settles call outcome =>
    refine ⟨[], (List.append_nil q.calls).symm ▸ ?_⟩
    simp only [step, settles]
    split <;> rfl

theorem trace_calls (later : t ≤ u) : ∃ more, (trace actions u).calls = (trace actions t).calls ++ more := by
  induction later with
  | refl => exact ⟨[], (List.append_nil _).symm⟩
  | @step u _ ih =>
    obtain ⟨more, there⟩ := ih
    obtain ⟨new, called⟩ := step_calls (q := trace actions u) (actions u)
    exact ⟨more ++ new, by rw [← List.append_assoc, ← there]; exact called⟩

theorem Matches.step_settled (m : Matches q stage) (settled : q.tasks r = .settled outcome) (action : Action Key V) :
    (KeyedSerialQueue.step q action).tasks r = .settled outcome := by
  have kept : ∀ {call : Nat} {task : Task V}, call ≠ r → Function.update q.tasks call task r = .settled outcome :=
    fun other => (Function.update_of_ne (Ne.symm other) _ _).trans settled
  cases action with
  | run key => exact settled
  | fire =>
    change (KeyedSerialQueue.fire q).tasks r = _
    cases taken : q.loop.jobs with
    | nil =>
      unfold KeyedSerialQueue.fire
      rwa [taken]
    | cons j rest =>
      have awaits := m.sound j (taken ▸ List.mem_cons_self)
      generalize owner j = call at awaits
      cases awaits with
      | start _ ready =>
        rw [fire_start taken]
        refine kept ?_
        rintro rfl
        cases (m.tasks call).symm.trans settled |>.symm.trans (congrArg Stage.task ready.2.1)
      | adopt own at_ => rwa [fire_adopt taken]
      | deliver _ at_ => rwa [fire_link taken]
      | tail _ at_ => rwa [fire_tail taken]
      | cleanup key _ at_ named => rwa [fire_cleanup taken]
  | returns call own =>
    simp only [KeyedSerialQueue.step, KeyedSerialQueue.returns]
    split
    next executing => exact kept (by rintro rfl; cases executing.symm.trans settled)
    next executing => exact kept (by rintro rfl; cases executing.symm.trans settled)
    next => exact settled
  | throws call reason =>
    simp only [KeyedSerialQueue.step, KeyedSerialQueue.throws]
    split
    next executing => exact kept (by rintro rfl; cases executing.symm.trans settled)
    next => exact settled
  | settles call outcome' =>
    simp only [KeyedSerialQueue.step, KeyedSerialQueue.settles]
    split
    next pending => exact kept (by rintro rfl; cases pending.symm.trans settled)
    next => exact settled

theorem trace_settled (settled : (trace actions t).tasks r = .settled outcome) (later : t ≤ u) :
    (trace actions u).tasks r = .settled outcome := by
  induction later with
  | refl => exact settled
  | @step u _ ih =>
    obtain ⟨stage, m⟩ := trace_matches actions u
    exact m.step_settled ih (actions u)

omit [Inhabited V] in
theorem task_settled {x : Stage V} (settled : x.task = .settled outcome) : x = .returned (some outcome) ∨
    x = .adopting outcome ∨ x = .settled outcome ∨ x = .finished outcome ∨ x = .cleaned outcome := by
  cases x with
  | returned own => cases own <;> cases settled; exact .inl rfl
  | adopting _ => cases settled; exact .inr (.inl rfl)
  | settled _ => cases settled; exact .inr (.inr (.inl rfl))
  | finished _ => cases settled; exact .inr (.inr (.inr (.inl rfl)))
  | cleaned _ => cases settled; exact .inr (.inr (.inr (.inr rfl)))
  | _ => cases settled

theorem adopted (fair : Fair actions) (settled : (trace actions t).tasks r = .settled outcome)
    (queued : .adopt (.own r) (.result r) ∈ (trace actions t).loop.jobs) : ∃ u, t ≤ u ∧
    .react (Loop.link (.result r)) outcome ∈ (trace actions u).loop.jobs := by
  obtain ⟨u, later, fires, rest, head⟩ := eventually_head fair queued
  obtain ⟨stage, m⟩ := trace_matches actions u
  refine ⟨u + 1, Nat.le_succ_of_le later, ?_⟩
  have awaits := m.sound (.adopt (.own r) (.result r)) (head ▸ List.mem_cons_self)
  change Awaits _ _ r _ at awaits
  have own : (trace actions u).loop.heap (.own r) = .settled outcome := by
    have task := m.tasks r
    rw [trace_settled settled later] at task
    cases awaits with
    | adopt own at_ =>
      rw [at_] at task
      cases own <;> cases task
      exact m.own r _ (by rw [at_]; rfl)
  rw [trace_fire fires, fire_adopt head, Loop.react_settled (by exact own)]
  exact List.mem_append_right _ (List.mem_singleton_self _)

theorem delivered (fair : Fair actions) (queued : .react (Loop.link (.result r)) outcome ∈ (trace actions t).loop.jobs) :
    ∃ u, t ≤ u ∧ ∃ stage, Matches (trace actions u) stage ∧ stage r = .settled outcome := by
  obtain ⟨u, later, fires, rest, head⟩ := eventually_head fair queued
  obtain ⟨stage, m⟩ := trace_matches actions u
  have awaits := m.sound (.react (Loop.link (.result r)) outcome) (head ▸ List.mem_cons_self)
  change Awaits _ _ r _ at awaits
  have at_ : stage r = .adopting outcome := by
    cases awaits with
    | deliver _ at_ => exact at_
  have next := m.fire_delivered head at_
  rw [← trace_fire fires] at next
  exact ⟨u + 1, Nat.le_succ_of_le later, _, next, Function.update_self ..⟩

theorem Matches.its_job (m : Matches q stage) {j : Job Pid (Callback Key) V} (awaits : Awaits q.calls stage r j) :
    ∃ j' ∈ q.loop.jobs, Awaits q.calls stage r j' := by
  obtain ⟨j', queued, own⟩ := m.complete r j awaits
  have awaited := m.sound j' queued
  rw [own] at awaited
  exact ⟨j', queued, awaited⟩

theorem reaches_settled (fair : Fair actions) (settled : (trace actions t).tasks r = .settled outcome) :
    ∃ u, t ≤ u ∧ ∃ stage, Matches (trace actions u) stage ∧
      (stage r = .settled outcome ∨ stage r = .finished outcome ∨ stage r = .cleaned outcome) := by
  obtain ⟨stage, m⟩ := trace_matches actions t
  rcases task_settled ((m.tasks r).symm.trans settled) with at_ | at_ | at_
  · obtain ⟨j, queued, awaits⟩ := m.its_job (.adopt (some outcome) at_)
    have adoption : j = .adopt (.own r) (.result r) := by
      cases awaits with
      | adopt _ _ => rfl
      | start _ ready => cases at_.symm.trans ready.2.1
      | deliver _ other => cases at_.symm.trans other
      | tail _ other => cases at_.symm.trans other
      | cleanup _ _ other _ => cases at_.symm.trans other
    obtain ⟨u, later, delivery⟩ := adopted fair settled (adoption ▸ queued)
    obtain ⟨u', later', stage', m', at_'⟩ := delivered fair delivery
    exact ⟨u', Nat.le_trans later later', stage', m', .inl at_'⟩
  · obtain ⟨j, queued, awaits⟩ := m.its_job (.deliver outcome at_)
    have delivery : j = .react (Loop.link (.result r)) outcome := by
      cases awaits with
      | adopt _ other => cases at_.symm.trans other
      | start _ ready => cases at_.symm.trans ready.2.1
      | deliver _ other => cases at_.symm.trans other; rfl
      | tail _ other => cases at_.symm.trans other
      | cleanup _ _ other _ => cases at_.symm.trans other
    obtain ⟨u', later', stage', m', at_'⟩ := delivered fair (delivery ▸ queued)
    exact ⟨u', later', stage', m', .inl at_'⟩
  · exact ⟨t, Nat.le_refl t, stage, m, at_⟩

theorem reaches_result (fair : Fair actions) (settled : (trace actions t).tasks r = .settled outcome) :
    ∃ u, t ≤ u ∧ (trace actions u).loop.heap (.result r) = .settled outcome := by
  obtain ⟨u, later, stage, m, at_⟩ := reaches_settled fair settled
  refine ⟨u, later, m.resultSettled r outcome ?_⟩
  rcases at_ with at_ | at_ | at_ <;> rw [at_] <;> rfl

theorem reaches_tail (fair : Fair actions) (settled : (trace actions t).tasks r = .settled outcome) :
    ∃ u, t ≤ u ∧ ∃ stage, Matches (trace actions u) stage ∧ (stage r).tail ≠ none := by
  obtain ⟨u, later, stage, m, at_⟩ := reaches_settled fair settled
  rcases at_ with at_ | at_ | at_
  · obtain ⟨j, queued, awaits⟩ := m.its_job (.tail outcome at_)
    have tail : j = .react (tailReaction r) outcome := by
      cases awaits with
      | adopt _ other => cases at_.symm.trans other
      | start _ ready => cases at_.symm.trans ready.2.1
      | deliver _ other => cases at_.symm.trans other
      | tail _ other => cases at_.symm.trans other; rfl
      | cleanup _ _ other _ => cases at_.symm.trans other
    subst tail
    obtain ⟨u', later', fires, rest, head⟩ := eventually_head fair queued
    obtain ⟨stage', m'⟩ := trace_matches actions u'
    have awaits' := m'.sound (.react (tailReaction r) outcome) (head ▸ List.mem_cons_self)
    change Awaits _ _ r _ at awaits'
    have at' : stage' r = .settled outcome := by
      cases awaits' with
      | tail _ at' => exact at'
    have next := m'.fire_finished head at'
    rw [← trace_fire fires] at next
    refine ⟨u' + 1, Nat.le_succ_of_le (Nat.le_trans later later'), _, next, ?_⟩
    rw [Function.update_self]
    simp [Stage.tail]
  · exact ⟨u, later, stage, m, by simp [at_, Stage.tail]⟩
  · exact ⟨u, later, stage, m, by simp [at_, Stage.tail]⟩

theorem ready_starts (fair : Fair actions) (m : Matches (trace actions t) stage)
    (ready : Ready (trace actions t).calls stage r) : ∃ u, t ≤ u ∧ (trace actions u).tasks r = .executing := by
  obtain ⟨j, queued, awaits⟩ := m.its_job (.start (.fulfilled default) ready)
  have start : ∃ outcome, j = .react (startReaction r) outcome := by
    have at_ := ready.2.1
    cases awaits with
    | start outcome _ => exact ⟨outcome, rfl⟩
    | adopt _ other => cases at_.symm.trans other
    | deliver _ other => cases at_.symm.trans other
    | tail _ other => cases at_.symm.trans other
    | cleanup _ _ other _ => cases at_.symm.trans other
  obtain ⟨outcome, rfl⟩ := start
  obtain ⟨u, later, fires, rest, head⟩ := eventually_head fair queued
  refine ⟨u + 1, Nat.le_succ_of_le later, ?_⟩
  rw [trace_fire fires, fire_start head]
  exact Function.update_self ..

theorem reaches_start (fair : Fair actions) (called : r < (trace actions t).calls.length)
    (settled : ∀ p, Before (trace actions t).calls p r → ∃ outcome, (trace actions t).tasks p = .settled outcome) :
    ∃ u, t ≤ u ∧ (trace actions u).tasks r ≠ .waiting := by
  -- the time at which the call before is done, if there is one
  have opened : ∃ u, t ≤ u ∧ ∃ stage, Matches (trace actions u) stage ∧
      ∀ p, Before (trace actions u).calls p r → (stage p).tail ≠ none := by
    by_cases follows : ∃ p, Before (trace actions t).calls p r
    · obtain ⟨p, before⟩ := follows
      obtain ⟨outcome, ended⟩ := settled p before
      obtain ⟨u, later, stage, m, done⟩ := reaches_tail fair ended
      obtain ⟨more, calls⟩ := @trace_calls _ _ _ _ actions _ _ later
      refine ⟨u, later, stage, m, fun p' before' => ?_⟩
      rw [calls, before_append called] at before'
      rwa [before_unique before' before]
    · obtain ⟨stage, m⟩ := trace_matches actions t
      exact ⟨t, Nat.le_refl t, stage, m, fun p before => absurd ⟨p, before⟩ follows⟩
  obtain ⟨u, later, stage, m, done⟩ := opened
  by_cases idle : stage r = .idle
  · obtain ⟨more, calls⟩ := @trace_calls _ _ _ _ actions _ _ later
    have inside : r < (trace actions u).calls.length := by
      rw [calls, List.length_append]
      omega
    obtain ⟨u', later', executing⟩ := ready_starts fair m ⟨inside, idle, done⟩
    exact ⟨u', Nat.le_trans later later', by simp [executing]⟩
  · refine ⟨u, later, ?_⟩
    rw [m.tasks]
    cases at_ : stage r with
    | idle => exact absurd at_ idle
    | returned own => cases own <;> simp [Stage.task]
    | _ => simp [Stage.task]

end Progress

end Traces

section Sequencer

variable {stage : Nat → Stage V} {q : Queue Key V} {r r' p : Nat} {key : Key}

def Running (q : Queue Key V) (r : Nat) : Prop :=
  -- the task has been called, and what it returns has not settled
  q.tasks r = .executing ∨ q.tasks r = .pending

def Settled (q : Queue Key V) (r : Nat) : Prop :=
  ∃ outcome, q.tasks r = .settled outcome

theorem settled_of_tail {x : Stage V} (done : x.tail ≠ none) : ∃ outcome, x.task = .settled outcome := by
  cases x with
  | finished outcome => exact ⟨outcome, rfl⟩
  | cleaned outcome => exact ⟨outcome, rfl⟩
  | _ => exact absurd rfl done

theorem Matches.predecessors (m : Matches q stage) (earlier : p < r) (same : q.calls[p]? = q.calls[r]?)
    (busy : stage r ≠ .idle) : (stage p).tail ≠ none := by
  -- a call that has started comes after every earlier one of its key is done
  induction distance : r - p using Nat.strongRecOn generalizing p r with
  | _ distance ih =>
    by_cases between : ∃ a, p < a ∧ a < r ∧ q.calls[a]? = q.calls[r]?
    · obtain ⟨a, after, before, key⟩ := between
      have done := ih (r - a) (by omega) before key busy rfl
      refine ih (a - p) (by omega) after (same.trans key.symm) ?_ rfl
      intro idle
      exact done (by rw [idle]; rfl)
    · refine m.order p r ⟨earlier, m.inside busy, same, fun a before after key => between ⟨a, after, before, key⟩⟩ busy

theorem Matches.in_order (m : Matches q stage) (earlier : p < r) (same : q.calls[p]? = q.calls[r]?)
    (started : q.tasks r ≠ .waiting) : Settled q p := by
  have busy : stage r ≠ .idle := by
    intro idle
    rw [m.tasks, idle] at started
    exact started rfl
  obtain ⟨outcome, settled⟩ := settled_of_tail (m.predecessors earlier same busy)
  exact ⟨outcome, (m.tasks p).trans settled⟩

omit [DecidableEq Key] [Inhabited V] in
theorem Running.started (running : Running q r) : q.tasks r ≠ .waiting := by
  rcases running with executing | pending
  · simp [executing]
  · simp [pending]

omit [DecidableEq Key] [Inhabited V] in
theorem Running.not_settled (running : Running q r) : ¬ Settled q r := by
  rintro ⟨outcome, settled⟩
  rcases running with executing | pending
  · cases executing.symm.trans settled
  · cases pending.symm.trans settled

theorem Matches.one_running (m : Matches q stage) (same : q.calls[r]? = q.calls[r']?) (first : Running q r)
    (second : Running q r') : r = r' := by
  rcases Nat.lt_trichotomy r r' with less | equal | greater
  · exact absurd (m.in_order less same second.started) first.not_settled
  · exact equal
  · exact absurd (m.in_order greater same.symm first.started) second.not_settled

theorem Matches.own_outcome (m : Matches q stage) {outcome : Outcome V} (settled : q.loop.heap (.result r) = .settled outcome) :
    q.tasks r = .settled outcome := by
  -- the promise that the caller has got settles with what its own task settled with
  cases pending : (stage r).result with
  | none => cases (m.resultPending r pending).symm.trans settled
  | some outcome' =>
    cases (m.resultSettled r outcome' pending).symm.trans settled
    rw [m.tasks]
    cases at_ : stage r with
    | settled _ => rw [at_] at pending; cases pending; rfl
    | finished _ => rw [at_] at pending; cases pending; rfl
    | cleaned _ => rw [at_] at pending; cases pending; rfl
    | _ => rw [at_] at pending; cases pending

omit [DecidableEq Key] in
theorem exists_last {calls : List Key} (called : calls[r]? = some key) : ∃ c, r ≤ c ∧ Last calls key c := by
  induction distance : calls.length - r using Nat.strongRecOn generalizing r with
  | _ distance ih =>
    by_cases later : ∃ a, r < a ∧ calls[a]? = some key
    · obtain ⟨a, after, named⟩ := later
      obtain ⟨inside, -⟩ := List.getElem?_eq_some_iff.mp named
      obtain ⟨c, least, last⟩ := ih (calls.length - a) (by omega) named rfl
      exact ⟨c, by omega, last⟩
    · exact ⟨r, Nat.le_refl r, called, fun a after named => later ⟨a, after, named⟩⟩

theorem Matches.entered (m : Matches q stage) (called : q.calls[r]? = some key) (unsettled : ¬ Settled q r) :
    q.tails key ≠ none := by
  obtain ⟨c, least, last⟩ := exists_last called
  have open_ : ¬ (stage c).Cleaned := by
    intro cleaned
    have done : (stage c).tail ≠ none := by
      cases at_ : stage c with
      | cleaned outcome => simp [Stage.tail]
      | _ => rw [at_] at cleaned; cases cleaned
    rcases Nat.eq_or_lt_of_le least with same | later
    · subst same
      obtain ⟨outcome, settled⟩ := settled_of_tail done
      exact unsettled ⟨outcome, (m.tasks r).trans settled⟩
    · refine unsettled (m.in_order later (called.trans last.1.symm) ?_)
      obtain ⟨outcome, settled⟩ := settled_of_tail done
      rw [m.tasks, settled]
      simp
  rw [(m.entry key (.tail c)).mpr ⟨c, rfl, last, open_⟩]
  simp

theorem Matches.left (m : Matches q stage) (settled : ∀ r, q.calls[r]? = some key → Settled q r)
    (idle : ∀ j ∈ q.loop.jobs, q.calls[owner j]? ≠ some key) : q.tails key = none := by
  cases found : q.tails key with
  | none => rfl
  | some i =>
    obtain ⟨c, rfl, last, open_⟩ := (m.entry key i).mp found
    -- a call that has settled and is not cleaned up has a job left
    have awaits : ∃ j, Awaits q.calls stage c j := by
      obtain ⟨outcome, task⟩ := settled c last.1
      rcases task_settled ((m.tasks c).symm.trans task) with at_ | at_ | at_ | at_ | at_
      · exact ⟨_, .adopt _ at_⟩
      · exact ⟨_, .deliver _ at_⟩
      · exact ⟨_, .tail _ at_⟩
      · exact ⟨_, .cleanup key _ at_ last.1⟩
      · exact absurd (by rw [at_]; trivial) open_
    obtain ⟨j, awaits⟩ := awaits
    obtain ⟨j', queued, own⟩ := m.complete c j awaits
    exact absurd (own ▸ last.1) (idle j' queued)

def Touches (q : Queue Key V) (key : Key) : Action Key V → Prop
  | .run key' => key' = key
  | .fire => ∃ j ∈ q.loop.jobs.head?, q.calls[owner j]? = some key
  | .returns call _ | .throws call _ | .settles call _ => q.calls[call]? = some key

structure Untouched (q q' : Queue Key V) (key : Key) : Prop where
  -- nothing of the key has changed
  tails : q'.tails key = q.tails key
  tasks : ∀ r, q.calls[r]? = some key → q'.tasks r = q.tasks r
  results : ∀ r, q.calls[r]? = some key → q'.loop.heap (.result r) = q.loop.heap (.result r)
  jobs : ∀ j ∈ q.loop.jobs, q.calls[owner j]? = some key → j ∈ q'.loop.jobs

omit [DecidableEq Key] [Inhabited V] in
theorem react_heap_of_ne {l : Loop Pid (Callback Key) V} {i i' : Pid} {reaction : Reaction Pid (Callback Key)} (other : i' ≠ i) :
    (l.react i reaction).heap i' = l.heap i' := by
  unfold Loop.react
  split
  · exact Function.update_of_ne other _ _
  · rfl

theorem Matches.untouched (m : Matches q stage) {action : Action Key V} (other : ¬ Touches q key action) :
    Untouched q (KeyedSerialQueue.step q action) key := by
  have queued : action ≠ .fire → ∀ j ∈ q.loop.jobs, q.calls[owner j]? = some key →
      j ∈ (KeyedSerialQueue.step q action).loop.jobs := by
    intro goes j there _
    obtain ⟨new, jobs⟩ := step_jobs (q := q) goes
    rw [jobs]
    exact List.mem_append_left _ there
  cases action with
  | run key' =>
    refine ⟨Function.update_of_ne (Ne.symm other) _ _, fun r _ => rfl, fun r called => ?_, queued (by simp)⟩
    obtain ⟨inside, -⟩ := List.getElem?_eq_some_iff.mp called
    have old : Pid.result r ≠ .result q.calls.length := by simpa using Nat.ne_of_lt inside
    have chained : Pid.result r ≠ (q.tails key').getD .resolved := by
      cases found : q.tails key' with
      | none => simp
      | some i =>
        obtain ⟨p, rfl, -⟩ := (m.entry key' i).mp found
        simp
    change ((Loop.react _ _ _).react _ _).heap _ = _
    rw [react_heap_of_ne (by simp), react_heap_of_ne old, react_heap_of_ne chained]
  | fire =>
    change Untouched q (KeyedSerialQueue.fire q) key
    cases taken : q.loop.jobs with
    | nil =>
      have still : KeyedSerialQueue.fire q = q := by
        unfold KeyedSerialQueue.fire
        rw [taken]
      rw [still]
      exact ⟨rfl, fun _ _ => rfl, fun _ _ => rfl, fun _ there _ => there⟩
    | cons j rest =>
      have apart : ∀ r, q.calls[r]? = some key → owner j ≠ r := by
        rintro r called rfl
        exact other ⟨j, by simp [taken], called⟩
      have jobs : ∀ j' ∈ q.loop.jobs, q.calls[owner j']? = some key → j' ∈ (KeyedSerialQueue.fire q).loop.jobs := by
        intro j' there called
        obtain ⟨new, left⟩ := fire_jobs taken
        rw [taken, List.mem_cons] at there
        rcases there with rfl | there
        · exact absurd rfl (apart _ called)
        · rw [left]
          exact List.mem_append_left _ there
      have awaits := m.sound j (taken ▸ List.mem_cons_self)
      generalize owner j = c at awaits apart
      cases awaits with
      | start outcome ready =>
        rw [fire_start taken] at jobs ⊢
        exact ⟨rfl, fun r called => Function.update_of_ne (Ne.symm (apart r called)) _ _, fun r _ => rfl, jobs⟩
      | adopt own at_ =>
        rw [fire_adopt taken] at jobs ⊢
        exact ⟨rfl, fun r _ => rfl, fun r _ => react_heap_of_ne (by simp), jobs⟩
      | deliver outcome at_ =>
        rw [fire_link taken] at jobs ⊢
        exact ⟨rfl, fun r _ => rfl, fun r called => Loop.settle_heap_of_ne (by simpa using Ne.symm (apart r called)), jobs⟩
      | tail outcome at_ =>
        rw [fire_tail taken] at jobs ⊢
        exact ⟨rfl, fun r _ => rfl, fun r _ => Loop.settle_heap_of_ne (by simp), jobs⟩
      | cleanup key' outcome at_ named =>
        rw [fire_cleanup taken] at jobs ⊢
        refine ⟨?_, fun r _ => rfl, fun r _ => Loop.settle_heap_of_ne (by simp), jobs⟩
        have different : key ≠ key' := by
          rintro rfl
          exact apart _ named rfl
        change (if q.tails key' = some (.tail c) then Function.update q.tails key' none else q.tails) key = q.tails key
        split
        · exact Function.update_of_ne different _ _
        · rfl
  | returns call own =>
    have apart : ∀ r, q.calls[r]? = some key → r ≠ call := by
      rintro r called rfl
      exact other called
    refine ⟨?_, fun r called => ?_, fun r _ => ?_, queued (by simp)⟩
    all_goals
      simp only [KeyedSerialQueue.step, KeyedSerialQueue.returns]
      split
    any_goals rfl
    · exact Function.update_of_ne (apart r called) _ _
    · exact Function.update_of_ne (apart r called) _ _
    · exact Loop.settle_heap_of_ne (by simp)
  | throws call reason =>
    have apart : ∀ r, q.calls[r]? = some key → r ≠ call := by
      rintro r called rfl
      exact other called
    refine ⟨?_, fun r called => ?_, fun r called => ?_, queued (by simp)⟩
    all_goals
      simp only [KeyedSerialQueue.step, KeyedSerialQueue.throws]
      split
    any_goals rfl
    · exact Function.update_of_ne (apart r called) _ _
    · exact Loop.settle_heap_of_ne (by simpa using apart r called)
  | settles call outcome =>
    have apart : ∀ r, q.calls[r]? = some key → r ≠ call := by
      rintro r called rfl
      exact other called
    refine ⟨?_, fun r called => ?_, fun r _ => ?_, queued (by simp)⟩
    all_goals
      simp only [KeyedSerialQueue.step, KeyedSerialQueue.settles]
      split
    any_goals rfl
    · exact Function.update_of_ne (apart r called) _ _
    · exact Loop.settle_heap_of_ne (by simp)

/-- Calls of `run`, tasks and the event loop in any order. What a call waits for is of its own key, whatever the tasks of the
other keys do. -/
theorem run_sequences (actions : Nat → Action Key V) (t : Nat) :
    (∀ r r', (trace actions t).calls[r]? = (trace actions t).calls[r']? → Running (trace actions t) r →
      Running (trace actions t) r' → r = r') ∧
    (∀ p r, p < r → (trace actions t).calls[p]? = (trace actions t).calls[r]? → (trace actions t).tasks r ≠ .waiting →
      Settled (trace actions t) p) ∧
    (∀ r outcome, (trace actions t).loop.heap (.result r) = .settled outcome →
      (trace actions t).tasks r = .settled outcome) ∧
    (∀ key r, (trace actions t).calls[r]? = some key → ¬ Settled (trace actions t) r →
      (trace actions t).tails key ≠ none) ∧
    (∀ key, (∀ r, (trace actions t).calls[r]? = some key → Settled (trace actions t) r) →
      (∀ j ∈ (trace actions t).loop.jobs, (trace actions t).calls[owner j]? ≠ some key) →
      (trace actions t).tails key = none) ∧
    (∀ key, ¬ Touches (trace actions t) key (actions t) → Untouched (trace actions t) (trace actions (t + 1)) key) ∧
    (Fair actions →
      (∀ r, r < (trace actions t).calls.length →
        (∀ p, p < r → (trace actions t).calls[p]? = (trace actions t).calls[r]? → Settled (trace actions t) p) →
        ∃ u, t ≤ u ∧ (trace actions u).tasks r ≠ .waiting) ∧
      ∀ r outcome, (trace actions t).tasks r = .settled outcome →
        ∃ u, t ≤ u ∧ (trace actions u).loop.heap (.result r) = .settled outcome) := by
  obtain ⟨stage, m⟩ := trace_matches actions t
  refine ⟨fun r r' => m.one_running, fun p r => m.in_order, fun r outcome => m.own_outcome, fun key r => m.entered,
    fun key => m.left,
    fun key => m.untouched, fun fair => ⟨fun r called settled => ?_, fun r outcome => reaches_result fair⟩⟩
  exact reaches_start fair called fun p before => settled p before.1 before.2.2.1

-- the first task of a key throws while the second one waits, and the clean-up of the first leaves the tail of the second
example :
    let q : Queue Nat Nat := [.run 0, .run 0, .run 1, .fire, .fire, .throws 0 7, .fire, .fire, .fire].foldl step initial
    q.tasks 0 = .settled (.rejected 7) ∧ q.tasks 1 = .executing ∧ q.tasks 2 = .executing ∧ q.tails 0 = some (.tail 1) := by
  decide +kernel

end Sequencer

end VerdictVaut.KeyedSerialQueue

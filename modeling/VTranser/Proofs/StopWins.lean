import VTranser.Proofs.Offscreen

/-!
# When a stop wins

`stopAll` gives back what the globals hold when it comes to it, and `start` goes
on taking without a look at what happened while it waited. So a stop wins only
when no `start` is between its call and its socket.

If every stop and every start is called at such a time, the document is in one
of three states. A start is taking resources, and no `stopAll` waits but its own
(`Acquiring`); or the last start has its socket, and none waits at all
(`Serving`); or stops are on their way (`Stopping`).
-/

namespace VTranser.Offscreen

open Run Tasks

/-! ## The three states -/

/-- A message, or a start that nothing but its socket can wake. -/
def Task.Parked (promises : List (Nat × Bool)) : Task → Prop
  | .message _ => True
  | .start n _ wait => wait = .socket ∧ promises.lookup n = none
  | .stop .. => False

/-- The call takes resources or is about to send `running`. -/
def Task.Takes (promises : List (Nat × Bool)) : Task → Prop
  | .message _ => False
  | .start n _ wait => wait = .socket → promises.lookup n = some true
  | .stop _ _ _ next => ∃ n p, next = .start n p

/-- What a task can be while stops are on their way. -/
def Task.Stays (st : State) : Task → Prop
  | .message _ => True
  | .start n _ wait => wait = .socket ∧ st.promises.lookup n ≠ some true
  | .stop _ _ wait next => (∀ n p, next ≠ .start n p) ∧ st.Level wait

/-- What a task can be when the `n`-th start has its socket. -/
def Task.Serves (n : Nat) (promises : List (Nat × Bool)) : Task → Prop
  | .message _ => True
  | .start m _ wait => wait = .socket ∧ (m ≠ n → promises.lookup m = none)
  | .stop .. => False

namespace State

/-- Stops are on their way, or all is given back. -/
structure Stopping (st : State) : Prop where
  held : Held st
  closed : st.ws = none
  tasks : ∀ task ∈ st.tasks, task.Stays st
  done : (∃ task ∈ st.tasks, task.IsStop) ∨ Released st ∧ LastStopped st.sent

structure Acquiring (st : State) : Prop where
  held : Held st
  closed : st.ws = none
  asked : st.stopAsked = false
  tasks : ∀ task ∈ st.tasks, task.Parked st.promises ∨ task.Acquires st
  one : AllButOne (Task.Parked st.promises) st.tasks

structure Serving (n : Nat) (st : State) : Prop where
  held : Held st
  current : ∀ k ∈ st.ws, k = n
  asked : st.stopAsked = false
  tasks : ∀ task ∈ st.tasks, task.Serves n st.promises

def Sound (st : State) : Prop := Stopping st ∨ Acquiring st ∨ ∃ n, Serving n st

/-! ## Small steps -/

variable {st st' : State}

theorem Shrinks.tasks (tasks : List Task) : Shrinks st { st with tasks := tasks } :=
  ⟨rfl, id, id, id, id⟩

section

variable {task : Task}

theorem Stays_of_parked (h : task.Parked st.promises) : task.Stays st := by
  cases task with
  | message => trivial
  | start n p w =>
      refine ⟨h.1, ?_⟩
      rw [h.2]
      exact nofun
  | stop => cases h

theorem Stays_mono (hsh : Shrinks st st') (h : task.Stays st) : task.Stays st' := by
  cases task with
  | message => trivial
  | start n p w =>
      refine ⟨h.1, ?_⟩
      rw [hsh.promises]
      exact h.2
  | stop b reason w next => exact ⟨h.1, h.2.mono hsh⟩

theorem Acquires_mono (hsh : Shrinks st st') (h : task.Acquires st) : task.Acquires st' := by
  cases task with
  | message => exact h
  | start n p w =>
      cases w with
      | media => exact hsh.released h
      | recorder => exact hsh.contexts h
      | resume | addModule | closeWs | socket => exact h
  | stop b reason w next =>
      cases next with
      | start n p => exact Level.mono hsh h
      | done | wsFail => exact h

theorem not_parked_of_acquires (h : task.Acquires st) : ¬ task.Parked st.promises := by
  intro hp
  cases task with
  | message => exact h
  | start n p w =>
      obtain ⟨rfl, -⟩ := hp
      exact h
  | stop => exact hp

theorem takes_of_acquires (h : task.Acquires st) : task.Takes st.promises := by
  cases task with
  | message => exact h
  | start n p w =>
      intro hw
      rw [hw] at h
      exact h.elim
  | stop b reason w next =>
      cases next with
      | start n p => exact ⟨n, p, rfl⟩
      | done | wsFail => exact h.elim

/-- Without a start that takes resources a serving document can only stop. -/
theorem Serving.stays {n : Nat} (hs : Serving n st) (htask : task ∈ st.tasks)
    (hno : ¬ task.Takes st.promises) : task.Stays st := by
  have h := hs.tasks task htask
  cases task with
  | message => trivial
  | start m p w => exact ⟨h.1, fun hm => hno fun _ => hm⟩
  | stop => cases h

end

/-! ## Stops -/

section

variable {i : Nat} {task : Task} {next : Option Task}

/-- A call has gone on, and stops are on their way or all is given back. -/
theorem stopping_goOn (hh : Held st') (hws : st'.ws = none) (hi : st.tasks[i]? = some task)
    (htasks : st'.tasks = st.tasks) (hrest : ∀ t ∈ st.tasks.eraseIdx i, t.Stays st')
    (hnext : ∀ t ∈ next, t.Stays st')
    (hdone : (∃ t ∈ goOn st.tasks i next, t.IsStop) ∨ Released st' ∧ LastStopped st'.sent) :
    Stopping { st' with tasks := goOn st'.tasks i next } := by
  rw [htasks]
  refine ⟨{ hh with }, hws, fun t ht => Stays_mono (.tasks _) ?_, ?_⟩
  · rcases mem_goOn_erase hi ht with ht | ht
    · exact hnext t ht
    · exact hrest t ht
  · rcases hdone with hstop | ⟨hr, hlast⟩
    · exact .inl hstop
    · exact .inr ⟨{ hr with }, hlast⟩

/-- A call has gone on to stop everything. -/
theorem stopping_stopAll (hh : Held st') (hi : st.tasks[i]? = some task)
    (htasks : st'.tasks = st.tasks) (hrest : ∀ t ∈ st.tasks.eraseIdx i, t.Stays st')
    (reason : Reason) {after : Next} (hafter : ∀ n p, after ≠ .start n p) :
    Stopping { (st'.stopAll reason after).1 with
      tasks := goOn (st'.stopAll reason after).1.tasks i (some (st'.stopAll reason after).2) } := by
  refine stopping_goOn (hh.stopAll reason after) rfl hi htasks ?_ ?_ (.inl ?_)
  · exact fun t ht => Stays_mono (.stopAll reason after) (hrest t ht)
  · rintro _ ⟨⟩
    exact ⟨hafter, trivial⟩
  · exact ⟨_, mem_goOn_next hi, trivial⟩

/-- A stop is called from outside. -/
theorem stopping_called (hh : Held st) (htasks : ∀ task ∈ st.tasks, task.Stays st)
    (reason : Reason) (asked : Bool) :
    Stopping { (st.stopAll reason .done).1 with
      tasks := st.tasks ++ [(st.stopAll reason .done).2], stopAsked := asked } := by
  have hsh : Shrinks st (st.stopAll reason .done).1 := .stopAll _ _
  refine ⟨{ hh.stopAll reason .done with }, rfl, fun task htask => ?_, .inl ?_⟩
  · rcases List.mem_append.mp htask with h | h
    · exact Stays_mono { hsh with } (htasks task h)
    · rw [List.mem_singleton.mp h]
      exact ⟨nofun, trivial⟩
  · exact ⟨_, List.mem_append_right _ (List.mem_singleton_self _), trivial⟩

end

/-! ## Each state goes on -/

section

variable {i : Nat} {task : Task} {next : Option Task}

/-- The one call that takes resources has gone on to take the next. -/
theorem Acquiring.goOn (ha : Acquiring st) (hi : st.tasks[i]? = some task)
    (hnot : ¬ task.Parked st.promises) {task' : Task} (hsame : SameCalls st st')
    (hpromises : st'.promises = st.promises) (hh : Held st') (hws : st'.ws = none)
    (hacq : task'.Acquires st') :
    Acquiring { st' with tasks := goOn st'.tasks i (some task') } := by
  rw [hsame.tasks]
  refine ⟨{ hh with }, hws, hsame.asked.trans ha.asked,
    fun t (ht : t ∈ Tasks.goOn st.tasks i (some task')) => ?_, ?_⟩
  · rcases mem_goOn_erase hi ht with ht | ht
    · injection ht with ht
      rw [← ht]
      exact .inr (Acquires_mono (.tasks _) hacq)
    · left
      show t.Parked st'.promises
      rw [hpromises]
      exact ha.one.rest hi hnot t ht
  · show AllButOne (Task.Parked st'.promises) (Tasks.goOn st.tasks i (some task'))
    rw [hpromises]
    exact ha.one.goOn hi fun hp => absurd hp hnot

/-- The one call that takes resources has gone on to stop everything. -/
theorem Acquiring.stopAll (ha : Acquiring st) (hi : st.tasks[i]? = some task)
    (hnot : ¬ task.Parked st.promises) (hsame : SameCalls st st')
    (hpromises : st'.promises = st.promises) (hh : Held st') (reason : Reason) {after : Next}
    (hafter : ∀ n p, after ≠ .start n p) :
    Stopping { (st'.stopAll reason after).1 with
      tasks := Tasks.goOn (st'.stopAll reason after).1.tasks i
        (some (st'.stopAll reason after).2) } := by
  refine stopping_stopAll hh hi hsame.tasks (fun t ht => Stays_of_parked ?_) reason hafter
  rw [hpromises]
  exact ha.one.rest hi hnot t ht

/-- It has a socket now. -/
theorem Acquiring.serving (ha : Acquiring st) (hi : st.tasks[i]? = some task)
    (hnot : ¬ task.Parked st.promises) {n : Nat} {p : Payload} (hsame : SameCalls st st')
    (hpromises : st'.promises = st.promises) (hh : Held st') (hcur : ∀ k ∈ st'.ws, k = n) :
    Serving n { st' with tasks := Tasks.goOn st'.tasks i (some (.start n p .socket)) } := by
  rw [hsame.tasks]
  refine ⟨{ hh with }, hcur, hsame.asked.trans ha.asked,
    fun t (ht : t ∈ Tasks.goOn st.tasks i (some (.start n p .socket))) => ?_⟩
  show t.Serves n st'.promises
  rw [hpromises]
  rcases mem_goOn_erase hi ht with ht | ht
  · injection ht with ht
    rw [← ht]
    exact ⟨rfl, fun hne => absurd rfl hne⟩
  · have hp := ha.one.rest hi hnot t ht
    cases t with
    | message => trivial
    | start m p w => exact ⟨hp.1, fun _ => hp.2⟩
    | stop => exact hp

theorem Acquiring.startStep (ha : Acquiring st) (hi : st.tasks[i]? = some task)
    (hnot : ¬ task.Parked st.promises) {n : Nat} {p : Payload} {res : State × Option Task}
    (hsame : SameCalls st res.1) (hstep : StartStep st.promises n p res) :
    Sound { res.1 with tasks := Tasks.goOn res.1.tasks i res.2 } := by
  cases hstep with
  | takes hp hh hws hacq => exact .inr (.inl (ha.goOn hi hnot hsame hp hh hws hacq))
  | @fails st₁ hp hh reason after hafter =>
      have hsame₁ : SameCalls st st₁ := ⟨hsame.tasks, hsame.asked, hsame.starts⟩
      exact .inl (ha.stopAll hi hnot hsame₁ hp hh reason hafter)
  | connects hp hh hcur => exact .inr (.inr ⟨n, ha.serving hi hnot hsame hp hh hcur⟩)

theorem Acquiring.stopStep (ha : Acquiring st) (hi : st.tasks[i]? = some task)
    (hnot : ¬ task.Parked st.promises) {began n : Nat} {p : Payload} {reason : Reason}
    {res : State × Option Task} (hsame : SameCalls st res.1)
    (hstep : StopStep st began reason (.start n p) res) :
    Sound { res.1 with tasks := Tasks.goOn res.1.tasks i res.2 } := by
  cases hstep with
  | waits hsh hh hws hl => exact .inr (.inl (ha.goOn hi hnot hsame hsh.promises hh hws hl))
  | ends hsh hh hws hr hlast =>
      refine ha.startStep hi hnot hsame (n := n) (p := p) ?_
      rw [← hsh.promises]
      exact getMedia_spec hh hws hr n p

theorem Acquiring.resume (ha : Acquiring st) {r : Reply} {res : State × Option Task}
    (hi : st.tasks[i]? = some task) (hm : ∀ m, task ≠ .message m)
    (hres : st.resume r task = some res) :
    Sound { res.1 with tasks := Tasks.goOn res.1.tasks i res.2 } := by
  have hmem : task ∈ st.tasks := List.mem_of_getElem? hi
  cases task with
  | message m => exact absurd rfl (hm m)
  | start n p w =>
      have hsame : SameCalls st res.1 := .resumeStart hres
      rcases ha.tasks _ hmem with hpark | hacq
      · obtain ⟨rfl, hnone⟩ := hpark
        simp only [State.resume, resumeStart, hnone] at hres
        cases hres
      · exact ha.startStep hi (not_parked_of_acquires hacq) hsame
          (resumeStart_spec ha.held ha.closed hacq hres)
  | stop began reason w after =>
      injection hres with hres
      have hsame : SameCalls st (st.resumeStop began reason after r w).1 := .resumeStop ..
      rw [← hres]
      rcases ha.tasks _ hmem with hpark | hacq
      · cases hpark
      · have hnot := not_parked_of_acquires hacq
        cases after with
        | start n p =>
            exact ha.stopStep hi hnot hsame (resumeStop_spec ha.held ha.closed hacq began reason _ r)
        | done | wsFail => exact hacq.elim

theorem Stopping.stopStep (hs : Stopping st) (hi : st.tasks[i]? = some task) {began : Nat}
    {reason : Reason} {after : Next} (hafter : ∀ n p, after ≠ .start n p)
    {res : State × Option Task} (hsame : SameCalls st res.1)
    (hstep : StopStep st began reason after res) :
    Stopping { res.1 with tasks := Tasks.goOn res.1.tasks i res.2 } := by
  have hrest : ∀ t ∈ st.tasks.eraseIdx i, t.Stays st :=
    fun t ht => hs.tasks t (List.mem_of_mem_eraseIdx ht)
  cases hstep with
  | waits hsh hh hws hl =>
      refine stopping_goOn hh hws hi hsame.tasks (fun t ht => Stays_mono hsh (hrest t ht)) ?_
        (.inl ⟨_, mem_goOn_next hi, trivial⟩)
      rintro _ ⟨⟩
      exact ⟨hafter, hl⟩
  | @ends st₁ hsh hh hws hr hlast =>
      have hrest₁ : ∀ t ∈ st.tasks.eraseIdx i, t.Stays st₁ :=
        fun t ht => Stays_mono hsh (hrest t ht)
      have htasks : st₁.tasks = st.tasks := (SameCalls.goOnAfter after).tasks.symm.trans hsame.tasks
      cases after with
      | done =>
          have hnext : ∀ t ∈ (none : Option Task), t.Stays st₁ :=
            fun t ht => absurd ht (Option.not_mem_none t)
          exact stopping_goOn hh hws hi htasks hrest₁ hnext (.inr ⟨hr, hlast⟩)
      | start n p => exact absurd rfl (hafter n p)
      | wsFail => exact stopping_stopAll hh hi htasks hrest₁ .startError nofun

theorem Stopping.resume (hs : Stopping st) {r : Reply} {res : State × Option Task}
    (hi : st.tasks[i]? = some task) (hm : ∀ m, task ≠ .message m)
    (hres : st.resume r task = some res) :
    Stopping { res.1 with tasks := Tasks.goOn res.1.tasks i res.2 } := by
  have htask : task.Stays st := hs.tasks task (List.mem_of_getElem? hi)
  cases task with
  | message m => exact absurd rfl (hm m)
  | stop began reason w after =>
      injection hres with hres
      rw [← hres]
      exact hs.stopStep hi htask.1 (.resumeStop ..)
        (resumeStop_spec hs.held hs.closed htask.2 began reason after r)
  | start n p w =>
      obtain ⟨rfl, hne⟩ := htask
      obtain ⟨ok, hlookup, rfl⟩ := Option.map_eq_some_iff.mp hres
      cases ok with
      | true => exact absurd hlookup hne
      | false =>
          refine stopping_stopAll (hs.held.send (.error .ws)) hi rfl (fun t ht => ?_) .wsFail nofun
          exact Stays_mono (.send rfl) (hs.tasks t (List.mem_of_mem_eraseIdx ht))

theorem Serving.resume {n : Nat} (hs : Serving n st) {r : Reply} {res : State × Option Task}
    (hi : st.tasks[i]? = some task) (hm : ∀ m, task ≠ .message m)
    (hres : st.resume r task = some res) :
    Sound { res.1 with tasks := Tasks.goOn res.1.tasks i res.2 } := by
  have htask : task.Serves n st.promises := hs.tasks task (List.mem_of_getElem? hi)
  cases task with
  | message m => exact absurd rfl (hm m)
  | stop => cases htask
  | start m p w =>
      obtain ⟨rfl, hother⟩ := htask
      obtain ⟨ok, hlookup, rfl⟩ := Option.map_eq_some_iff.mp hres
      have hmn : m = n := by
        by_contra hne
        rw [hother hne] at hlookup
        cases hlookup
      cases ok with
      | true =>
          refine .inr (.inr ⟨n, { hs.held with }, hs.current, hs.asked, fun t ht => ?_⟩)
          exact hs.tasks t (List.mem_of_mem_eraseIdx ht)
      | false =>
          refine .inl (stopping_stopAll (hs.held.send (.error .ws)) hi rfl (fun t ht => ?_)
            .wsFail nofun)
          refine Stays_mono (.send rfl) (hs.stays (List.mem_of_mem_eraseIdx ht) ?_)
          intro htakes
          have ht := hs.tasks t (List.mem_of_mem_eraseIdx ht)
          cases t with
          | message => exact htakes
          | stop => exact ht
          | start m' p' w' =>
              have htrue := htakes ht.1
              by_cases hm' : m' = n
              · rw [hm', ← hmn, hlookup] at htrue
                cases htrue
              · rw [ht.2 hm'] at htrue
                cases htrue

end

/-! ## The handshake, the messages and the stops -/

theorem Serving.settle {n : Nat} (hs : Serving n st) (ok : Bool) : Serving n (st.settle n ok) := by
  have hsame : SameCalls st (st.settle n ok) := .settle n ok
  refine ⟨hs.held.settle n ok, ?_, hsame.asked.trans hs.asked, fun t ht => ?_⟩
  · rw [State.settle]
    split <;> exact hs.current
  · rw [hsame.tasks] at ht
    have h := hs.tasks t ht
    cases t with
    | message => trivial
    | start m p w => exact ⟨h.1, fun hne => (lookup_settle_of_ne hne ok).trans (h.2 hne)⟩
    | stop => exact h

theorem Serving.settleHandshake {n : Nat} (hs : Serving n st) (ok : Bool) :
    Serving n (st.settleHandshake ok) := by
  unfold State.settleHandshake
  split
  · next k hk =>
      rw [hs.current k (hs.held.handshake k hk)]
      have hs' := hs.settle ok
      exact ⟨{ hs'.held with handshake := nofun }, hs'.current, hs'.asked, hs'.tasks⟩
  · exact hs

theorem Serving.rejectHandshakeIfAny {n : Nat} (hs : Serving n st) :
    Serving n st.rejectHandshakeIfAny := by
  rw [State.rejectHandshakeIfAny]
  split
  · exact hs
  · exact hs.settleHandshake false

/-- A socket is closed, and the timer of its connection is stopped. -/
theorem Serving.closes {n : Nat} (hs : Serving n st) (j : Nat) :
    Serving n ({ st with connectTimer := none }.close j) := by
  refine ⟨{ hs.held with sockets := ?_, connectTimer := nofun }, hs.current, hs.asked, hs.tasks⟩
  intro s' hs'
  obtain ⟨s'', hmem', heq⟩ := mem_setReady hs'
  rw [← heq]
  exact hs.held.sockets s'' hmem'

theorem Serving.send {n : Nat} (hs : Serving n st) (s : Status) : Serving n (st.send s) :=
  ⟨{ hs.held with }, hs.current, hs.asked, hs.tasks⟩

theorem Acquiring.send (ha : Acquiring st) {s : Status} (hs : s.IsOutcome = false) :
    Acquiring (st.send s) :=
  ⟨{ ha.held with }, ha.closed, ha.asked,
    fun t ht => (ha.tasks t ht).imp_right (Acquires_mono (.send hs)), ha.one⟩

theorem Stopping.send (hst : Stopping st) {s : Status} (hs : s.IsOutcome = false) :
    Stopping (st.send s) := by
  have hsh : Shrinks st (st.send s) := .send hs
  exact ⟨{ hst.held with }, hst.closed, fun t ht => Stays_mono hsh (hst.tasks t ht),
    hst.done.imp_right fun h => ⟨hsh.released h.1, hsh.last h.2⟩⟩

namespace Sound

theorem send (h : Sound st) {s : Status} (hs : s.IsOutcome = false) : Sound (st.send s) := by
  rcases h with h | h | ⟨n, h⟩
  · exact .inl (h.send hs)
  · exact .inr (.inl (h.send hs))
  · exact .inr (.inr ⟨n, h.send s⟩)

/-- `handshakeOk` and what follows are of no account here. -/
theorem congr (h : Sound st) (hh : Held st → Held st') (hsh : Shrinks st st')
    (hsame : SameCalls st st') (hws : st'.ws = st.ws) : Sound st' := by
  rcases h with h | h | ⟨n, h⟩
  · refine .inl ⟨hh h.held, hws.trans h.closed, fun t ht => ?_, ?_⟩
    · rw [hsame.tasks] at ht
      exact Stays_mono hsh (h.tasks t ht)
    · rw [hsame.tasks]
      exact h.done.imp_right fun h => ⟨hsh.released h.1, hsh.last h.2⟩
  · refine .inr (.inl ⟨hh h.held, hws.trans h.closed, hsame.asked.trans h.asked,
      fun t ht => ?_, ?_⟩)
    · rw [hsame.tasks] at ht
      rw [hsh.promises]
      exact (h.tasks t ht).imp_right (Acquires_mono hsh)
    · rw [hsh.promises, hsame.tasks]
      exact h.one
  · refine .inr (.inr ⟨n, hh h.held, ?_, hsame.asked.trans h.asked, fun t ht => ?_⟩)
    · rw [hws]
      exact h.current
    · rw [hsame.tasks] at ht
      rw [hsh.promises]
      exact h.tasks t ht

theorem settleHandshake (h : Sound st) (ok : Bool) : Sound (st.settleHandshake ok) := by
  have hclosed : Held st → st.ws = none → st.settleHandshake ok = st := by
    intro hh hws
    simp [State.settleHandshake, hh.handshake_eq_none hws]
  rcases h with h | h | ⟨n, h⟩
  · rw [hclosed h.held h.closed]
    exact .inl h
  · rw [hclosed h.held h.closed]
    exact .inr (.inl h)
  · exact .inr (.inr ⟨n, h.settleHandshake ok⟩)

theorem resolveHandshakeIfAny (h : Sound st) : Sound st.resolveHandshakeIfAny := by
  rw [State.resolveHandshakeIfAny]
  split
  · exact h
  · have hok : Sound { st with handshakeOk := true } :=
      h.congr (fun hh => { hh with }) ⟨rfl, id, id, id, id⟩ ⟨rfl, rfl, rfl⟩ rfl
    exact hok.settleHandshake true

theorem rejectHandshakeIfAny (h : Sound st) : Sound st.rejectHandshakeIfAny := by
  rw [State.rejectHandshakeIfAny]
  split
  · exact h
  · exact h.settleHandshake false

/-- With an open socket the document serves. -/
theorem serving_of_ws (h : Sound st) {k : Nat} (hws : st.ws = some k) : Serving k st := by
  rcases h with h | h | ⟨n, h⟩
  · have hnone := h.closed
    rw [hws] at hnone
    cases hnone
  · have hnone := h.closed
    rw [hws] at hnone
    cases hnone
  · rw [h.current k hws]
    exact h

end Sound

/-- No start takes resources. -/
def Calm (st : State) : Prop := ∀ task ∈ st.tasks, ¬ task.Takes st.promises

theorem Calm.rejectHandshakeIfAny (hc : Calm st) : Calm st.rejectHandshakeIfAny := by
  intro t ht
  have hsame : SameCalls st st.rejectHandshakeIfAny := .rejectHandshakeIfAny
  rw [hsame.tasks] at ht
  intro htakes
  refine hc t ht ?_
  cases t with
  | message => exact htakes
  | stop => exact htakes
  | start n p w =>
      intro hw
      have htrue := htakes hw
      simp only [State.rejectHandshakeIfAny, State.settleHandshake] at htrue
      split at htrue
      · exact htrue
      · split at htrue
        · exact lookup_settle_false htrue
        · exact htrue

theorem Sound.held (h : Sound st) : Held st := by
  rcases h with h | h | ⟨n, h⟩
  · exact h.held
  · exact h.held
  · exact h.held

theorem Sound.stopAllNow (h : Sound st) (hc : Calm st) (reason : Reason) :
    Sound (st.stopAllNow reason) := by
  refine .inl (stopping_called h.held (fun t ht => ?_) reason true)
  rcases h with h | h | ⟨n, h⟩
  · exact h.tasks t ht
  · rcases h.tasks t ht with hp | ha
    · exact Stays_of_parked hp
    · exact absurd (takes_of_acquires ha) (hc t ht)
  · exact h.stays ht (hc t ht)

/-! ## The events -/

/-- What a message asks the document to do at once. -/
def MessageStops (st : State) : ServerMessage → Prop
  | .error busy => busy ∨ st.strictWs
  | .hello | .status | .other => False

def CallStops (st : State) : Task → Prop
  | .message m => MessageStops st m
  | .start .. | .stop .. => False

/-- The step calls `stopAll`, and nobody waits for it. -/
def CallsStop (st : State) : Label → Prop
  | .stop | .trackEnded _ | .windowError _ => True
  | .socketClose _ busy => busy ∨ st.strictWs
  | .resume i _ => ∃ task ∈ st.tasks[i]?, CallStops st task
  | .start _ | .socketOpen _ | .socketError _ | .connectTimeout | .handshakeTimeout | .message ..
  | .chunk .. => False

/-- A stop is called when no start takes resources, and a start when no call
waits but for a socket. -/
def InTurn (st : State) : Label → Prop
  | .start _ => ∀ task ∈ st.tasks, task.Parked st.promises
  | l => CallsStop st l → Calm st

namespace Sound

theorem handleServerTextMessage (h : Sound st) {m : ServerMessage}
    (hc : MessageStops st m → Calm st) : Sound (st.handleServerTextMessage m) := by
  cases m with
  | error busy =>
      simp only [State.handleServerTextMessage]
      split
      · next hbusy =>
          have hcalm : Calm st := hc (.inl hbusy)
          have hcalm' : Calm (st.send .serverBusy) := hcalm
          exact (h.send rfl).rejectHandshakeIfAny.stopAllNow hcalm'.rejectHandshakeIfAny _
      · split
        · next hs =>
            rw [strictWs_reject] at hs
            have hcalm : Calm st := hc (.inr hs)
            have hcalm' : Calm (st.send .serverError) := hcalm
            exact (h.send rfl).rejectHandshakeIfAny.stopAllNow hcalm'.rejectHandshakeIfAny _
        · exact (h.send rfl).rejectHandshakeIfAny
  | hello | status => exact (h.send rfl).resolveHandshakeIfAny
  | other => exact h.resolveHandshakeIfAny

/-- A message that has been handled is no longer there. -/
theorem erase_message (h : Sound st) {i : Nat} {m : ServerMessage}
    (hi : st.tasks[i]? = some (.message m)) :
    Sound { st with tasks := goOn st.tasks i none } := by
  have hsub : ∀ t ∈ goOn st.tasks i none, t ∈ st.tasks :=
    fun t ht => List.mem_of_mem_eraseIdx ht
  rcases h with h | h | ⟨n, h⟩
  · refine .inl ⟨{ h.held with }, h.closed,
      fun t ht => Stays_mono (.tasks _) (h.tasks t (hsub t ht)), ?_⟩
    rcases h.done with ⟨t, ht, hstop⟩ | ⟨hr, hlast⟩
    · refine .inl ⟨t, mem_goOn_of_ne hi ht ?_ none, hstop⟩
      rintro rfl
      cases hstop
    · exact .inr ⟨{ hr with }, hlast⟩
  · exact .inr (.inl ⟨{ h.held with }, h.closed, h.asked,
      fun t ht => (h.tasks t (hsub t ht)).imp_right (Acquires_mono (.tasks _)),
      h.one.goOn hi fun _ t ht => absurd ht (Option.not_mem_none t)⟩)
  · exact .inr (.inr ⟨n, { h.held with }, h.current, h.asked, fun t ht => h.tasks t (hsub t ht)⟩)

end Sound

/-- A message only adds calls. -/
theorem handleServerTextMessage_tasks (m : ServerMessage) :
    ∃ more, (st.handleServerTextMessage m).tasks = st.tasks ++ more := by
  have hreject : ∀ s : Status, (st.send s).rejectHandshakeIfAny.tasks = st.tasks :=
    fun s => ((SameCalls.send s).trans .rejectHandshakeIfAny).tasks
  have hresolve : ∀ st : State, st.resolveHandshakeIfAny.tasks = st.tasks :=
    fun st => SameCalls.resolveHandshakeIfAny.tasks
  have hstop : ∀ (st : State) (reason : Reason),
      ∃ task, (st.stopAllNow reason).tasks = st.tasks ++ [task] := fun _ _ => ⟨_, rfl⟩
  cases m with
  | error busy =>
      simp only [handleServerTextMessage]
      split
      · obtain ⟨task, htask⟩ := hstop (st.send .serverBusy).rejectHandshakeIfAny .busy
        exact ⟨[task], by rw [htask, hreject]⟩
      · split
        · obtain ⟨task, htask⟩ := hstop (st.send .serverError).rejectHandshakeIfAny .serverError
          exact ⟨[task], by rw [htask, hreject]⟩
        · exact ⟨[], by rw [hreject, List.append_nil]⟩
  | hello => exact ⟨[], (hresolve (st.send .serverHello)).trans (List.append_nil _).symm⟩
  | status => exact ⟨[], (hresolve (st.send .serverStatus)).trans (List.append_nil _).symm⟩
  | other => exact ⟨[], (hresolve st).trans (List.append_nil _).symm⟩

namespace Sound

theorem resume (h : Sound st) {i : Nat} {r : Reply}
    (hc : CallsStop st (.resume i r) → Calm st) (hstep : st.step (.resume i r) = some st') :
    Sound st' := by
  obtain ⟨task, st₁, next, hi, hres, rfl⟩ := step_resume hstep
  cases task with
  | message m =>
      injection hres with hres
      injection hres with hst₁ hnext
      rw [← hst₁, ← hnext]
      have hs : Sound (st.handleServerTextMessage m) := by
        refine h.handleServerTextMessage fun hm => hc ?_
        exact ⟨_, hi, hm⟩
      obtain ⟨more, hmore⟩ := @handleServerTextMessage_tasks st m
      refine hs.erase_message (i := i) (m := m) ?_
      rw [hmore, List.getElem?_append_left (List.getElem?_eq_some_iff.mp hi).1, hi]
  | start | stop =>
      rcases h with h | h | ⟨n, h⟩
      · exact .inl (h.resume hi nofun hres)
      · exact h.resume hi nofun hres
      · exact h.resume hi nofun hres

theorem serving_of_socket (h : Sound st) {s : Nat × ReadyState} (hs : s ∈ st.sockets) :
    st.ws = some s.1 ∧ Serving s.1 st := by
  have hws : st.ws = some s.1 := h.held.sockets s hs
  exact ⟨hws, h.serving_of_ws hws⟩

theorem onopen (h : Sound st) {k : Nat} (hk : (k, .connecting) ∈ st.sockets) :
    Sound (st.onopen k) := by
  obtain ⟨hws, hs⟩ := h.serving_of_socket hk
  refine .inr (.inr ⟨k, { hs.held with sockets := ?_, handshake := ?_, connectTimer := nofun },
    hs.current, hs.asked, hs.tasks⟩)
  · intro s hmem
    obtain ⟨s', hmem', hs'⟩ := mem_setReady hmem
    rw [← hs']
    exact hs.held.sockets s' hmem'
  · intro k' hk'
    rw [← Option.some.inj hk']
    exact hws

theorem onclose (h : Sound st) {k : Nat} {busy : Bool} (hk : (st.sockets.lookup k).isSome)
    (hc : CallsStop st (.socketClose k busy) → Calm st) : Sound (st.onclose k busy) := by
  obtain ⟨s, hmem, rfl⟩ := mem_of_lookup hk
  obtain ⟨hws, hs⟩ := h.serving_of_socket hmem
  have hclosed : Serving s.1 ({ st with
      sockets := st.sockets.filter fun s' => s'.1 ≠ s.1
      connectTimer := none
      wsOpen := false
      wsReadyToStream := false }.send .wsClose) := by
    refine ⟨{ hs.held with sockets := ?_, connectTimer := nofun }, hs.current, hs.asked, hs.tasks⟩
    intro s' hs'
    exact hs.held.sockets s' (List.mem_filter.mp hs').1
  have hstop : busy ∨ st.strictWs → Calm st := hc
  have hsound : Sound _ := .inr (.inr ⟨s.1, hclosed⟩)
  simp only [State.onclose]
  split
  · next hbusy =>
      have hcalm : Calm ({ st with
          sockets := st.sockets.filter fun s' => s'.1 ≠ s.1
          connectTimer := none
          wsOpen := false
          wsReadyToStream := false }.send .wsClose |>.send .serverBusy) := hstop (.inl hbusy)
      exact (hsound.send rfl).rejectHandshakeIfAny.stopAllNow hcalm.rejectHandshakeIfAny _
  · split
    · next hstrict =>
        have hcalm : Calm ({ st with
            sockets := st.sockets.filter fun s' => s'.1 ≠ s.1
            connectTimer := none
            wsOpen := false
            wsReadyToStream := false }.send .wsClose) := hstop (.inr hstrict)
        exact hsound.rejectHandshakeIfAny.stopAllNow hcalm.rejectHandshakeIfAny _
    · exact hsound.rejectHandshakeIfAny

theorem onerror (h : Sound st) {k : Nat} (hk : (st.sockets.lookup k).isSome) :
    Sound (st.onerror k) := by
  obtain ⟨s, hmem, rfl⟩ := mem_of_lookup hk
  obtain ⟨hws, hs⟩ := h.serving_of_socket hmem
  have hclosed : Serving s.1 ({ st with
      connectTimer := none, wsOpen := false, wsReadyToStream := false }.close s.1) :=
    ⟨{ (hs.closes s.1).held with }, hs.current, hs.asked, hs.tasks⟩
  exact .inr (.inr ⟨s.1, (hclosed.send .wsError).rejectHandshakeIfAny.settle false⟩)

theorem connectTimeout (h : Sound st) {k : Nat} (hk : st.connectTimer = some k) :
    Sound (({ st with connectTimer := none }.send .wsError).close k |>.settle k false) := by
  have hs := h.serving_of_ws (h.held.connectTimer k hk)
  have hclosed : Serving k (({ st with connectTimer := none }.send .wsError).close k) :=
    ⟨{ (hs.closes k).held with }, hs.current, hs.asked, hs.tasks⟩
  exact .inr (.inr ⟨k, hclosed.settle false⟩)

theorem handshakeTimeout (h : Sound st) {k : Nat} (hk : st.handshake = some k) :
    Sound (st.settle k false) := by
  have hs := h.serving_of_ws (h.held.handshake k hk)
  exact .inr (.inr ⟨k, hs.settle false⟩)

theorem message (h : Sound st) {k : Nat} (hk : (k, .opened) ∈ st.sockets) (m : ServerMessage) :
    Sound { st with tasks := st.tasks ++ [.message m] } := by
  obtain ⟨hws, hs⟩ := h.serving_of_socket hk
  refine .inr (.inr ⟨k, { hs.held with }, hs.current, hs.asked, fun t ht => ?_⟩)
  rcases List.mem_append.mp ht with ht | ht
  · exact hs.tasks t ht
  · rw [List.mem_singleton.mp ht]
    trivial

theorem onChunk (h : Sound st) (n : Nat) (first : Bool) (bytes bufferedAmount : Nat) :
    Sound (st.onChunk n first bytes bufferedAmount) := by
  have hdrop : Sound (st.shouldDropPcmByBackpressure bufferedAmount).1 := by
    have hactive : ∀ (b : Bool) (s : Status), s.IsOutcome = false →
        Sound ({ st with wsBackpressureActive := b }.send s) := by
      intro b s hs
      have hset : Sound { st with wsBackpressureActive := b } :=
        h.congr (fun hh => { hh with }) ⟨rfl, id, id, id, id⟩ ⟨rfl, rfl, rfl⟩ rfl
      exact hset.send hs
    rw [shouldDropPcmByBackpressure]
    split
    · split
      · exact hactive true .audioBackpressure rfl
      · exact hactive false .audioBackpressureClear rfl
    · exact h
  simp only [State.onChunk]
  split
  · generalize st.shouldDropPcmByBackpressure bufferedAmount = res at hdrop
    obtain ⟨st₁, drop⟩ := res
    split
    · exact hdrop.congr (fun hh => { hh with }) ⟨rfl, id, id, id, id⟩ ⟨rfl, rfl, rfl⟩ rfl
    · have hsent : Sound { st₁ with
          counters := { st₁.counters with
            chunksSent := st₁.counters.chunksSent + 1
            bytesSent := st₁.counters.bytesSent + bytes }
          countedBy := n
          worklets := st₁.worklets.map fun w => if w.1 = n then (n, true) else w } :=
        hdrop.congr (fun hh => { hh with }) ⟨rfl, id, id, id, id⟩ ⟨rfl, rfl, rfl⟩ rfl
      split
      · exact hsent
      · exact hsent.resolveHandshakeIfAny
  · exact h

/-- A start is called when nothing waits but for a socket. -/
theorem start (h : Sound st) (hpark : ∀ t ∈ st.tasks, t.Parked st.promises) (p : Payload) :
    Sound (st.start p) := by
  simp only [State.start]
  split
  · have hset : Held { st with
        starts := st.starts + 1, stopAsked := false, strictWs := p.strictWs } := { h.held with }
    have hstop := hset.stopAll .restart (.start (st.starts + 1) p)
    refine .inr (.inl ⟨{ hstop with }, rfl, rfl, fun t ht => ?_, .append_of_forall hpark _⟩)
    rcases List.mem_append.mp ht with ht | ht
    · exact .inl (hpark t ht)
    · rw [List.mem_singleton.mp ht]
      exact .inr trivial
  · have hset : Held { st with starts := st.starts + 1, stopAsked := false } := { h.held with }
    exact .inl (stopping_called hset (fun t ht => Stays_of_parked (hpark t ht)) .startError false)

theorem step (h : Sound st) {l : Label} (hc : InTurn st l) (hstep : st.step l = some st') :
    Sound st' := by
  cases step_takes hstep with
  | start => exact h.start hc _
  | stop => exact h.stopAllNow (hc trivial) _
  | resume hstep => exact h.resume hc hstep
  | socketOpen hk => exact h.onopen hk
  | socketClose hk => exact h.onclose hk hc
  | socketError hk => exact h.onerror hk
  | connectTimeout hk => exact h.connectTimeout hk
  | handshakeTimeout hk => exact h.handshakeTimeout hk
  | message hk => exact h.message hk _
  | chunk => exact h.onChunk _ _ _ _
  | trackEnded =>
      have hcalm : Calm (st.send .ended) := hc trivial
      exact (h.send rfl).stopAllNow hcalm _
  | windowError =>
      have hcalm : Calm (st.send .serverError) := hc trivial
      exact (h.send rfl).stopAllNow hcalm _

theorem init : Sound .init := by
  have hnone : ∀ k ∈ (none : Option Nat), State.init.ws = some k :=
    fun k hk => absurd hk (Option.not_mem_none k)
  refine .inr (.inr ⟨0, ⟨?_, ?_, ?_, ?_, hnone, hnone⟩, ?_, rfl, ?_⟩)
  · exact fun k hk => absurd hk List.not_mem_nil
  · exact fun k hk => absurd hk List.not_mem_nil
  · exact fun k hk => absurd hk List.not_mem_nil
  · exact fun s hs => absurd hs List.not_mem_nil
  · exact fun k hk => absurd hk (Option.not_mem_none k)
  · exact fun t ht => absurd ht List.not_mem_nil

end Sound

def HasEnded (st : State) : Task → Prop
  | .message _ => True
  | .start n _ wait => wait = .socket ∧ st.promises.lookup n = none ∧ st.ws ≠ some n
  | .stop .. => False

/-- Every `stopAll` has ended, and a start that has not can only wait for a socket
that is gone. -/
def Finished (st : State) : Prop := ∀ task ∈ st.tasks, HasEnded st task

end State

/-! ## Runs -/

/-- When a stop was called after the last start, and all calls have come to their
end, nothing is live, and the last that was told is `stopped`. -/
def StopWins (ls : List Label) : Prop :=
  ∀ st ∈ run State.step .init ls, st.stopAsked → st.Finished →
    st.streams = [] ∧ st.contexts = [] ∧ st.recorders = [] ∧ st.sockets = [] ∧
      LastStopped st.sent

/-- A stop wins in every run in which calls come in turn. -/
theorem stop_wins (ls : List Label) (hturn : Guarded State.step State.InTurn .init ls) :
    StopWins ls := by
  intro st hrun hasked hfin
  have hsound : State.Sound st :=
    run_guarded (fun _ _ _ hs hc h => hs.step hc h) .init hturn hrun
  rcases hsound with h | h | ⟨n, h⟩
  · rcases h.done with ⟨t, ht, hstop⟩ | ⟨hr, hlast⟩
    · have hended := hfin t ht
      cases t with
      | stop => exact hended.elim
      | start | message => exact hstop.elim
    · exact ⟨hr.streams, hr.contexts, hr.recorders, h.held.sockets_eq_nil h.closed, hlast⟩
  · rw [h.asked] at hasked
    cases hasked
  · rw [h.asked] at hasked
    cases hasked

instance (promises : List (Nat × Bool)) : (task : Task) → Decidable (task.Parked promises)
  | .message _ => isTrue trivial
  | .start n _ wait =>
      inferInstanceAs (Decidable (wait = .socket ∧ promises.lookup n = none))
  | .stop .. => isFalse id

instance (promises : List (Nat × Bool)) : (task : Task) → Decidable (task.Takes promises)
  | .message _ => isFalse id
  | .start n _ wait =>
      inferInstanceAs (Decidable (wait = .socket → promises.lookup n = some true))
  | .stop _ _ _ (.start n p) => isTrue ⟨n, p, rfl⟩
  | .stop _ _ _ .done | .stop _ _ _ .wsFail => isFalse nofun

instance (st : State) : Decidable st.Calm :=
  inferInstanceAs (Decidable (∀ task ∈ st.tasks, ¬ task.Takes st.promises))

instance (st : State) : (m : ServerMessage) → Decidable (st.MessageStops m)
  | .error busy => inferInstanceAs (Decidable (busy ∨ st.strictWs))
  | .hello | .status | .other => isFalse id

instance (st : State) : (task : Task) → Decidable (st.CallStops task)
  | .message m => inferInstanceAs (Decidable (st.MessageStops m))
  | .start .. | .stop .. => isFalse id

instance (st : State) : (l : Label) → Decidable (st.CallsStop l)
  | .stop | .trackEnded _ | .windowError _ => isTrue trivial
  | .socketClose _ busy => inferInstanceAs (Decidable (busy ∨ st.strictWs))
  | .resume i _ => inferInstanceAs (Decidable (∃ task ∈ st.tasks[i]?, st.CallStops task))
  | .start _ | .socketOpen _ | .socketError _ | .connectTimeout | .handshakeTimeout | .message ..
  | .chunk .. => isFalse id

instance (st : State) : (l : Label) → Decidable (st.InTurn l)
  | .start _ => inferInstanceAs (Decidable (∀ task ∈ st.tasks, task.Parked st.promises))
  | .stop => inferInstanceAs (Decidable (st.CallsStop .stop → st.Calm))
  | .resume i r => inferInstanceAs (Decidable (st.CallsStop (.resume i r) → st.Calm))
  | .socketOpen k => inferInstanceAs (Decidable (st.CallsStop (.socketOpen k) → st.Calm))
  | .socketClose k busy =>
      inferInstanceAs (Decidable (st.CallsStop (.socketClose k busy) → st.Calm))
  | .socketError k => inferInstanceAs (Decidable (st.CallsStop (.socketError k) → st.Calm))
  | .connectTimeout => inferInstanceAs (Decidable (st.CallsStop .connectTimeout → st.Calm))
  | .handshakeTimeout => inferInstanceAs (Decidable (st.CallsStop .handshakeTimeout → st.Calm))
  | .message k m => inferInstanceAs (Decidable (st.CallsStop (.message k m) → st.Calm))
  | .chunk n bytes amount =>
      inferInstanceAs (Decidable (st.CallsStop (.chunk n bytes amount) → st.Calm))
  | .trackEnded k => inferInstanceAs (Decidable (st.CallsStop (.trackEnded k) → st.Calm))
  | .windowError rejection =>
      inferInstanceAs (Decidable (st.CallsStop (.windowError rejection) → st.Calm))

/-- A start up to its own `stopAll` and the wait for the media. -/
def asksForMedia : List Label := [.start tab, .resume 0 .ok, .resume 0 .ok]

/-- Then it takes all it needs, and the server answers. -/
def getsReady (i : Nat) : List Label :=
  [.resume i (.media true .unsupported), .resume i .ok, .resume i .ok, .resume i .ok,
    .socketOpen 1, .message 1 .hello, .resume (i + 1) .ok, .resume i .ok]

theorem stop_wins_running : StopWins
    (asksForMedia ++ getsReady 0 ++ [.stop, .resume 0 .ok, .resume 0 .ok, .resume 0 .ok]) :=
  stop_wins _ (by decide)

/-- The stop comes while `start` waits for the media: it finds nothing to give
back, and the start goes on. -/
theorem stop_loses : ¬ StopWins
    (asksForMedia ++ [.stop, .resume 1 .ok, .resume 1 .ok] ++ getsReady 0) := by
  intro h
  have hlive := (h _ rfl rfl (fun t ht => absurd ht List.not_mem_nil)).1
  cases hlive

end VTranser.Offscreen

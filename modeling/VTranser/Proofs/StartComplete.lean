import VTranser.Proofs.Service

/-!
# When a successful start is complete

The handler of a failure of the offscreen document stops the capture, whichever
start it is of: it takes the overlay down, stops the object that persists the
transcript and forgets it. When the first attempt of a start fails and the
second succeeds, both handlers are at work on the same session.

If no failure is handled while a start is on its way, nothing else touches the
overlay or the object: there is one handler at most that is not a bystander
(`Alone`), and it knows what it has done (`Task.Done`).
-/

namespace VTranser.ServiceWorker

open Run Tasks

namespace State

/-- The overlay of the tab was injected and not torn down since. -/
def HasOverlay (tab : Nat) (st : State) : Prop :=
  (st.overlay.filter (·.1 = tab)).getLast? = some (tab, .inject)

/-- The object is installed and not stopped. -/
def Persists (own : Nat) (st : State) : Prop :=
  ∃ p, st.transcriptPersist = some (own, p) ∧ p.stopped = false

/-- What a start has done when it waits here. -/
def Done (st : State) (tab own : Nat) : StartWait → Prop
  | .inject => True
  | .access | .oldPersist | .user => st.HasOverlay tab
  | .tab | .streamId | .tabAttempt | .displayAttempt | .captured | .mode =>
      st.HasOverlay tab ∧ st.Persists own

end State

/-- The start of the tab, or a cleanup after which nothing is claimed. -/
def Task.Done (tab : Nat) (st : State) : Task → Prop
  | .start t own wait => t = tab ∧ st.Done tab own wait
  | .cleanup _ _ (.start t) => t = tab
  | .cleanup _ _ .done | .cleanup _ _ .failure | .cleanup _ _ .tabClosed => True
  | .relay .. | .connect | .modes .. | .modesOn | .openPanel .. | .closePanel .. => False

namespace State

structure Alone (tab : Nat) (st : State) : Prop where
  one : AllButOne Task.IsBystander st.tasks
  done : ∀ task ∈ st.tasks, task.IsBystander ∨ task.Done tab st

variable {st st' : State} {tab own : Nat}

/-- The overlay and the object stay as they are, and only bystanders begin. -/
structure Quiet (st st' : State) : Prop where
  overlay : st'.overlay = st.overlay
  persist : ∀ own, st.Persists own → st'.Persists own
  tasks : ∃ more, st'.tasks = st.tasks ++ more ∧ ∀ task ∈ more, task.IsBystander

theorem Quiet.of_beside (h : Beside st st') : Quiet st st' where
  overlay := h.overlay
  persist := by
    obtain ⟨f, hf, heq⟩ := h.persist
    rintro own ⟨p, hp, hstopped⟩
    exact ⟨f p, by rw [heq, hp]; rfl, (hf p).trans hstopped⟩
  tasks := h.tasks

/-- A step that only touches `current`. -/
theorem Quiet.current (current : Option Current) : Quiet st { st with current := current } where
  overlay := rfl
  persist _ := id
  tasks := Beside.nothing_begins rfl

theorem HasOverlay_congr (h : st'.overlay = st.overlay) (ho : st.HasOverlay tab) :
    st'.HasOverlay tab := by
  rw [HasOverlay, h]
  exact ho

theorem Done_mono (ho : st'.overlay = st.overlay) (hp : ∀ own, st.Persists own → st'.Persists own)
    {task : Task} (h : task.Done tab st) : task.Done tab st' := by
  cases task with
  | start t own wait =>
      refine ⟨h.1, ?_⟩
      have hdone := h.2
      cases wait with
      | inject => trivial
      | access | oldPersist | user => exact HasOverlay_congr ho hdone
      | tab | streamId | tabAttempt | displayAttempt | captured | mode =>
          exact ⟨HasOverlay_congr ho hdone.1, hp own hdone.2⟩
  | cleanup began wait after => cases after <;> exact h
  | relay | connect | modes | modesOn | openPanel | closePanel => exact h

theorem not_bystander_of_done {task : Task} (h : task.Done tab st) : ¬ task.IsBystander := by
  cases task with
  | start | cleanup => exact id
  | relay | connect | modes | modesOn | openPanel | closePanel => exact h.elim

/-- Only bystanders act, or what is beside the matter changes. -/
theorem Alone.quiet (h : Alone tab st) (hq : Quiet st st') : Alone tab st' := by
  obtain ⟨more, htasks, hmore⟩ := hq.tasks
  refine ⟨?_, fun task htask => ?_⟩
  · rw [htasks]
    exact h.one.append hmore
  · rw [htasks] at htask
    rcases List.mem_append.mp htask with hmem | hmem
    · exact (h.done task hmem).imp_right (Done_mono hq.overlay hq.persist)
    · exact .inl (hmore task hmem)

/-! ## The start and the cleanups -/

/-- What the one handler that is no bystander does when it goes on. -/
structure OwnStep (tab : Nat) (st : State) (res : State × Option Task) : Prop where
  tasks : ∃ more, res.1.tasks = st.tasks ++ more ∧ ∀ task ∈ more, task.IsBystander
  next : ∀ task ∈ res.2, task.Done tab res.1

namespace OwnStep

theorem waits {task : Task} (ht : st'.tasks = st.tasks) (h : task.Done tab st') :
    OwnStep tab st (st', some task) where
  tasks := ⟨[], by rw [ht, List.append_nil], fun _ h => absurd h List.not_mem_nil⟩
  next := by
    rintro _ ⟨⟩
    exact h

theorem ends (ht : st'.tasks = st.tasks) : OwnStep tab st (st', none) where
  tasks := ⟨[], by rw [ht, List.append_nil], fun _ h => absurd h List.not_mem_nil⟩
  next task h := absurd h (Option.not_mem_none task)

theorem stopCapture (began : Nat) {after : After}
    (h : ∀ wait, (Task.cleanup began wait after).Done tab st.setCurrentStopped) :
    OwnStep tab st ((st.stopCapture began after).1, some (st.stopCapture began after).2) := by
  refine waits rfl ?_
  simp only [State.stopCapture]
  split <;> exact h _

theorem failStart : OwnStep tab st st.failStart := by
  rw [State.failStart]
  split
  · exact waits rfl trivial
  · exact stopCapture _ fun _ => trivial

theorem captured (ho : st.HasOverlay tab) (hp : st.Persists own) :
    OwnStep tab st (st.captured tab own) where
  tasks := (Beside.maybeUpdateTranslator false).tasks
  next := by
    have hq : Quiet st (st.maybeUpdateTranslator false) :=
      .of_beside (.maybeUpdateTranslator false)
    rintro _ ⟨⟩
    exact ⟨rfl, HasOverlay_congr hq.overlay ho, hq.persist own hp⟩

theorem resumeStart {wait : StartWait} (hdone : st.Done tab own wait) (r : Reply) :
    OwnStep tab st (st.resumeStart tab own r wait) := by
  cases wait with
  | inject =>
      rw [State.resumeStart]
      split
      · refine waits rfl ⟨rfl, ?_⟩
        show ((st.overlay ++ [(tab, OverlayEvent.inject)]).filter _).getLast? = _
        simp
      · exact failStart
  | access =>
      rw [State.resumeStart]
      split
      · split
        · exact waits rfl ⟨rfl, hdone⟩
        · exact waits rfl ⟨rfl, hdone⟩
      · exact failStart
  | oldPersist => exact waits rfl ⟨rfl, hdone⟩
  | user => exact waits rfl ⟨rfl, hdone, .init, rfl, rfl⟩
  | tab =>
      rw [State.resumeStart]
      split
      · exact waits rfl ⟨rfl, hdone⟩
      · exact failStart
  | streamId =>
      refine waits rfl ⟨rfl, ?_⟩
      split <;> exact hdone
  | tabAttempt =>
      rw [State.resumeStart]
      split
      · exact captured hdone.1 hdone.2
      · exact waits rfl ⟨rfl, hdone⟩
  | displayAttempt =>
      rw [State.resumeStart]
      split
      · exact captured hdone.1 hdone.2
      · exact failStart
  | captured => exact waits rfl ⟨rfl, hdone⟩
  | mode => exact ends rfl

theorem goOnAfter {began : Nat} {wait : StopWait} {after : After}
    (hdone : (Task.cleanup began wait after).Done tab st) :
    OwnStep tab st (st.goOnAfter after) := by
  cases after with
  | done | failure | tabClosed => exact ends rfl
  | start t => exact waits rfl ⟨hdone, trivial⟩

theorem resumeCleanup {began : Nat} {wait : StopWait} {after : After}
    (hdone : (Task.cleanup began wait after).Done tab st) :
    OwnStep tab st (st.resumeCleanup began after wait) := by
  have hwait : ∀ (st' : State) (w : StopWait), (Task.cleanup began w after).Done tab st' := by
    intro st' w
    cases after <;> exact hdone
  have hgo : ∀ st' : State, st'.tasks = st.tasks → OwnStep tab st (st'.goOnAfter after) := by
    intro st' ht
    have h := goOnAfter (hwait st' wait)
    exact ⟨by rw [← ht]; exact h.tasks, h.next⟩
  cases wait with
  | reset t => exact waits rfl (hwait _ _)
  | removed =>
      simp only [State.resumeCleanup]
      split
      · exact waits rfl (hwait _ _)
      · exact hgo _ rfl
  | persist => exact hgo _ rfl
  | caught =>
      have hstop : OwnStep tab { st with transcriptPersist := none } _ :=
        stopCapture began fun w => hwait _ w
      exact ⟨hstop.tasks, hstop.next⟩

end OwnStep

/-! ## Steps -/

section

variable {i : Nat} {task : Task} {r : Reply}

theorem Alone.ownStep (h : Alone tab st) (hi : st.tasks[i]? = some task)
    (hnot : ¬ task.IsBystander) {res : State × Option Task} (hstep : OwnStep tab st res) :
    Alone tab { res.1 with tasks := goOn res.1.tasks i res.2 } := by
  obtain ⟨more, htasks, hmore⟩ := hstep.tasks
  have hone : AllButOne Task.IsBystander (st.tasks ++ more) := h.one.append hmore
  have hi' : (st.tasks ++ more)[i]? = some task := by
    rw [List.getElem?_append_left (List.getElem?_eq_some_iff.mp hi).1, hi]
  rw [htasks]
  refine ⟨hone.goOn hi' fun hb => absurd hb hnot, fun t (ht : t ∈ goOn _ i res.2) => ?_⟩
  rcases mem_goOn_erase hi' ht with ht | ht
  · exact .inr (Done_mono rfl (fun _ => id) (hstep.next t ht))
  · exact .inl (hone.rest hi' hnot t ht)

theorem Alone.bystander (h : Alone tab st) (hi : st.tasks[i]? = some task)
    (hb : task.IsBystander) : Alone tab { (st.resume r task).1 with
      tasks := goOn (st.resume r task).1.tasks i (st.resume r task).2 } := by
  obtain ⟨hbeside, hnext⟩ := @beside_resume st _ hb r
  obtain ⟨more, htasks, -⟩ := hbeside.tasks
  have h' := h.quiet (.of_beside hbeside)
  have hi' : (st.resume r task).1.tasks[i]? = some task := by
    rw [htasks, List.getElem?_append_left (List.getElem?_eq_some_iff.mp hi).1, hi]
  refine ⟨h'.one.goOn hi' fun _ => hnext, fun t ht => ?_⟩
  rcases mem_goOn (ht : t ∈ goOn _ i _) with ht | ht
  · exact (h'.done t ht).imp_right (Done_mono rfl fun _ => id)
  · exact .inl (hnext t ht)

end

/-- Nobody starts or stops anything or opens or closes the panel. -/
def Undisturbed : Label → Prop
  | .panelStart _ | .panelStop | .logout | .tabClosed _ | .panelToggle _ => False
  | .status _ | .stable .. | .modes _ | .iconClicked _ | .timer _ | .socketOpen _
  | .socketClose _ | .resume .. => True

/-- No failure of the offscreen document is handled. -/
def NoFailure (_ : State) (l : Label) : Prop := l ≠ .status .failure

theorem Alone.step (h : Alone tab st) {l : Label} (hl : Undisturbed l) (hno : NoFailure st l)
    (hstep : st.step l = some st') : Alone tab st' := by
  cases l with
  | panelStart | panelStop | logout | tabClosed | panelToggle => cases hl
  | status s =>
      injection hstep with hstep
      rw [← hstep]
      cases s with
      | running | stopped => exact h.quiet (.current _)
      | other => exact h
      | failure => exact absurd rfl hno
  | iconClicked t =>
      injection hstep with hstep
      rw [← hstep]
      exact h.quiet (.current _)
  | stable | modes | timer | socketOpen | socketClose =>
      exact h.quiet (.of_beside (beside_step hstep trivial))
  | resume i r =>
      obtain ⟨task, hi, rfl⟩ := step_resume hstep
      rcases h.done task (List.mem_of_getElem? hi) with hb | hdone
      · exact h.bystander hi hb
      · have hnot := not_bystander_of_done hdone
        cases task with
        | start t own wait =>
            obtain ⟨rfl, hdone⟩ := hdone
            exact h.ownStep hi hnot (.resumeStart hdone r)
        | cleanup began wait after => exact h.ownStep hi hnot (.resumeCleanup hdone)
        | relay | connect | modes | modesOn | openPanel | closePanel => exact hdone.elim

theorem Alone.panelStart (htasks : ∀ task ∈ st.tasks, task.IsBystander) (tab : Nat) :
    Alone tab (st.panelStart tab) := by
  have hadd : ∀ (st' : State) (task : Task), st'.tasks = st.tasks → task.Done tab st' →
      Alone tab (st'.addTask task) := by
    intro st' task ht hdone
    have ht' : (st'.addTask task).tasks = st.tasks ++ [task] := by rw [← ht]; rfl
    refine ⟨?_, fun t hmem => ?_⟩
    · rw [ht']
      exact .append_of_forall htasks task
    · rw [ht'] at hmem
      rcases List.mem_append.mp hmem with hmem | hmem
      · exact .inl (htasks t hmem)
      · rw [List.mem_singleton.mp hmem]
        exact .inr (Done_mono rfl (fun _ => id) hdone)
  rw [State.panelStart]
  split
  · refine hadd _ _ rfl ?_
    cases st.current.bind (·.tabId) <;> rfl
  · exact hadd st _ rfl ⟨rfl, trivial⟩

end State

/-! ## Runs -/

/-- When a start of the tab is about to answer that all is well, its object is
installed and not stopped, and the overlay was not torn down since it was
injected. -/
def StartComplete (tab : Nat) (st : State) (ls : List Label) : Prop :=
  ∀ st' ∈ run State.step st (.panelStart tab :: ls), ∀ t own,
    .start t own .mode ∈ st'.tasks → t = tab ∧ st'.HasOverlay tab ∧ st'.Persists own

/-- A start is complete in every run in which no failure is handled. -/
theorem start_complete (tab : Nat) (st : State) (htasks : ∀ task ∈ st.tasks, task.IsBystander)
    (ls : List Label) (hls : ∀ l ∈ ls, State.Undisturbed l)
    (hno : Guarded State.step State.NoFailure (st.panelStart tab) ls) :
    StartComplete tab st ls := by
  intro st' hrun t own hmem
  obtain ⟨st₁, hstep, hrest⟩ := run_cons_some.mp hrun
  injection hstep with hstep
  rw [← hstep] at hrest
  have hstep : ∀ st l st', State.Alone tab st → State.Undisturbed l ∧ State.NoFailure st l →
      State.step st l = some st' → State.Alone tab st' :=
    fun _ _ _ h hok hs => h.step hok.1 hok.2 hs
  have halone : State.Alone tab st' :=
    run_guarded hstep (.panelStart htasks tab) ((Guarded.of_labels hls).and hno) hrest
  rcases halone.done _ hmem with hb | hdone
  · exact hb.elim
  · exact hdone

instance : (l : Label) → Decidable (State.Undisturbed l)
  | .panelStart _ | .panelStop | .logout | .tabClosed _ | .panelToggle _ => isFalse id
  | .status _ | .stable .. | .modes _ | .iconClicked _ | .timer _ | .socketOpen _
  | .socketClose _ | .resume .. => isTrue trivial

instance (st : State) (l : Label) : Decidable (st.NoFailure l) :=
  inferInstanceAs (Decidable (l ≠ .status .failure))

/-- The start of a tab goes on until its first attempt is under way. -/
def triesTab : List Label :=
  [.resume 0 .ok, .resume 0 .ok, .resume 0 .ok, .resume 0 .ok, .resume 0 .ok]

theorem start_complete_fallback : StartComplete 1 .init
    (triesTab ++ [.status .stopped, .resume 0 .failed, .resume 0 .ok, .resume 0 .ok]) :=
  start_complete 1 .init (fun _ h => absurd h List.not_mem_nil) _ (by decide) (by decide)

/-- The first attempt fails with a status, and its handler takes down what the
second needs. -/
theorem start_incomplete :
    let ls := triesTab ++ [.status .failure, .resume 0 .failed, .resume 1 .ok, .resume 1 .ok,
      .resume 1 .ok, .resume 0 .ok, .resume 0 .ok]
    (∀ l ∈ ls, State.Undisturbed l) ∧ ¬ StartComplete 1 .init ls := by
  refine ⟨by decide, fun h => ?_⟩
  obtain ⟨-, -, p, hp, -⟩ := h _ rfl 1 1 (by decide)
  cases hp

end VTranser.ServiceWorker

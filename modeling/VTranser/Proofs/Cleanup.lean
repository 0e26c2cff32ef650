import VTranser.Proofs.Service

/-!
# When a cleanup spares a newer session

A cleanup marks `current` stopped or forgets it, and forgets
`transcriptPersist`, without a look at whose they are by then. A start that
overtakes it loses what it has installed.

Installations are numbered, and a cleanup knows the number of those that were
made before it began. If a start installs the second of its tab and its object
only when every cleanup that waits knows of the first, no cleanup ever meets
both.
-/

namespace VTranser.ServiceWorker

open Run Tasks

/-- What a cleanup knows. -/
def Task.began : Task → Option Nat
  | .cleanup began _ _ => some began
  | .start .. | .relay .. | .connect | .modes .. | .modesOn | .openPanel .. | .closePanel .. => none

namespace State

/-- Since then a start has installed its tab and its object. -/
def Newer (began : Nat) (st : State) : Prop :=
  began < st.session ∧ ∃ k p, st.transcriptPersist = some (k, p) ∧ began < k

/-- `current` is not touched, and the object not forgotten. -/
def Spares (st st' : State) : Prop :=
  st'.current = st.current ∧ (st.transcriptPersist.isSome → st'.transcriptPersist.isSome)

/-- A cleanup that goes on spares what a start has installed since it began. -/
def CleanupSpares (st : State) : Prop :=
  ∀ i r began wait after, st.tasks[i]? = some (Task.cleanup began wait after) → st.Newer began →
    ∀ st' ∈ st.step (.resume i r), st.Spares st'

/-- A start installs its tab or its object only when every cleanup that waits
began after the other of the two was installed. -/
def OvertakesNone (st : State) (r : Reply) : Task → Prop
  | .start _ _ .user => ∀ task ∈ st.tasks, ∀ b ∈ task.began, st.session ≤ b
  | .start _ _ .tab =>
      r = .ok → ∀ task ∈ st.tasks, ∀ b ∈ task.began, ∀ kp ∈ st.transcriptPersist, kp.1 ≤ b
  | _ => True

def NotOvertaken (st : State) : Label → Prop
  | .resume i r => ∀ task ∈ st.tasks[i]?, st.OvertakesNone r task
  | _ => True

/-- What a cleanup may know: all installations, or what another one knows. -/
def Began (st : State) (b : Nat) : Prop := b = st.installs ∨ ∃ task ∈ st.tasks, b ∈ task.began

/-- No cleanup meets a newer session. -/
structure InOrder (st : State) : Prop where
  session : st.session ≤ st.installs
  persist : ∀ k p, st.transcriptPersist = some (k, p) → k ≤ st.installs
  notNewer : ∀ task ∈ st.tasks, ∀ b ∈ task.began, ¬ st.Newer b

variable {st st' : State}

theorem InOrder.not_newer (h : InOrder st) {b : Nat} (hb : st.Began b) : ¬ st.Newer b := by
  rcases hb with rfl | ⟨task, htask, hb⟩
  · exact fun hnew => absurd hnew.1 (Nat.not_lt.mpr h.session)
  · exact h.notNewer task htask b hb

/-! ## Steps that install nothing -/

structure NoInstall (st st' : State) : Prop where
  installs : st'.installs = st.installs
  session : st'.session = st.session
  persist : ∀ k p, st'.transcriptPersist = some (k, p) → ∃ p', st.transcriptPersist = some (k, p')
  began : ∀ task ∈ st'.tasks, ∀ b ∈ task.began, st.Began b

namespace NoInstall

theorem of_tasks (h : st'.tasks = st.tasks) :
    ∀ task ∈ st'.tasks, ∀ b ∈ task.began, st.Began b := by
  intro task htask b hb
  rw [h] at htask
  exact .inr ⟨task, htask, hb⟩

theorem refl : NoInstall st st := ⟨rfl, rfl, fun _ p h => ⟨p, h⟩, of_tasks rfl⟩

theorem trans {st'' : State} (h : NoInstall st st') (h' : NoInstall st' st'') :
    NoInstall st st'' where
  installs := h'.installs.trans h.installs
  session := h'.session.trans h.session
  persist k p hp := by
    obtain ⟨p', hp'⟩ := h'.persist k p hp
    exact h.persist k p' hp'
  began task htask b hb := by
    rcases h'.began task htask b hb with hb | ⟨task', htask', hb⟩
    · exact .inl (hb.trans h.installs)
    · exact h.began task' htask' b hb

theorem of_beside (h : Beside st st') : NoInstall st st' where
  installs := h.installs
  session := h.session
  persist := by
    obtain ⟨f, -, heq⟩ := h.persist
    intro k p hp
    rw [heq] at hp
    obtain ⟨⟨k', p'⟩, hp', heq'⟩ := Option.map_eq_some_iff.mp hp
    rw [← (Prod.mk.inj heq').1]
    exact ⟨p', hp'⟩
  began := by
    obtain ⟨more, htasks, hmore⟩ := h.tasks
    intro task htask b hb
    rw [htasks] at htask
    rcases List.mem_append.mp htask with hmem | hmem
    · exact .inr ⟨task, hmem, hb⟩
    · have hby := hmore task hmem
      cases task with
      | cleanup => exact hby.elim
      | start | relay | connect | modes | modesOn | openPanel | closePanel => cases hb

theorem current (current : Option Current) : NoInstall st { st with current := current } :=
  ⟨rfl, rfl, fun _ p h => ⟨p, h⟩, of_tasks rfl⟩

theorem overlay (overlay : List (Nat × OverlayEvent)) :
    NoInstall st { st with overlay := overlay } :=
  ⟨rfl, rfl, fun _ p h => ⟨p, h⟩, of_tasks rfl⟩

theorem forgets : NoInstall st { st with transcriptPersist := none } :=
  ⟨rfl, rfl, fun _ _ h => (Option.some_ne_none _ h.symm).elim, of_tasks rfl⟩

theorem stopPersist : NoInstall st st.stopPersist where
  installs := rfl
  session := rfl
  persist k p hp := by
    obtain ⟨⟨k', p'⟩, hp', heq⟩ := Option.map_eq_some_iff.mp hp
    rw [← (Prod.mk.inj heq).1]
    exact ⟨p', hp'⟩
  began := of_tasks rfl

theorem addTask {task : Task} (h : ∀ b ∈ task.began, st.Began b) :
    NoInstall st (st.addTask task) where
  installs := rfl
  session := rfl
  persist _ p hp := ⟨p, hp⟩
  began t ht b hb := by
    rcases List.mem_append.mp ht with hmem | hmem
    · exact .inr ⟨t, hmem, hb⟩
    · rw [List.mem_singleton.mp hmem] at hb
      exact h b hb

theorem stopCaptureNow (after : After) : NoInstall st (st.stopCaptureNow after) := by
  refine (current _).trans (addTask fun b hb => .inl ?_)
  cases hcur : st.current.bind (·.tabId) with
  | none =>
      rw [hcur] at hb
      exact (Option.some.inj hb).symm
  | some t =>
      rw [hcur] at hb
      exact (Option.some.inj hb).symm

end NoInstall

/-- A handler goes on and installs nothing. -/
structure OnlyEnds (st : State) (res : State × Option Task) : Prop where
  state : NoInstall st res.1
  next : ∀ task ∈ res.2, ∀ b ∈ task.began, st.Began b

namespace OnlyEnds

theorem waits {task : Task} (h : NoInstall st st') (htask : ∀ b ∈ task.began, st.Began b) :
    OnlyEnds st (st', some task) := by
  refine ⟨h, fun t ht => ?_⟩
  rw [← Option.some.inj ht]
  exact htask

/-- It waits as something else than a cleanup. -/
theorem goes {task : Task} (h : NoInstall st st') (htask : task.began = none) :
    OnlyEnds st (st', some task) := by
  refine waits h fun b hb => ?_
  rw [htask] at hb
  cases hb

theorem ends (h : NoInstall st st') : OnlyEnds st (st', none) :=
  ⟨h, fun task ht => absurd ht (Option.not_mem_none task)⟩

theorem after {res : State × Option Task} (h : NoInstall st st') (h' : OnlyEnds st' res) :
    OnlyEnds st res where
  state := h.trans h'.state
  next task htask b hb := by
    rcases h'.next task htask b hb with hb | ⟨task', htask', hb⟩
    · exact .inl (hb.trans h.installs)
    · exact h.began task' htask' b hb

theorem stopCapture {began : Nat} (after : After) (h : st.Began began) :
    OnlyEnds st ((st.stopCapture began after).1, some (st.stopCapture began after).2) := by
  refine waits (.current _) fun b hb => ?_
  have hb' : began = b := by
    cases hcur : st.current.bind (·.tabId) with
    | none =>
        rw [State.stopCapture, hcur] at hb
        exact Option.some.inj hb
    | some t =>
        rw [State.stopCapture, hcur] at hb
        exact Option.some.inj hb
  rwa [← hb']

theorem failStart : OnlyEnds st st.failStart := by
  rw [State.failStart]
  split
  · exact waits .stopPersist fun b hb => .inl (Option.some.inj hb).symm
  · exact stopCapture _ (.inl rfl)

theorem goOnAfter (after : After) : OnlyEnds st (st.goOnAfter after) := by
  cases after with
  | done => exact ends .refl
  | failure => exact ends ((NoInstall.current _).trans (.of_beside (.tr _)))
  | tabClosed => exact ends ((NoInstall.of_beside (.tr _)).trans (.current none))
  | start tab => exact goes .refl rfl

theorem resumeCleanup {began : Nat} (h : st.Began began) (after : After) (wait : StopWait) :
    OnlyEnds st (st.resumeCleanup began after wait) := by
  have hself : ∀ b ∈ some began, st.Began b := fun b hb => by rwa [← Option.some.inj hb]
  cases wait with
  | reset tab => exact waits (.overlay _) hself
  | removed =>
      have htr : NoInstall st (st.disconnectTranslator true) := .of_beside (.tr _)
      simp only [State.resumeCleanup]
      split
      · exact waits (htr.trans .stopPersist) hself
      · exact .after htr (goOnAfter after)
  | persist => exact .after .forgets (goOnAfter after)
  | caught => exact .after .forgets (stopCapture after h)

theorem captured (tab own : Nat) : OnlyEnds st (st.captured tab own) :=
  goes (.of_beside (.maybeUpdateTranslator false)) rfl

/-- A start goes on, but for the two steps in which it installs something. -/
theorem resumeStart (tab own : Nat) {r : Reply} {wait : StartWait} (huser : wait ≠ .user)
    (htab : wait = .tab → r ≠ .ok) : OnlyEnds st (st.resumeStart tab own r wait) := by
  cases wait with
  | inject =>
      rw [State.resumeStart]
      split
      · exact goes (.overlay _) rfl
      · exact failStart
  | access =>
      rw [State.resumeStart]
      split
      · split
        · exact goes .stopPersist rfl
        · exact goes .refl rfl
      · exact failStart
  | oldPersist => exact goes .refl rfl
  | user => exact absurd rfl huser
  | tab =>
      rw [State.resumeStart, if_neg (htab rfl)]
      exact failStart
  | streamId => exact goes .refl rfl
  | tabAttempt =>
      rw [State.resumeStart]
      split
      · exact captured tab own
      · exact goes .refl rfl
  | displayAttempt =>
      rw [State.resumeStart]
      split
      · exact captured tab own
      · exact failStart
  | captured => exact goes (.current _) rfl
  | mode => exact ends .refl

theorem resumeOpenPanel (tab : Nat) (r : Reply) (wait : PanelWait) :
    OnlyEnds st (st.resumeOpenPanel tab r wait) := by
  cases wait with
  | inject =>
      refine goes ?_ rfl
      split
      · exact .overlay _
      · exact .refl
  | mode => exact goes (.current _) rfl
  | server =>
      rw [State.resumeOpenPanel]
      split
      · exact ends .refl
      · exact stopCapture _ (.inl rfl)

theorem resumeClosePanel (tab : Nat) (removed : Bool) :
    OnlyEnds st (st.resumeClosePanel tab removed) := by
  cases removed with
  | true => exact ends (.current _)
  | false => exact goes (.overlay _) rfl

theorem bystander {task : Task} (htask : task.IsBystander) (r : Reply) :
    OnlyEnds st (st.resume r task) where
  state := .of_beside (beside_resume htask r).1
  next t ht b hb := by
    have hby := (beside_resume htask r).2 t ht
    cases t with
    | cleanup => exact hby.elim
    | start | relay | connect | modes | modesOn | openPanel | closePanel => cases hb

end OnlyEnds

/-! ## Steps -/

theorem InOrder.noInstall (h : InOrder st) (hno : NoInstall st st') : InOrder st' where
  session := by rw [hno.session, hno.installs]; exact h.session
  persist k p hp := by
    obtain ⟨p', hp'⟩ := hno.persist k p hp
    rw [hno.installs]
    exact h.persist k p' hp'
  notNewer := by
    intro task htask b hb hnew
    refine h.not_newer (hno.began task htask b hb) ⟨?_, ?_⟩
    · rw [← hno.session]
      exact hnew.1
    · obtain ⟨k, p, hp, hlt⟩ := hnew.2
      obtain ⟨p', hp'⟩ := hno.persist k p hp
      exact ⟨k, p', hp', hlt⟩

theorem InOrder.onlyEnds (h : InOrder st) {res : State × Option Task} (hres : OnlyEnds st res)
    (i : Nat) : InOrder { res.1 with tasks := goOn res.1.tasks i res.2 } := by
  refine h.noInstall ⟨hres.state.installs, hres.state.session, hres.state.persist, ?_⟩
  exact forall_goOn hres.state.began hres.next

/-- What is installed is new to every cleanup. -/
theorem InOrder.install {i : Nat} {task : Task} (hnone : task.began = none)
    (st' : State) (hsession : st'.session ≤ st'.installs)
    (hpersist : ∀ k p, st'.transcriptPersist = some (k, p) → k ≤ st'.installs)
    (hnew : ∀ task ∈ st.tasks, ∀ b ∈ task.began, ¬ st'.Newer b) :
    InOrder { st' with tasks := goOn st.tasks i (some task) } where
  session := hsession
  persist := hpersist
  notNewer := by
    have hnext : ∀ t ∈ some task, ∀ b ∈ t.began, ¬ st'.Newer b := by
      intro t ht b hb
      rw [← Option.some.inj ht, hnone] at hb
      cases hb
    exact forall_goOn hnew hnext

theorem InOrder.resume (h : InOrder st) {i : Nat} {r : Reply} {task : Task}
    (hi : st.tasks[i]? = some task) (hok : st.OvertakesNone r task) :
    InOrder { (st.resume r task).1 with
      tasks := goOn (st.resume r task).1.tasks i (st.resume r task).2 } := by
  by_cases hby : task.IsBystander
  · exact h.onlyEnds (.bystander hby r) i
  cases task with
  | start tab own wait =>
      by_cases huser : wait = .user
      · subst huser
        refine .install rfl (st.installPersist tab).1 (Nat.le_succ_of_le h.session) ?_ ?_
        · intro k p hp
          rw [← (Prod.mk.inj (Option.some.inj hp)).1]
          exact Nat.le_refl _
        · exact fun t ht b hb hnew => absurd hnew.1 (Nat.not_lt.mpr (hok t ht b hb))
      · by_cases htab : wait = .tab ∧ r = .ok
        · obtain ⟨rfl, rfl⟩ := htab
          refine .install rfl (st.setCurrentStarting tab) (Nat.le_refl _) ?_ ?_
          · exact fun k p hp => Nat.le_succ_of_le (h.persist k p hp)
          · rintro t ht b hb ⟨-, k, p, hp, hlt⟩
            exact absurd hlt (Nat.not_lt.mpr (hok rfl t ht b hb (k, p) hp))
        · exact h.onlyEnds (.resumeStart tab own huser fun hw hr => htab ⟨hw, hr⟩) i
  | cleanup began wait after =>
      have hbegan : st.Began began := .inr ⟨_, List.mem_of_getElem? hi, rfl⟩
      exact h.onlyEnds (.resumeCleanup hbegan after wait) i
  | openPanel tab wait => exact h.onlyEnds (.resumeOpenPanel tab r wait) i
  | closePanel tab removed => exact h.onlyEnds (.resumeClosePanel tab removed) i
  | relay | connect | modes | modesOn => exact absurd trivial hby

theorem InOrder.step (h : InOrder st) {l : Label} (hok : st.NotOvertaken l)
    (hstep : st.step l = some st') : InOrder st' := by
  have hadd : ∀ {task : Task}, task.began = none → InOrder (st.addTask task) := by
    intro task hnone
    refine h.noInstall (.addTask fun b hb => ?_)
    rw [hnone] at hb
    cases hb
  have hstop : ∀ after, InOrder (st.stopCaptureNow after) :=
    fun after => h.noInstall (.stopCaptureNow after)
  cases l with
  | panelStart tab =>
      injection hstep with hstep
      rw [← hstep, panelStart]
      split
      · exact hstop _
      · exact hadd rfl
  | panelStop =>
      injection hstep with hstep
      rw [← hstep]
      exact hstop _
  | logout =>
      injection hstep with hstep
      rw [← hstep]
      split
      · exact hstop _
      · exact h
  | tabClosed tab =>
      injection hstep with hstep
      rw [← hstep]
      split
      · exact hstop _
      · exact h
  | status s =>
      injection hstep with hstep
      rw [← hstep]
      cases s with
      | running | stopped => exact h.noInstall (.current _)
      | failure => exact hstop _
      | other => exact h
  | panelToggle tab =>
      injection hstep with hstep
      rw [← hstep, panelToggle]
      split
      · exact hadd rfl
      · exact hadd rfl
  | iconClicked tab =>
      injection hstep with hstep
      rw [← hstep]
      exact h.noInstall (.current _)
  | stable | modes | timer | socketOpen | socketClose =>
      exact h.noInstall (.of_beside (beside_step hstep trivial))
  | resume i r =>
      obtain ⟨task, hi, rfl⟩ := step_resume hstep
      exact h.resume hi (hok task hi)

/-! ## A start that overtakes a cleanup -/

/-- A cleanup waits that a newer session will not survive. -/
def Doomed (st : State) : Prop :=
  ∃ (i b : Nat) (wait : StopWait) (after : After),
    st.tasks[i]? = some (.cleanup b wait after) ∧ st.Newer b

theorem InOrder.doomed (h : InOrder st) {l : Label} (hnot : ¬ st.NotOvertaken l)
    (hstep : st.step l = some st') : st'.Doomed := by
  have hfind : ∀ {i : Nat} {tab own own' : Nat} {wait wait' : StartWait} {task : Task} {b : Nat},
      st.tasks[i]? = some (.start tab own wait) → task ∈ st.tasks → b ∈ task.began →
        st'.tasks = goOn st.tasks i (some (.start tab own' wait')) → st'.Newer b → st'.Doomed := by
    intro i tab own own' wait wait' task b hi hmem hb htasks hnew
    cases task with
    | cleanup b' wait after =>
        rw [← Option.some.inj hb] at hnew
        have hmem' : Task.cleanup b' wait after ∈ st'.tasks := by
          rw [htasks]
          exact mem_goOn_of_ne hi hmem Task.noConfusion _
        obtain ⟨j, hj⟩ := List.mem_iff_getElem?.mp hmem'
        exact ⟨j, b', wait, after, hj, hnew⟩
    | start | relay | connect | modes | modesOn | openPanel | closePanel => cases hb
  cases l with
  | resume i r =>
      obtain ⟨task, hi, rfl⟩ := step_resume hstep
      have hnot : ¬ st.OvertakesNone r task := fun hok => hnot fun t ht => by
        rwa [← Option.some.inj (hi.symm.trans ht)]
      cases task with
      | start tab own wait =>
          cases wait with
          | user =>
              simp only [OvertakesNone, not_forall, Nat.not_le] at hnot
              obtain ⟨task, hmem, b, hb, hlt⟩ := hnot
              have hb' : b < st.installs + 1 :=
                Nat.lt_succ_of_le (Nat.le_of_lt (Nat.lt_of_lt_of_le hlt h.session))
              exact hfind hi hmem hb rfl ⟨hlt, st.installs + 1, .init, rfl, hb'⟩
          | tab =>
              simp only [OvertakesNone, not_forall, Nat.not_le] at hnot
              obtain ⟨rfl, task, hmem, b, hb, ⟨k, p⟩, hp, hlt⟩ := hnot
              have hb' : b < st.installs + 1 :=
                Nat.lt_succ_of_le (Nat.le_of_lt (Nat.lt_of_lt_of_le hlt (h.persist k p hp)))
              exact hfind hi hmem hb rfl ⟨hb', k, p, hp, hlt⟩
          | inject | access | oldPersist | streamId | tabAttempt | displayAttempt | captured
          | mode => exact absurd trivial hnot
      | cleanup | relay | connect | modes | modesOn | openPanel | closePanel =>
          exact absurd trivial hnot
  | panelStart | panelStop | logout | tabClosed | status | stable | modes | panelToggle
  | iconClicked | timer | socketOpen | socketClose => exact absurd trivial hnot

/-- The cleanup goes on and leaves nothing. -/
theorem harms_last {i b : Nat} {wait : StopWait} {after : After}
    (hi : st.tasks[i]? = some (.cleanup b wait after)) (hnew : st.Newer b)
    (hwait : wait = .persist ∨ wait = .caught) : ¬ CleanupSpares st := by
  intro hspares
  have hstep : st.step (.resume i .ok) = some _ := congrArg (Option.map _) hi
  obtain ⟨-, hkept⟩ := hspares i .ok b wait after hi hnew _ hstep
  obtain ⟨k, p, hp, -⟩ := hnew.2
  have hgone : (st.resumeCleanup b after wait).1.transcriptPersist = none := by
    rcases hwait with rfl | rfl
    · cases after <;> rfl
    · rfl
  have hsome : (st.resumeCleanup b after wait).1.transcriptPersist.isSome :=
    hkept (by rw [hp]; rfl)
  rw [hgone] at hsome
  cases hsome

/-- The cleanup goes on and waits again. -/
theorem harms_next {i b : Nat} {wait wait' : StopWait} {after : After} {st₁ : State}
    (hi : st.tasks[i]? = some (.cleanup b wait after))
    (hres : st.resumeCleanup b after wait = (st₁, some (.cleanup b wait' after)))
    (htasks : st₁.tasks = st.tasks) :
    let st' := { st₁ with tasks := st.tasks.set i (.cleanup b wait' after) }
    st.step (.resume i .ok) = some st' ∧ st'.tasks[i]? = some (.cleanup b wait' after) := by
  refine ⟨?_, List.getElem?_set_self (List.getElem?_eq_some_iff.mp hi).1⟩
  show Option.map _ _ = _
  rw [hi, ← htasks]
  show some _ = some _
  simp only [State.resume, hres]
  rfl

/-- The transcript is written out before the object is forgotten. -/
theorem harms_removed {i b : Nat} {after : After}
    (hi : st.tasks[i]? = some (.cleanup b .removed after)) (hnew : st.Newer b) :
    ∃ ls, ∃ st' ∈ run step st ls, ¬ CleanupSpares st' := by
  obtain ⟨hsession, k, p, hp, hlt⟩ := hnew
  have hsome : (st.disconnectTranslator true).transcriptPersist.isSome := by
    show st.transcriptPersist.isSome
    rw [hp]
    rfl
  have hres : st.resumeCleanup b after .removed =
      ((st.disconnectTranslator true).stopPersist, some (.cleanup b .persist after)) := if_pos hsome
  obtain ⟨hstep, hi'⟩ := harms_next hi hres rfl
  refine ⟨[.resume i .ok], _, run_cons_some.mpr ⟨_, hstep, rfl⟩, harms_last hi' ?_ (.inl rfl)⟩
  refine ⟨hsession, k, { p with stopped := true }, ?_, hlt⟩
  show st.transcriptPersist.map _ = _
  rw [hp]
  rfl

theorem Doomed.harms (h : st.Doomed) : ∃ ls, ∃ st' ∈ run step st ls, ¬ CleanupSpares st' := by
  obtain ⟨i, b, wait, after, hi, hnew⟩ := h
  cases wait with
  | reset tab =>
      obtain ⟨hstep, hi'⟩ := harms_next hi rfl rfl
      obtain ⟨ls, st', hrun, hharm⟩ := harms_removed hi' hnew
      exact ⟨.resume i .ok :: ls, st', run_cons_some.mpr ⟨_, hstep, hrun⟩, hharm⟩
  | removed => exact harms_removed hi hnew
  | persist => exact ⟨[], st, rfl, harms_last hi hnew (.inl rfl)⟩
  | caught => exact ⟨[], st, rfl, harms_last hi hnew (.inr rfl)⟩

end State

/-! ## Runs -/

/-- No cleanup harms a newer session while no start overtakes one, and the first
start that does can lose what it has installed. -/
theorem cleanup_spares (ls : List Label)
    (hok : Guarded State.step State.NotOvertaken .init ls) :
    ∀ st ∈ run State.step .init ls, st.CleanupSpares ∧
      ∀ l, ¬ st.NotOvertaken l → ∀ st' ∈ st.step l,
        ∃ ls', ∃ st'' ∈ run State.step st' ls', ¬ st''.CleanupSpares := by
  intro st hrun
  have hinit : State.InOrder .init :=
    ⟨Nat.le_refl 0, fun _ _ h => (Option.some_ne_none _ h.symm).elim,
      fun _ h => absurd h List.not_mem_nil⟩
  have horder : st.InOrder :=
    run_guarded (fun _ _ _ h hok hstep => h.step hok hstep) hinit hok hrun
  refine ⟨?_, fun l hnot st' hstep => (horder.doomed hnot hstep).harms⟩
  intro i r began wait after hi hnew
  exact absurd hnew (horder.notNewer _ (List.mem_of_getElem? hi) began rfl)

instance (st : State) (r : Reply) : (task : Task) → Decidable (st.OvertakesNone r task)
  | .start _ _ .user =>
      inferInstanceAs (Decidable (∀ task ∈ st.tasks, ∀ b ∈ task.began, st.session ≤ b))
  | .start _ _ .tab =>
      inferInstanceAs (Decidable (r = .ok → ∀ task ∈ st.tasks, ∀ b ∈ task.began,
        ∀ kp ∈ st.transcriptPersist, kp.1 ≤ b))
  | .start _ _ .inject | .start _ _ .access | .start _ _ .oldPersist | .start _ _ .streamId
  | .start _ _ .tabAttempt | .start _ _ .displayAttempt | .start _ _ .captured
  | .start _ _ .mode | .cleanup .. | .relay .. | .connect | .modes .. | .modesOn | .openPanel ..
  | .closePanel .. => isTrue trivial

instance (st : State) : (l : Label) → Decidable (st.NotOvertaken l)
  | .resume i r => inferInstanceAs (Decidable (∀ task ∈ st.tasks[i]?, st.OvertakesNone r task))
  | .panelStart _ | .panelStop | .logout | .tabClosed _ | .status _ | .stable .. | .modes _
  | .panelToggle _ | .iconClicked _ | .timer _ | .socketOpen _ | .socketClose _ => isTrue trivial

/-- Tab 1 is captured. -/
def captures : List Label := .panelStart 1 :: List.replicate 8 (.resume 0 .ok)

/-- The capture is stopped, and all of it is cleaned up. -/
def stops : List Label := .panelStop :: List.replicate 3 (.resume 0 .ok)

/-- It is started again when all is cleaned up. -/
theorem cleanup_spares_restart :
    ∃ st ∈ run State.step .init (captures ++ stops ++ captures ++ [.panelStop]),
      st.CleanupSpares :=
  ⟨_, rfl, (cleanup_spares (captures ++ stops ++ captures ++ [.panelStop]) (by decide) _ rfl).1⟩

/-- The cleanup still waits for the object when the tab is started again. -/
theorem cleanup_harms :
    ∃ st ∈ run State.step .init (captures ++ [.panelStop, .resume 0 .ok, .resume 0 .ok] ++
      (.panelStart 1 :: List.replicate 5 (.resume 1 .ok))), ¬ st.CleanupSpares := by
  refine ⟨_, rfl, fun h => ?_⟩
  have hspares := h 0 .ok 2 .persist .done rfl ⟨by decide, 3, .init, rfl, by decide⟩ _ rfl
  exact absurd (hspares.2 rfl) Bool.false_ne_true

end VTranser.ServiceWorker

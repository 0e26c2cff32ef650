import VTranser.Proofs.Moves

/-!
# When the translator has a socket

`connectTranslator` looks at `shouldTranslateNow` before it waits, and makes its
socket after that without a second look. A connection that is under way when the
translation ends gets its socket all the same, and nothing closes it.

There is never more than one socket. If the translation does not end while a
connection is under way, a socket is made only when it is wanted.
-/

namespace VTranser.ServiceWorker

open Run Tasks ServiceWorker.Translator

namespace State

/-- The translation does not end while a connection is under way. -/
def NotWhileConnecting (st : State) (l : Label) : Prop :=
  st.shouldTranslateNow → Task.connect ∈ st.tasks → ∀ st' ∈ st.step l, st'.shouldTranslateNow = true

/-- A socket is made only when it is wanted. -/
def OnlyWhenWanted (st : State) : Prop :=
  ∀ l, ∀ st' ∈ st.step l, st'.tr.made ≠ st.tr.made → st.shouldTranslateNow = true

/-- The forced disconnect of `stopCapture`, or of the handler that switches
the translation off. -/
def CutsOff (st : State) : Label → Prop
  | .resume i _ => ∃ task ∈ st.tasks[i]?,
      (∃ began after, task = .cleanup began .removed after) ∨
        (∃ tab, task = .modes true tab) ∧ st.wantTranslateVI = false
  | .modes vi => vi = false ∧ st.wantTranslateVI ∧ st.current.bind (·.tabId) = none
  | _ => False

structure Wanted (st : State) : Prop where
  socket : st.tr.OneSocket
  connect : .connect ∈ st.tasks → st.shouldTranslateNow = true

variable {st st' : State}

/-! ## Steps -/

/-- What a step does to the sockets and to the connections under way. -/
inductive SocketStep (st st' : State) : Prop
  | plain (tr : Touches st.tr st'.tr)
      (tasks : .connect ∈ st'.tasks → .connect ∈ st.tasks ∨ st'.shouldTranslateNow = true)
  | keeps (made : st'.tr.made = st.tr.made) (sockets : st'.tr.sockets = st.tr.sockets)
      (transWs : st'.tr.transWs = st.tr.transWs) (tasks : .connect ∈ st'.tasks → .connect ∈ st.tasks)
  | socket (connecting : .connect ∈ st.tasks)
      (tr : st'.tr = (st.tr.disconnect false).newSocket)
      (tasks : .connect ∈ st'.tasks → .connect ∈ st.tasks)

theorem socketStep_of_moves (h : Moves st st') : SocketStep st st' := by
  obtain ⟨more, htasks, hmore⟩ := h.tasks
  refine .plain h.tr fun hmem => ?_
  rw [htasks] at hmem
  exact (List.mem_append.mp hmem).imp_right fun h => (hmore _ h).2 rfl

theorem socketStep_of_goesOn {cuts : Prop} {res : State × Option Task} (h : GoesOn cuts st res)
    (i : Nat) :
    SocketStep st { res.1 with tasks := goOn res.1.tasks i res.2 } := by
  obtain ⟨more, htasks, hmore⟩ := h.tasks
  refine .plain h.tr fun hmem => ?_
  rcases mem_goOn (hmem : _ ∈ goOn _ i _) with hmem | hmem
  · rw [htasks] at hmem
    exact (List.mem_append.mp hmem).imp_right fun h => (hmore _ h).2 rfl
  · exact absurd rfl (h.next _ hmem).2

theorem socketStep {l : Label} (hstep : st.step l = some st') : SocketStep st st' := by
  cases step_takes hstep with
  | moves hm => exact socketStep_of_moves hm
  | @stable session msg =>
      rw [stable]
      split
      · refine .keeps rfl rfl rfl fun hmem => ?_
        rcases List.mem_append.mp hmem with hmem | hmem
        · exact hmem
        · exact absurd (List.mem_singleton.mp hmem) Task.noConfusion
      · exact .keeps rfl rfl rfl id
  | stopped => exact .keeps rfl rfl rfl id
  | @goesOn i r task hi htask => exact socketStep_of_goesOn (goesOn_resume htask) i
  | @relay i r session prev msg hi =>
      have herase : Task.connect ∈ st.tasks.eraseIdx i → Task.connect ∈ st.tasks :=
        List.mem_of_mem_eraseIdx
      simp only [resumeRelay]
      split
      · obtain ⟨seq, sent, hfeed, -⟩ := feed_spec msg.toStable
          { st.tr with lastEnStable := msg.toStable }
        rw [hfeed]
        exact .keeps rfl rfl rfl herase
      · exact .keeps rfl rfl rfl herase
  | connect hi => exact .socket (List.mem_of_getElem? hi) rfl List.mem_of_mem_eraseIdx
  | @starting i tab own hi =>
      refine .keeps rfl rfl rfl fun hmem => ?_
      have hmem : Task.connect ∈ goOn st.tasks i (some (.start tab own .streamId)) := hmem
      rcases mem_goOn hmem with hmem | hmem
      · exact hmem
      · exact absurd (Option.some.inj hmem) Task.noConfusion

theorem SocketStep.oneSocket (h : SocketStep st st') (hone : st.tr.OneSocket) :
    st'.tr.OneSocket := by
  cases h with
  | plain tr => exact tr.oneSocket hone
  | keeps _ sockets transWs =>
      exact ⟨by rw [sockets]; exact hone.length, by rw [sockets, transWs]; exact hone.own⟩
  | socket _ tr =>
      rw [tr]
      have hnil : (st.tr.disconnect false).sockets = [] := hone.disconnect false
      refine ⟨?_, fun s hs => ?_⟩
      · rw [newSocket, hnil]
        exact Nat.le_refl 1
      · rw [newSocket, hnil] at hs
        rw [List.mem_singleton.mp hs]
        rfl

theorem SocketStep.connect (h : SocketStep st st') (hmem : .connect ∈ st'.tasks) :
    .connect ∈ st.tasks ∨ st'.shouldTranslateNow = true := by
  cases h with
  | plain _ tasks => exact tasks hmem
  | keeps _ _ _ tasks => exact .inl (tasks hmem)
  | socket _ _ tasks => exact .inl (tasks hmem)

theorem Wanted.step (h : Wanted st) {l : Label} (hok : st.NotWhileConnecting l)
    (hstep : st.step l = some st') : Wanted st' := by
  have hsocket := socketStep hstep
  refine ⟨hsocket.oneSocket h.socket, fun hmem => ?_⟩
  rcases hsocket.connect hmem with hmem | hshould
  · exact hok (h.connect hmem) hmem st' hstep
  · exact hshould

/-- A socket is made by a connection that was under way. -/
theorem connecting_of_made {l : Label} (hstep : st.step l = some st')
    (hmade : st'.tr.made ≠ st.tr.made) : .connect ∈ st.tasks := by
  cases socketStep hstep with
  | plain tr => exact absurd tr.made hmade
  | keeps made => exact absurd made hmade
  | socket connecting => exact connecting

theorem Wanted.onlyWhenWanted (h : Wanted st) : st.OnlyWhenWanted :=
  fun _ _ hstep hmade => h.connect (connecting_of_made hstep hmade)

/-! ## Disconnects -/

theorem CutsOff.sockets (hone : st.tr.OneSocket) {l : Label} (h : st.CutsOff l)
    (hstep : st.step l = some st') : st'.tr.sockets = [] := by
  have hnil : (st.tr.disconnect true).sockets = [] := hone.disconnect true
  cases l with
  | resume i r =>
      obtain ⟨task, hi, rfl⟩ := step_resume hstep
      obtain ⟨task', hi', hcut⟩ := h
      obtain rfl := Option.some.inj (hi.symm.trans hi')
      rcases hcut with ⟨began, after, rfl⟩ | ⟨⟨tab, rfl⟩, hwant⟩
      · show (st.resumeCleanup began after .removed).1.tr.sockets = []
        simp only [resumeCleanup]
        split
        · exact hnil
        · exact (GoesOn.goOnAfter after).tr.sockets_nil hnil
      · show (st.afterModes true (some tab)).1.tr.sockets = []
        simp only [afterModes, hwant, maybeUpdateTranslator]
        exact hnil
  | modes vi =>
      injection hstep with hstep
      obtain ⟨rfl, hwant, htab⟩ := h
      rw [← hstep]
      simp only [modes, htab, hwant, afterModes, maybeUpdateTranslator]
      exact hnil
  | panelStart | panelStop | logout | tabClosed | status | stable | panelToggle | iconClicked
  | timer | socketOpen | socketClose => exact h.elim

/-- While it is not wanted, there is none. -/
theorem Wanted.closed (h : Wanted st) (hnil : st.tr.sockets = []) {l : Label}
    (hoff : ¬ st.shouldTranslateNow) (hstep : st.step l = some st') : st'.tr.sockets = [] := by
  cases socketStep hstep with
  | plain tr => exact tr.sockets_nil hnil
  | keeps _ sockets => rw [sockets, hnil]
  | socket connecting => exact absurd (h.connect connecting) hoff

/-! ## A step that ends the translation too early -/

theorem resumeConnect_should (r : Reply) :
    (st.resumeConnect r).shouldTranslateNow = st.shouldTranslateNow := by
  refine shouldTranslateNow_congr (Beside.resumeConnect r).current ?_
  simp only [resumeConnect, scheduleTranslatorReconnect]
  split
  · rfl
  · split <;> rfl

/-- Only a connection that goes on is no longer under way. -/
theorem connecting_step {l : Label} (hstep : st.step l = some st') (hmem : .connect ∈ st.tasks) :
    .connect ∈ st'.tasks ∨ st'.shouldTranslateNow = st.shouldTranslateNow := by
  have hother : ∀ {i : Nat} {task : Task} {tasks : List Task}, st.tasks[i]? = some task →
      task ≠ .connect → (∃ more, tasks = st.tasks ++ more) → ∀ next,
        Task.connect ∈ goOn tasks i next := by
    rintro i task tasks hi hne ⟨more, rfl⟩ next
    have hi' : (st.tasks ++ more)[i]? = some task := by
      rw [List.getElem?_append_left (List.getElem?_eq_some_iff.mp hi).1, hi]
    exact mem_goOn_of_ne hi' (List.mem_append_left more hmem) hne.symm next
  cases step_takes hstep with
  | moves hm =>
      obtain ⟨more, htasks, -⟩ := hm.tasks
      rw [htasks]
      exact .inl (List.mem_append_left more hmem)
  | @stable session msg =>
      rw [stable]
      split
      · exact .inl (List.mem_append_left _ hmem)
      · exact .inl hmem
  | stopped => exact .inl hmem
  | @goesOn i r task hi htask =>
      by_cases hconnect : task = .connect
      · subst hconnect
        exact .inr (resumeConnect_should r)
      · obtain ⟨more, htasks, -⟩ := (goesOn_resume htask).tasks
        exact .inl (hother hi hconnect ⟨more, htasks⟩ _)
  | @relay i r session prev msg hi =>
      refine .inl (hother hi Task.noConfusion ⟨[], ?_⟩ none)
      simp only [resumeRelay, List.append_nil]
      split <;> rfl
  | connect => exact .inr (resumeConnect_should .ok)
  | @starting i tab own hi =>
      exact .inl (hother hi Task.noConfusion ⟨[], (List.append_nil _).symm⟩
        (some (.start tab own .streamId)))

/-- The connection that is under way makes its socket next. -/
theorem harms_of_not {l : Label} (hnot : ¬ st.NotWhileConnecting l) :
    ∃ st' ∈ st.step l, ¬ st'.OnlyWhenWanted := by
  simp only [NotWhileConnecting, not_forall] at hnot
  obtain ⟨hshould, hmem, st', hstep, hoff⟩ := hnot
  refine ⟨st', hstep, fun honly => hoff ?_⟩
  have hmem' : .connect ∈ st'.tasks := by
    refine (connecting_step hstep hmem).resolve_right fun heq => hoff ?_
    rw [heq]
    exact hshould
  obtain ⟨j, hj⟩ := List.mem_iff_getElem?.mp hmem'
  have hsocket : st'.step (.resume j .ok) = some _ := congrArg (Option.map _) hj
  refine honly _ _ hsocket ?_
  exact Nat.succ_ne_self st'.tr.made

end State

/-! ## Runs -/

/-- After a forced disconnect there is no socket until it is wanted again. -/
def StaysClosed (ls : List Label) (st : State) : Prop :=
  ∀ ls₁ l ls₂, ls = ls₁ ++ l :: ls₂ → ∀ st₁ ∈ run State.step .init ls₁, st₁.CutsOff l →
    ∀ st₂ ∈ st₁.step l, Guarded State.step (fun st _ => ¬ st.shouldTranslateNow) st₂ ls₂ →
      st.tr.sockets = []

theorem wanted_of_run {ls : List Label} (hok : Guarded State.step State.NotWhileConnecting .init ls)
    {st : State} (hrun : run State.step .init ls = some st) : st.Wanted := by
  have hinit : State.Wanted .init := ⟨.of_nil rfl, fun h => absurd h List.not_mem_nil⟩
  exact run_guarded (fun _ _ _ h hok hstep => h.step hok hstep) hinit hok hrun

theorem staysClosed_of_run {ls : List Label}
    (hok : Guarded State.step State.NotWhileConnecting .init ls) {st : State}
    (hrun : run State.step .init ls = some st) : StaysClosed ls st := by
  rintro ls₁ l ls₂ rfl st₁ hrun₁ hcut st₂ hstep hoff
  obtain ⟨hok₁, hok₂⟩ := guarded_append.mp hok
  have hwanted : st₁.Wanted := wanted_of_run hok₁ hrun₁
  have hok₂ := hok₂ st₁ hrun₁
  have hrun₂ : run State.step st₂ ls₂ = some st := by
    obtain ⟨st₁', hrun₁', hrest⟩ := run_append.mp hrun
    obtain rfl := Option.some.inj (hrun₁.symm.trans hrun₁')
    obtain ⟨st₂', hstep', hrest⟩ := run_cons_some.mp hrest
    obtain rfl := Option.some.inj (hstep.symm.trans hstep')
    exact hrest
  have hpreserves : ∀ st l st', st.Wanted ∧ st.tr.sockets = [] →
      st.NotWhileConnecting l ∧ ¬ st.shouldTranslateNow → State.step st l = some st' →
        st'.Wanted ∧ st'.tr.sockets = [] :=
    fun _ _ _ h hok hstep => ⟨h.1.step hok.1 hstep, h.1.closed h.2 hok.2 hstep⟩
  have hstart : st₂.Wanted ∧ st₂.tr.sockets = [] :=
    ⟨hwanted.step hok₂.1 hstep, hcut.sockets hwanted.socket hstep⟩
  exact (run_guarded hpreserves hstart ((hok₂.2 st₂ hstep).and hoff) hrun₂).2

/-- There is one socket at most, it is made only when it is wanted and does not
come back, while the translation ends only when no connection is under way; and
the first step that ends it earlier can leave a socket behind. -/
theorem socket_onlyWhenWanted (ls : List Label)
    (hok : Guarded State.step State.NotWhileConnecting .init ls) :
    ∀ st ∈ run State.step .init ls,
      st.tr.sockets.length ≤ 1 ∧ st.OnlyWhenWanted ∧ StaysClosed ls st ∧
        ∀ l, ¬ st.NotWhileConnecting l → ∃ st' ∈ st.step l, ¬ st'.OnlyWhenWanted := by
  intro st hrun
  have hwanted : st.Wanted := wanted_of_run hok hrun
  exact ⟨hwanted.socket.length, hwanted.onlyWhenWanted, staysClosed_of_run hok hrun,
    fun l hnot => State.harms_of_not hnot⟩

instance (st : State) (l : Label) : Decidable (st.NotWhileConnecting l) :=
  inferInstanceAs (Decidable (st.shouldTranslateNow → Task.connect ∈ st.tasks →
    ∀ st' ∈ st.step l, st'.shouldTranslateNow = true))

/-- The translation is switched on, and tab 1 is captured: the start and a
connection are under way. -/
def connects : List Label := .modes true :: .panelStart 1 :: List.replicate 6 (.resume 0 .ok)

theorem socket_onlyWhenWanted_stop :
    ∃ st ∈ run State.step .init (connects ++ [.resume 1 .ok, .panelStop]), st.OnlyWhenWanted :=
  ⟨_, rfl, (socket_onlyWhenWanted (connects ++ [.resume 1 .ok, .panelStop]) (by decide) _ rfl).2.1⟩

/-- The capture is stopped while the connection is under way: its socket comes
after the forced disconnect, and stays. -/
theorem socket_unwanted :
    (∃ st ∈ run State.step .init
        (connects ++ [.panelStop, .resume 2 .ok, .resume 2 .ok]), ¬ st.OnlyWhenWanted) ∧
      ∃ st ∈ run State.step .init
        (connects ++ [.panelStop, .resume 2 .ok, .resume 2 .ok, .resume 1 .ok]),
        st.shouldTranslateNow = false ∧ st.tr.sockets ≠ [] := by
  refine ⟨⟨_, rfl, fun h => ?_⟩, _, rfl, by decide, by decide⟩
  have hwanted := h (.resume 1 .ok) _ rfl (by decide)
  exact absurd hwanted (by decide)

end VTranser.ServiceWorker

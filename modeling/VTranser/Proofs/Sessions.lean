import VTranser.Proofs.Moves

/-!
# When sessions are kept apart

The number of the last stable text that was sent, and the text itself, are reset
only in a forced disconnect. A session that ends with the share of the tab, or
with a start on top of it, leaves them behind, and so does a text that is still
on its way to the overlay when the session is cleaned up.

If every session ends in a cleanup before the next one starts, nothing of it is
left when nothing is captured and no cleanup is on its way (`Apart.off`).
-/

namespace VTranser.ServiceWorker

open Run Tasks ServiceWorker.Translator

/-- The number that came before the text of a relay, and its own. -/
def Task.seqs : Task → Option (Int × Int)
  | .relay _ prev msg => some (prev, msg.toStable.seq)
  | .start .. | .cleanup .. | .connect | .modes .. | .modesOn | .openPanel .. | .closePanel .. =>
      none

namespace State

/-- Nothing is left of a session. -/
structure Clean (st : State) : Prop where
  forgotten : st.tr.Forgotten
  relays : ∀ task ∈ st.tasks, ¬ task.IsRelay

/-- The handlers go on in such an order, and the capture stops and starts so,
that no session has anything to do with another. -/
def HandlerApart (st : State) (i : Nat) (r : Reply) : Task → Prop
  | .start _ _ .tab => r = .ok → st.isOn ∨ (∃ task ∈ st.tasks, task.IsEarly) → st.Clean
  | .cleanup _ .removed _ | .cleanup _ .persist _ => ∀ task ∈ st.tasks, ¬ task.IsRelay
  | .relay .. => ∀ task ∈ st.tasks.take i, ¬ task.IsRelay
  | _ => True

def KeepsApart (st : State) : Label → Prop
  | .status .stopped => st.isOn → (∃ task ∈ st.tasks, task.IsEarly) ∨ st.Clean
  | .stable session _ => st.isOn → session = st.session
  | .resume i r => ∀ task ∈ st.tasks[i]?, st.HandlerApart i r task
  | _ => True

/-- A stable text of the session that is newer than all before it is sent when
the translation is wanted and the socket open. -/
def SentWhenNewer (st : State) : Prop :=
  ∀ i r prev msg k, st.tasks[i]? = some (.relay st.session prev msg) → prev < msg.toStable.seq →
    st.shouldTranslateNow → st.tr.openWs = some k →
      ∀ st' ∈ st.step (.resume i r), st'.tr.sent = st.tr.sent ++ [(k, .stable msg.toStable)]

/-- The kept text is of the session. -/
def OwnText (st : State) : Prop := st.tr.lastEnStable.full ≠ [] → st.lastEnOf = st.session

/-- The numbers of the texts on their way to the overlay. -/
def waiting (st : State) : List (Int × Int) := st.tasks.filterMap Task.seqs

structure Apart (st : State) : Prop where
  own : st.OwnText
  relays : ∀ session prev msg, .relay session prev msg ∈ st.tasks → session = st.session
  off : st.isOn ∨ (∃ task ∈ st.tasks, task.IsEarly) ∨ st.Clean
  neg : -1 ≤ st.tr.lastSentStableSeq
  last : st.tr.lastSentStableSeq ≤ st.highest
  low : ∀ w ∈ st.waiting, st.tr.lastSentStableSeq ≤ w.1 ∧ w.2 ≤ st.highest
  ordered : st.waiting.Pairwise fun w w' => w.2 ≤ w'.1

variable {st st' : State}

theorem seqs_none {task : Task} (h : ¬ task.IsRelay) : task.seqs = none := by
  cases task with
  | relay => exact absurd trivial h
  | start | cleanup | connect | modes | modesOn | openPanel | closePanel => rfl

/-! ## Handlers that pass on nothing -/

/-- What they leave as it is. -/
structure Silent (st st' : State) : Prop where
  memory : st'.tr.Forgotten ∨ st'.tr.lastSentStableSeq = st.tr.lastSentStableSeq ∧
    st'.tr.lastEnStable = st.tr.lastEnStable
  session : st'.session = st.session
  highest : st'.highest = st.highest
  lastEnOf : st'.lastEnOf = st.lastEnOf
  relays : ∀ task ∈ st'.tasks, task.IsRelay → task ∈ st.tasks
  waiting : st'.waiting.Sublist st.waiting

theorem Silent.forgotten (h : Silent st st') (hforgot : st.tr.Forgotten) : st'.tr.Forgotten := by
  rcases h.memory with hforgot' | ⟨hseq, hstable⟩
  · exact hforgot'
  · exact ⟨hseq.trans hforgot.1, by rw [hstable, hforgot.2]⟩

theorem Silent.clean (h : Silent st st') (hclean : st.Clean) : st'.Clean :=
  ⟨h.forgotten hclean.forgotten, fun task htask hrelay =>
    hclean.relays task (h.relays task htask hrelay) hrelay⟩

theorem Apart.silent (h : Apart st) (hs : Silent st st')
    (hoff : st'.isOn ∨ (∃ task ∈ st'.tasks, task.IsEarly) ∨ st'.Clean) : Apart st' := by
  have hlast : st'.tr.lastSentStableSeq = -1 ∨
      st'.tr.lastSentStableSeq = st.tr.lastSentStableSeq :=
    hs.memory.imp (·.lastSentStableSeq) (·.1)
  have hneg := h.neg
  refine ⟨fun hfull => ?_, fun session prev msg hmem => ?_, hoff, ?_, ?_, fun w hw => ?_, ?_⟩
  · rcases hs.memory with hforgot | ⟨-, hstable⟩
    · exact absurd hforgot.lastEnStable hfull
    · rw [hs.lastEnOf, hs.session]
      rw [hstable] at hfull
      exact h.own hfull
  · rw [hs.session]
    exact h.relays session prev msg (hs.relays _ hmem trivial)
  · omega
  · have hlast' := h.last
    rw [hs.highest]
    omega
  · have hlow := h.low w (hs.waiting.subset hw)
    rw [hs.highest]
    omega
  · exact h.ordered.sublist hs.waiting

theorem filterMap_seqs_none {more : List Task} (h : ∀ task ∈ more, ¬ task.IsRelay) :
    more.filterMap Task.seqs = [] :=
  List.filterMap_eq_nil_iff.mpr fun task htask => seqs_none (h task htask)

theorem silent_of_moves (h : Moves st st') : Silent st st' := by
  obtain ⟨more, htasks, hmore⟩ := h.tasks
  refine ⟨h.tr.memory, h.session, h.highest, h.lastEnOf, fun task htask hrelay => ?_, ?_⟩
  · rw [htasks] at htask
    exact (List.mem_append.mp htask).resolve_right fun hmem => (hmore task hmem).1 hrelay
  · rw [waiting, htasks, List.filterMap_append, filterMap_seqs_none fun t ht => (hmore t ht).1,
      List.append_nil]
    exact List.Sublist.refl _

theorem silent_of_goesOn {cuts : Prop} {res : State × Option Task} (h : GoesOn cuts st res)
    (i : Nat) : Silent st { res.1 with tasks := goOn res.1.tasks i res.2 } := by
  obtain ⟨more, htasks, hmore⟩ := h.tasks
  refine ⟨h.tr.memory, h.session, h.highest, h.lastEnOf, fun task htask hrelay => ?_, ?_⟩
  · rcases mem_goOn (htask : task ∈ goOn _ i _) with hmem | hmem
    · rw [htasks] at hmem
      exact (List.mem_append.mp hmem).resolve_right fun hmem => (hmore task hmem).1 hrelay
    · exact absurd hrelay (h.next task hmem).1
  · have hsub : ((goOn res.1.tasks i res.2).filterMap Task.seqs).Sublist
        (res.1.tasks.filterMap Task.seqs) :=
      filterMap_goOn_sublist fun t ht => seqs_none (h.next t ht).1
    rwa [htasks, List.filterMap_append, filterMap_seqs_none fun t ht => (hmore t ht).1,
      List.append_nil, ← htasks] at hsub

theorem Apart.moves (h : Apart st) (hm : Moves st st') : Apart st' := by
  have hs := silent_of_moves hm
  refine h.silent hs ?_
  obtain ⟨more, htasks, -⟩ := hm.tasks
  rcases h.off with hon | ⟨task, htask, hearly⟩ | hclean
  · exact (hm.on hon).imp_right .inl
  · exact .inr (.inl ⟨task, by rw [htasks]; exact List.mem_append_left more htask, hearly⟩)
  · exact .inr (.inr (hs.clean hclean))

theorem Apart.goesOn (h : Apart st) {i : Nat} {r : Reply} {task : Task}
    (hi : st.tasks[i]? = some task) (htask : IsPlain r task) (hok : st.HandlerApart i r task) :
    Apart { (st.resume r task).1 with
      tasks := goOn (st.resume r task).1.tasks i (st.resume r task).2 } := by
  have hgoes := @goesOn_resume st _ _ htask
  have hs := silent_of_goesOn hgoes i
  obtain ⟨more, htasks, -⟩ := hgoes.tasks
  have hi' : (st.resume r task).1.tasks[i]? = some task := by
    rw [htasks, List.getElem?_append_left (List.getElem?_eq_some_iff.mp hi).1, hi]
  have hnext : (∃ t ∈ (st.resume r task).2, t.IsEarly) →
      ∃ t ∈ goOn (st.resume r task).1.tasks i (st.resume r task).2, t.IsEarly := by
    rintro ⟨t, ht, hearly⟩
    refine ⟨t, ?_, hearly⟩
    rw [Option.mem_def.mp ht]
    exact mem_goOn_next hi'
  have hclean : (st.resume r task).1.tr.Forgotten → (∀ t ∈ st.tasks, ¬ t.IsRelay) →
      State.Clean { (st.resume r task).1 with
        tasks := goOn (st.resume r task).1.tasks i (st.resume r task).2 } :=
    fun hforgot hrelays => ⟨hforgot, fun t ht hrelay => hrelays t (hs.relays t ht hrelay) hrelay⟩
  have hcut : ∀ {began : Nat} {wait : StopWait} {after : After}, task = .cleanup began wait after →
      task.IsEarly ∨ (st.resume r task).1.tr.Forgotten →
        (∃ t ∈ goOn (st.resume r task).1.tasks i (st.resume r task).2, t.IsEarly) ∨
          State.Clean { (st.resume r task).1 with
            tasks := goOn (st.resume r task).1.tasks i (st.resume r task).2 } := by
    rintro began wait after rfl hcase
    by_cases hearly : (Task.cleanup began wait after).IsEarly
    · rcases GoesOn.resumeCleanup_early hearly with ⟨rfl, hforgot⟩ | hnext'
      · exact .inr (hclean hforgot hok)
      · exact .inl (hnext hnext')
    · have hforgot := hcase.resolve_left hearly
      cases wait with
      | persist => exact .inr (hclean hforgot hok)
      | reset | removed | caught => exact absurd trivial hearly
  refine h.silent hs ?_
  rcases h.off with hon | ⟨t, ht, hearly⟩ | hold
  · rcases hgoes.on hon with hon' | ⟨hcleanup, hforgot⟩ | hnext'
    · exact .inl hon'
    · cases task with
      | cleanup => exact .inr (hcut rfl (.inr hforgot))
      | start | relay | connect | modes | modesOn | openPanel | closePanel => exact hcleanup.elim
    · exact .inr (.inl (hnext hnext'))
  · by_cases hsame : t = task
    · subst hsame
      cases t with
      | cleanup => exact .inr (hcut rfl (.inl hearly))
      | start | relay | connect | modes | modesOn | openPanel | closePanel => exact hearly.elim
    · have hmem : t ∈ (st.resume r task).1.tasks := by
        rw [htasks]
        exact List.mem_append_left more ht
      exact .inr (.inl ⟨t, mem_goOn_of_ne hi' hmem hsame _, hearly⟩)
  · exact .inr (.inr (hs.clean hold))

/-! ## The other steps -/

/-- A stable text comes. -/
theorem Apart.stable (h : Apart st) {session : Nat} (msg : StableMsg)
    (hok : st.isOn → session = st.session) : Apart (st.stable session msg) := by
  rw [State.stable]
  split
  · next hon =>
      have hwaiting : (({ st with highest := max st.highest msg.toStable.seq } : State).addTask
          (.relay session st.highest msg)).waiting =
            st.waiting ++ [(st.highest, msg.toStable.seq)] := by
        simp [waiting, addTask, Task.seqs]
      refine ⟨h.own, fun session' prev' msg' hmem => ?_, .inl hon, h.neg, ?_, ?_, ?_⟩
      · rcases List.mem_append.mp hmem with hmem | hmem
        · exact h.relays session' prev' msg' hmem
        · injection List.mem_singleton.mp hmem with hsession
          rw [hsession]
          exact hok hon
      · exact Int.le_trans h.last (Int.le_max_left _ _)
      · rw [hwaiting]
        intro w hw
        rcases List.mem_append.mp hw with hw | hw
        · exact ⟨(h.low w hw).1, Int.le_trans (h.low w hw).2 (Int.le_max_left _ _)⟩
        · rw [List.mem_singleton.mp hw]
          exact ⟨h.last, Int.le_max_right _ _⟩
      · rw [hwaiting]
        refine List.pairwise_append.mpr ⟨h.ordered, List.pairwise_singleton _ _, ?_⟩
        intro w hw w' hw'
        rw [List.mem_singleton.mp hw']
        exact (h.low w hw).2
  · exact h

/-- What a relay leaves as it is, and what it keeps. -/
structure Relayed (textOf : Nat) (msg : StableMsg) (st st' : State) : Prop where
  current : st'.current = st.current
  tasks : st'.tasks = st.tasks
  session : st'.session = st.session
  highest : st'.highest = st.highest
  lastEnOf : st'.lastEnOf = textOf
  last : st'.tr.lastSentStableSeq = st.tr.lastSentStableSeq ∨
    st'.tr.lastSentStableSeq = max st.tr.lastSentStableSeq msg.toStable.seq

theorem relayed (session : Nat) (msg : StableMsg) :
    Relayed session msg st (st.resumeRelay session msg) := by
  simp only [resumeRelay]
  split
  · obtain ⟨seq, sent, hfeed, hseq⟩ := feed_spec msg.toStable
      { st.tr with lastEnStable := msg.toStable }
    rw [hfeed]
    exact ⟨rfl, rfl, rfl, rfl, rfl, hseq⟩
  · exact ⟨rfl, rfl, rfl, rfl, rfl, .inl rfl⟩

/-- A stable text has been passed on to the overlay. -/
theorem Apart.relay (h : Apart st) {i : Nat} {session : Nat} {prev : Int} {msg : StableMsg}
    (hi : st.tasks[i]? = some (.relay session prev msg))
    (hfirst : ∀ task ∈ st.tasks.take i, ¬ task.IsRelay) :
    Apart { st.resumeRelay session msg with
      tasks := (st.resumeRelay session msg).tasks.eraseIdx i } := by
  have hmem : .relay session prev msg ∈ st.tasks := List.mem_of_getElem? hi
  have hr := @relayed st session msg
  generalize st.resumeRelay session msg = st' at hr ⊢
  rw [hr.tasks]
  have hwaiting : st.waiting =
      (prev, msg.toStable.seq) :: (st.tasks.eraseIdx i).filterMap Task.seqs :=
    filterMap_eraseIdx hi rfl fun t ht => seqs_none (hfirst t ht)
  have hordered := h.ordered
  rw [hwaiting] at hordered
  obtain ⟨hlater, hordered⟩ := List.pairwise_cons.mp hordered
  have hlow : st.tr.lastSentStableSeq ≤ prev ∧ msg.toStable.seq ≤ st.highest :=
    h.low (prev, msg.toStable.seq) (by rw [hwaiting]; exact List.mem_cons_self)
  have hneg := h.neg
  have hlast := h.last
  have hcases := hr.last
  refine ⟨fun _ => ?_, fun session' prev' msg' hmem' => ?_, ?_, ?_, ?_, fun w hw => ?_, hordered⟩
  · show st'.lastEnOf = st'.session
    rw [hr.lastEnOf, hr.session]
    exact h.relays session prev msg hmem
  · show session' = st'.session
    rw [hr.session]
    exact h.relays session' prev' msg' (List.mem_of_mem_eraseIdx hmem')
  · rcases h.off with hon | ⟨t, ht, hearly⟩ | hclean
    · refine .inl ?_
      show st'.isOn
      rwa [isOn_congr hr.current]
    · refine .inr (.inl ⟨t, ?_, hearly⟩)
      refine mem_goOn_of_ne hi ht ?_ none
      rintro rfl
      exact hearly
    · exact absurd trivial (hclean.relays _ hmem)
  · show -1 ≤ st'.tr.lastSentStableSeq
    omega
  · show st'.tr.lastSentStableSeq ≤ st'.highest
    rw [hr.highest]
    omega
  · show st'.tr.lastSentStableSeq ≤ w.1 ∧ w.2 ≤ st'.highest
    have hw' := h.low w (by rw [hwaiting]; exact List.mem_cons_of_mem _ hw)
    have hnext : msg.toStable.seq ≤ w.1 := hlater w hw
    rw [hr.highest]
    omega

/-- A start installs its tab when nothing is left of the session before. -/
theorem Apart.starts (h : Apart st) (hclean : st.Clean) {i tab own : Nat} :
    Apart { st.setCurrentStarting tab with
      tasks := goOn st.tasks i (some (.start tab own .streamId)) } := by
  have hrelays : ∀ task ∈ goOn st.tasks i (some (.start tab own .streamId)), ¬ task.IsRelay := by
    refine forall_goOn hclean.relays fun t ht => ?_
    rw [← Option.some.inj ht]
    exact id
  have hnil : (goOn st.tasks i (some (.start tab own .streamId))).filterMap Task.seqs = [] :=
    filterMap_seqs_none hrelays
  refine ⟨fun hfull => absurd hclean.forgotten.lastEnStable hfull, fun _ _ _ hmem => ?_, .inl ?_,
    h.neg, ?_, fun w hw => ?_, ?_⟩
  · exact absurd trivial (hrelays _ hmem)
  · simp [isOn, setCurrentStarting]
  · show st.tr.lastSentStableSeq ≤ 0
    rw [hclean.forgotten.lastSentStableSeq]
    decide
  · have hw : w ∈ (goOn st.tasks i (some (.start tab own .streamId))).filterMap Task.seqs := hw
    rw [hnil] at hw
    exact absurd hw List.not_mem_nil
  · show ((goOn st.tasks i (some (.start tab own .streamId))).filterMap Task.seqs).Pairwise _
    rw [hnil]
    exact List.Pairwise.nil

/-- A connection gets its socket. -/
theorem Apart.connects (h : Apart st) {i : Nat} (hi : st.tasks[i]? = some .connect) :
    Apart { st with
      tr := (st.tr.disconnect false).newSocket, tasks := st.tasks.eraseIdx i } := by
  have hs : Silent st { st with
      tr := (st.tr.disconnect false).newSocket, tasks := st.tasks.eraseIdx i } :=
    ⟨.inr ⟨rfl, rfl⟩, rfl, rfl, rfl, fun _ ht _ => List.mem_of_mem_eraseIdx ht,
      (List.eraseIdx_sublist _ _).filterMap _⟩
  refine h.silent hs ?_
  rcases h.off with hon | ⟨t, ht, hearly⟩ | hclean
  · exact .inl hon
  · refine .inr (.inl ⟨t, ?_, hearly⟩)
    refine mem_goOn_of_ne hi ht ?_ none
    rintro rfl
    exact hearly
  · exact .inr (.inr (hs.clean hclean))

theorem Apart.step (h : Apart st) {l : Label} (hok : st.KeepsApart l)
    (hstep : st.step l = some st') : Apart st' := by
  cases step_takes hstep with
  | moves hm => exact h.moves hm
  | stable => exact h.stable _ hok
  | stopped =>
      have hs : Silent st st.setCurrentStopped :=
        ⟨.inr ⟨rfl, rfl⟩, rfl, rfl, rfl, fun _ ht _ => ht, List.Sublist.refl _⟩
      refine h.silent hs (.inr ?_)
      rcases h.off with hon | hearly | hclean
      · exact (hok hon).imp_right hs.clean
      · exact .inl hearly
      · exact .inr (hs.clean hclean)
  | goesOn hi htask => exact h.goesOn hi htask (hok _ hi)
  | relay hi => exact h.relay hi (hok _ hi)
  | connect hi => exact h.connects hi
  | starting hi =>
      refine h.starts ?_
      rcases h.off with hon | hearly | hclean
      · exact hok _ hi rfl (.inl hon)
      · exact hok _ hi rfl (.inr hearly)
      · exact hclean

/-- A text with a new number is fed. -/
theorem feed_newer {s : Stable} {tr : Translator} {k : Nat} (hnew : tr.lastSentStableSeq < s.seq)
    (hopen : tr.openWs = some k) : (tr.feed s).sent = tr.sent ++ [(k, .stable s)] := by
  have hsend : ∀ tr' : Translator, tr'.openWs = some k →
      (tr'.transSend (.stable s)).sent = tr'.sent ++ [(k, .stable s)] := by
    intro tr' hopen'
    rw [transSend, hopen']
  rw [Translator.feed]
  split
  · rw [if_neg (Int.not_le.mpr hnew)]
    exact hsend _ hopen
  · exact hsend _ hopen

theorem Apart.sentWhenNewer (h : Apart st) : st.SentWhenNewer := by
  intro i r prev msg k hi hnew hshould hopen st' hstep
  have hlow : st.tr.lastSentStableSeq ≤ prev :=
    (h.low (prev, msg.toStable.seq)
      (List.mem_filterMap.mpr ⟨_, List.mem_of_getElem? hi, rfl⟩)).1
  obtain ⟨task, hi', rfl⟩ := step_resume hstep
  obtain rfl := Option.some.inj (hi.symm.trans hi')
  have hboth : (st.shouldTranslateNow && st.tr.openWs.isSome) = true := by
    rw [hshould, hopen]
    rfl
  show (st.resumeRelay st.session msg).tr.sent = _
  simp only [resumeRelay]
  split
  · exact feed_newer (Int.lt_of_le_of_lt hlow hnew) hopen
  · next hnot => exact absurd hboth hnot

end State

/-! ## Runs -/

/-- No session has anything to do with another in any run in which every
session ends in a cleanup before the next one starts. -/
theorem sessions_apart (ls : List Label) (hok : Guarded State.step State.KeepsApart .init ls) :
    ∀ st ∈ run State.step .init ls, st.SentWhenNewer ∧ st.OwnText := by
  intro st hrun
  have hinit : State.Apart .init := by
    refine ⟨fun h => absurd rfl h, fun _ _ _ h => absurd h List.not_mem_nil, .inr (.inr ?_),
      Int.le_refl _, by decide, fun w h => absurd h List.not_mem_nil, List.Pairwise.nil⟩
    exact ⟨⟨rfl, rfl⟩, fun _ h => absurd h List.not_mem_nil⟩
  have hapart : st.Apart :=
    run_guarded (fun _ _ _ h hok hstep => h.step hok hstep) hinit hok hrun
  exact ⟨hapart.sentWhenNewer, hapart.own⟩

instance : (task : Task) → Decidable task.IsEarly
  | .cleanup _ .persist _ => isFalse id
  | .cleanup _ (.reset _) _ | .cleanup _ .removed _ | .cleanup _ .caught _ => isTrue trivial
  | .start .. | .relay .. | .connect | .modes .. | .modesOn | .openPanel .. | .closePanel .. =>
      isFalse id

instance (st : State) : Decidable st.Clean :=
  decidable_of_iff ((st.tr.lastSentStableSeq = -1 ∧ st.tr.lastEnStable.full = []) ∧
      ∀ task ∈ st.tasks, ¬ task.IsRelay)
    ⟨fun h => ⟨⟨h.1.1, h.1.2⟩, h.2⟩, fun h => ⟨⟨h.1.1, h.1.2⟩, h.2⟩⟩

instance (st : State) (i : Nat) (r : Reply) : (task : Task) → Decidable (st.HandlerApart i r task)
  | .start _ _ .tab => inferInstanceAs (Decidable
      (r = .ok → st.isOn ∨ (∃ task ∈ st.tasks, task.IsEarly) → st.Clean))
  | .cleanup _ .removed _ | .cleanup _ .persist _ =>
      inferInstanceAs (Decidable (∀ task ∈ st.tasks, ¬ task.IsRelay))
  | .relay .. => inferInstanceAs (Decidable (∀ task ∈ st.tasks.take i, ¬ task.IsRelay))
  | .start _ _ .inject | .start _ _ .access | .start _ _ .oldPersist | .start _ _ .user
  | .start _ _ .streamId | .start _ _ .tabAttempt | .start _ _ .displayAttempt
  | .start _ _ .captured | .start _ _ .mode | .cleanup _ (.reset _) _ | .cleanup _ .caught _
  | .connect | .modes .. | .modesOn | .openPanel .. | .closePanel .. => isTrue trivial

instance (st : State) : (l : Label) → Decidable (st.KeepsApart l)
  | .status .stopped =>
      inferInstanceAs (Decidable (st.isOn → (∃ task ∈ st.tasks, task.IsEarly) ∨ st.Clean))
  | .stable session _ => inferInstanceAs (Decidable (st.isOn → session = st.session))
  | .resume i r => inferInstanceAs (Decidable (∀ task ∈ st.tasks[i]?, st.HandlerApart i r task))
  | .status .running | .status .failure | .status .other | .panelStart _ | .panelStop | .logout
  | .tabClosed _ | .modes _ | .panelToggle _ | .iconClicked _ | .timer _ | .socketOpen _
  | .socketClose _ => isTrue trivial

/-- Tab 1 is captured and translated, as session 2, and its first text is sent. -/
def translates : List Label :=
  [.modes true, .panelStart 1] ++ List.replicate 6 (.resume 0 .ok) ++
    [.resume 1 .ok, .socketOpen 0, .resume 0 .ok, .resume 0 .ok,
      .stable 2 ⟨jsText "Hi.", some 1, none⟩, .resume 0 .ok]

/-- It is stopped and started again, and the next text waits for the overlay. -/
def restarts : List Label :=
  .panelStop :: List.replicate 3 (.resume 0 .ok) ++ [.panelStart 1] ++
    List.replicate 6 (.resume 0 .ok) ++ [.resume 1 .ok, .socketOpen 1,
      .stable 4 ⟨jsText "Yo.", some 1, none⟩]

theorem sessions_apart_restart :
    ∃ st ∈ run State.step .init (translates ++ restarts), st.SentWhenNewer ∧ st.OwnText :=
  ⟨_, rfl, sessions_apart (translates ++ restarts) (by decide) _ rfl⟩

/-- The share of the tab ends, and the tab is started again. -/
def shareEnds : List Label :=
  [.status .stopped, .panelStart 1] ++ List.replicate 9 (.resume 0 .ok) ++
    [.stable 4 ⟨jsText "Yo.", some 1, none⟩]

theorem sessions_leak :
    ∃ st ∈ run State.step .init (translates ++ shareEnds), ¬ st.SentWhenNewer ∧ ¬ st.OwnText := by
  refine ⟨_, rfl, fun h => ?_, fun h => ?_⟩
  · have hsent := h 0 .ok 0 ⟨jsText "Yo.", some 1, none⟩ 0 rfl (by decide) (by decide) rfl _ rfl
    exact absurd hsent (by decide)
  · exact absurd (h (by decide)) (by decide)

end VTranser.ServiceWorker

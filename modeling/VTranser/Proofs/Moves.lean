import VTranser.Proofs.Service

/-!
# What the handlers do to the translator

All handlers change the globals of the translator by the same few operations
(`Touches`), and begin little that matters to it. Only four steps do more: a
stable text comes or is passed on, a start installs its tab, and a connection
gets its socket; and a status of the offscreen document can end a session
without a word to the translator.
-/

namespace VTranser.ServiceWorker

open Run Tasks

namespace Translator

/-- What happens to the translator, but for new sockets and stable texts. -/
inductive Touches : Translator → Translator → Prop
  | refl (tr : Translator) : Touches tr tr
  | disconnect (hard : Bool) (tr : Translator) : Touches tr (tr.disconnect hard)
  | schedule (tr : Translator) : Touches tr tr.schedule
  | needReset (tr : Translator) : Touches tr { tr with transNeedHardResetOnOpen := true }
  | fired (k : Nat) (tr : Translator) :
      Touches tr { tr with timers := tr.timers.filter (· ≠ k) }
  | onopen (k : Nat) (tr : Translator) : Touches tr (tr.onopen k)
  | closed (k : Nat) (tr : Translator) :
      Touches tr { tr with sockets := tr.sockets.filter (·.1 ≠ k) }
  | trans {tr tr' tr'' : Translator} : Touches tr tr' → Touches tr' tr'' → Touches tr tr''

/-- Nothing is left of the texts that were passed on. -/
structure Forgotten (tr : Translator) : Prop where
  lastSentStableSeq : tr.lastSentStableSeq = -1
  lastEnStable : tr.lastEnStable.full = []

theorem forgotten_disconnect (tr : Translator) : (tr.disconnect true).Forgotten := ⟨rfl, rfl⟩

/-- The socket that is not closed, if there is one, is the one of the global. -/
structure OneSocket (tr : Translator) : Prop where
  length : tr.sockets.length ≤ 1
  own : ∀ s ∈ tr.sockets, tr.transWs = some s.1

variable {tr tr' : Translator}

theorem transSend_spec (msg : TransMsg) (tr : Translator) :
    ∃ sent, tr.transSend msg = { tr with sent := sent } := by
  rw [transSend]
  split
  · exact ⟨_, rfl⟩
  · exact ⟨tr.sent, rfl⟩

theorem transSendBaselineIfAny_spec (tr : Translator) :
    ∃ sent, tr.transSendBaselineIfAny = { tr with sent := sent } := by
  rw [transSendBaselineIfAny]
  split
  · exact ⟨tr.sent, rfl⟩
  · exact transSend_spec _ _

/-- Feeding changes only the number of the last text and what was sent. -/
theorem feed_spec (s : Stable) (tr : Translator) :
    ∃ seq sent, tr.feed s = { tr with lastSentStableSeq := seq, sent := sent } ∧
      (seq = tr.lastSentStableSeq ∨ seq = max tr.lastSentStableSeq s.seq) := by
  rw [feed]
  split
  · split
    · exact ⟨tr.lastSentStableSeq, tr.sent, rfl, .inl rfl⟩
    · next hle =>
        obtain ⟨sent, hsent⟩ := transSend_spec (.stable s) { tr with lastSentStableSeq := s.seq }
        exact ⟨s.seq, sent, hsent, .inr (Int.max_eq_right (Int.le_of_lt (Int.not_le.mp hle))).symm⟩
  · obtain ⟨sent, hsent⟩ := transSend_spec (.stable s) tr
    exact ⟨tr.lastSentStableSeq, sent, hsent, .inl rfl⟩

/-- A socket that opens changes only its own state and what was sent. -/
theorem onopen_spec (k : Nat) (tr : Translator) :
    ∃ sent need, tr.onopen k = { tr with
      sockets := tr.sockets.map fun (s : Nat × Bool) => if s.1 = k then (k, true) else s
      transNeedHardResetOnOpen := need
      sent := sent } := by
  simp only [onopen]
  split
  · obtain ⟨sent, hsent⟩ := transSend_spec .reset { tr with
      sockets := tr.sockets.map fun (s : Nat × Bool) => if s.1 = k then (k, true) else s }
    rw [hsent]
    obtain ⟨sent', hsent'⟩ := transSendBaselineIfAny_spec { tr with
      sockets := tr.sockets.map fun (s : Nat × Bool) => if s.1 = k then (k, true) else s
      sent := sent }
    rw [hsent']
    exact ⟨sent', false, rfl⟩
  · obtain ⟨sent, hsent⟩ := transSendBaselineIfAny_spec { tr with
      sockets := tr.sockets.map fun (s : Nat × Bool) => if s.1 = k then (k, true) else s }
    rw [hsent]
    exact ⟨sent, tr.transNeedHardResetOnOpen, rfl⟩

/-- The texts are kept as they are, or forgotten. -/
theorem Touches.memory (h : Touches tr tr') :
    tr'.Forgotten ∨
      tr'.lastSentStableSeq = tr.lastSentStableSeq ∧ tr'.lastEnStable = tr.lastEnStable := by
  induction h with
  | refl | schedule | needReset | fired | closed => exact .inr ⟨rfl, rfl⟩
  | disconnect hard tr =>
      cases hard with
      | true => exact .inl (forgotten_disconnect tr)
      | false => exact .inr ⟨rfl, rfl⟩
  | onopen k tr =>
      obtain ⟨sent, need, heq⟩ := onopen_spec k tr
      rw [heq]
      exact .inr ⟨rfl, rfl⟩
  | trans _ _ ih ih' =>
      rcases ih' with hforgot | ⟨hseq, hstable⟩
      · exact .inl hforgot
      · rcases ih with hforgot | ⟨hseq', hstable'⟩
        · exact .inl ⟨hseq.trans hforgot.1, by rw [hstable, hforgot.2]⟩
        · exact .inr ⟨hseq.trans hseq', hstable.trans hstable'⟩

theorem Touches.forgotten (h : Touches tr tr') (hforgot : tr.Forgotten) : tr'.Forgotten := by
  rcases h.memory with hforgot' | ⟨hseq, hstable⟩
  · exact hforgot'
  · exact ⟨hseq.trans hforgot.1, by rw [hstable, hforgot.2]⟩

theorem Touches.made (h : Touches tr tr') : tr'.made = tr.made := by
  induction h with
  | refl | schedule | needReset | fired | closed => rfl
  | disconnect hard => cases hard <;> rfl
  | onopen k tr =>
      obtain ⟨sent, need, heq⟩ := onopen_spec k tr
      rw [heq]
  | trans _ _ ih ih' => exact ih'.trans ih

theorem OneSocket.disconnect (h : OneSocket tr) (hard : Bool) :
    (tr.disconnect hard).sockets = [] := by
  have hnone : tr.sockets.filter (fun (s : Nat × Bool) => tr.transWs ≠ some s.1) = [] :=
    List.filter_eq_nil_iff.mpr fun s hs => by simp [h.own s hs]
  cases hard <;> exact hnone

theorem OneSocket.of_nil (h : tr.sockets = []) : OneSocket tr :=
  ⟨by rw [h]; exact Nat.zero_le 1, by rw [h]; exact fun s hs => absurd hs List.not_mem_nil⟩

theorem Touches.oneSocket (h : Touches tr tr') : OneSocket tr → OneSocket tr' := by
  induction h with
  | refl | schedule | needReset | fired => exact fun hone => ⟨hone.length, hone.own⟩
  | disconnect hard tr => exact fun hone => .of_nil (hone.disconnect hard)
  | onopen k tr =>
      intro hone
      obtain ⟨sent, need, heq⟩ := onopen_spec k tr
      rw [heq]
      refine ⟨by rw [List.length_map]; exact hone.length, fun s hs => ?_⟩
      obtain ⟨s', hs', rfl⟩ := List.mem_map.mp hs
      have hown : tr.transWs = some s'.1 := hone.own s' hs'
      split
      · next hk => rw [← hk]; exact hown
      · exact hown
  | closed k tr =>
      intro hone
      exact ⟨Nat.le_trans (List.length_filter_le _ _) hone.length,
        fun s hs => hone.own s (List.mem_of_mem_filter hs)⟩
  | trans _ _ ih ih' => exact fun hone => ih' (ih hone)

theorem Touches.sockets_nil (h : Touches tr tr') : tr.sockets = [] → tr'.sockets = [] := by
  induction h with
  | refl | schedule | needReset | fired => exact id
  | disconnect hard tr => exact fun hnil => (OneSocket.of_nil hnil).disconnect hard
  | onopen k tr =>
      intro hnil
      obtain ⟨sent, need, heq⟩ := onopen_spec k tr
      rw [heq, hnil]
      rfl
  | closed k tr =>
      intro hnil
      show tr.sockets.filter _ = []
      rw [hnil]
      rfl
  | trans _ _ ih ih' => exact fun hnil => ih' (ih hnil)

end Translator

open ServiceWorker.Translator

/-- A cleanup that has not yet cut off the translator. -/
def Task.IsEarly : Task → Prop
  | .cleanup _ .persist _ => False
  | .cleanup .. => True
  | .start .. | .relay .. | .connect | .modes .. | .modesOn | .openPanel .. | .closePanel .. =>
      False

def Task.IsCleanup : Task → Prop
  | .cleanup .. => True
  | .start .. | .relay .. | .connect | .modes .. | .modesOn | .openPanel .. | .closePanel .. =>
      False

namespace State

variable {st st' : State}

/-- A handler begins that is no relay, and connects only what is wanted. -/
def Begins (st : State) (task : Task) : Prop :=
  ¬ task.IsRelay ∧ (task = .connect → st.shouldTranslateNow)

/-- The session goes on as it is, or a cleanup begins. -/
structure Moves (st st' : State) : Prop where
  tr : Touches st.tr st'.tr
  session : st'.session = st.session
  highest : st'.highest = st.highest
  lastEnOf : st'.lastEnOf = st.lastEnOf
  tasks : ∃ more, st'.tasks = st.tasks ++ more ∧ ∀ task ∈ more, st'.Begins task
  on : st.isOn → st'.isOn ∨ ∃ task ∈ st'.tasks, task.IsEarly

/-- An update of `current` that sets nothing back. -/
def Forward (f : Current → Current) : Prop :=
  ∀ c, c.tabId.isSome && (c.startedAt || c.starting) →
    (f c).tabId.isSome && ((f c).startedAt || (f c).starting)

theorem isOn_setCurrent {f : Current → Current} (hf : Forward f) (c₀ : Current) (hon : st.isOn) :
    ({ st with current := some (f (st.current.getD c₀)) } : State).isOn := by
  cases hcur : st.current with
  | none =>
      rw [isOn, hcur] at hon
      cases hon
  | some c =>
      rw [isOn, hcur] at hon
      exact hf c hon

theorem isOn_mapCurrent {f : Current → Current} (hf : Forward f) (hon : st.isOn) :
    ({ st with current := st.current.map f } : State).isOn := by
  cases hcur : st.current with
  | none =>
      rw [isOn, hcur] at hon
      cases hon
  | some c =>
      rw [isOn, hcur] at hon
      exact hf c hon

namespace Moves

theorem nothing_begins (h : st'.tasks = st.tasks) :
    ∃ more, st'.tasks = st.tasks ++ more ∧ ∀ task ∈ more, st'.Begins task :=
  ⟨[], by rw [h, List.append_nil], fun _ h => absurd h List.not_mem_nil⟩

theorem refl : Moves st st := ⟨.refl _, rfl, rfl, rfl, nothing_begins rfl, .inl⟩

/-- First one that begins nothing. -/
theorem trans {st'' : State} (h : Moves st st') (htasks : st'.tasks = st.tasks)
    (h' : Moves st' st'') : Moves st st'' where
  tr := h.tr.trans h'.tr
  session := h'.session.trans h.session
  highest := h'.highest.trans h.highest
  lastEnOf := h'.lastEnOf.trans h.lastEnOf
  tasks := by rw [← htasks]; exact h'.tasks
  on hon := by
    rcases h.on hon with hon' | ⟨task, htask, hearly⟩
    · exact h'.on hon'
    · obtain ⟨more, heq, -⟩ := h'.tasks
      refine .inr ⟨task, ?_, hearly⟩
      rw [heq]
      exact List.mem_append_left more htask

theorem touch {tr : Translator} (h : Touches st.tr tr) : Moves st { st with tr := tr } :=
  ⟨h, rfl, rfl, rfl, nothing_begins rfl, .inl⟩

/-- What the translator does not see. -/
theorem aside (overlay : List (Nat × OverlayEvent))
    (transcriptPersist : Option (Nat × TranscriptPersist.Persist)) :
    Moves st { st with overlay := overlay, transcriptPersist := transcriptPersist } :=
  ⟨.refl _, rfl, rfl, rfl, nothing_begins rfl, .inl⟩

theorem current {current : Option Current}
    (h : st.isOn → ({ st with current := current } : State).isOn) :
    Moves st { st with current := current } :=
  ⟨.refl _, rfl, rfl, rfl, nothing_begins rfl, fun hon => .inl (h hon)⟩

theorem addTask {task : Task} (h : st.Begins task) : Moves st (st.addTask task) where
  tr := .refl _
  session := rfl
  highest := rfl
  lastEnOf := rfl
  tasks := ⟨[task], rfl, fun t ht => by rwa [List.mem_singleton.mp ht]⟩
  on := .inl

theorem maybeUpdateTranslator (forceStop : Bool) :
    Moves st (st.maybeUpdateTranslator forceStop) := by
  have h := @maybeUpdateTranslator_spec st forceStop
  generalize st.maybeUpdateTranslator forceStop = st' at h
  cases h with
  | stops => exact touch (.disconnect true st.tr)
  | connects _ hshould _ => exact addTask ⟨id, fun _ => hshould⟩
  | keeps => exact refl

theorem connectTranslator : Moves st st.connectTranslator := by
  rw [State.connectTranslator]
  split
  · next hshould => exact addTask ⟨id, fun _ => hshould⟩
  · exact refl

theorem scheduleTranslatorReconnect : Moves st st.scheduleTranslatorReconnect := by
  rw [State.scheduleTranslatorReconnect]
  split
  · exact touch (.schedule st.tr)
  · exact refl

theorem hardReset : Moves st ({ st with
    tr := { st.tr with transNeedHardResetOnOpen := true } }.maybeUpdateTranslator false) :=
  (touch (.needReset st.tr)).trans rfl (.maybeUpdateTranslator false)

theorem afterModes (prev : Bool) (tab : Option Nat) : Moves st (st.afterModes prev tab).1 := by
  unfold State.afterModes
  split
  · cases tab with
    | none => exact hardReset
    | some t => exact refl
  · split
    · exact maybeUpdateTranslator true
    · exact refl

theorem stopCapture_early (began : Nat) (after : After) :
    (st.stopCapture began after).2.IsEarly := by
  rw [stopCapture]
  cases st.current.bind (·.tabId) <;> trivial

theorem begins_of_early {task : Task} (h : task.IsEarly) : st.Begins task := by
  cases task with
  | cleanup => exact ⟨id, Task.noConfusion⟩
  | start | relay | connect | modes | modesOn | openPanel | closePanel => exact h.elim

theorem stopCaptureNow (after : After) : Moves st (st.stopCaptureNow after) where
  tr := .refl _
  session := rfl
  highest := rfl
  lastEnOf := rfl
  tasks := ⟨[_], rfl, fun t ht => by
    rw [List.mem_singleton.mp ht]
    exact begins_of_early (stopCapture_early _ after)⟩
  on _ := .inr ⟨_, List.mem_append_right _ (List.mem_singleton.mpr rfl),
    stopCapture_early _ after⟩

end Moves

/-- The same for a handler that goes on; a cleanup can also end the session and
make the translator forget it. -/
structure GoesOn (cuts : Prop) (st : State) (res : State × Option Task) : Prop where
  tr : Touches st.tr res.1.tr
  session : res.1.session = st.session
  highest : res.1.highest = st.highest
  lastEnOf : res.1.lastEnOf = st.lastEnOf
  tasks : ∃ more, res.1.tasks = st.tasks ++ more ∧ ∀ task ∈ more, res.1.Begins task
  next : ∀ task ∈ res.2, ¬ task.IsRelay ∧ task ≠ .connect
  on : st.isOn →
    res.1.isOn ∨ cuts ∧ res.1.tr.Forgotten ∨ ∃ task ∈ res.2, task.IsEarly

namespace GoesOn

variable {cuts : Prop}

theorem of_moves {res : State × Option Task} (h : Moves st res.1) (hon : st.isOn → res.1.isOn)
    (hnext : ∀ task ∈ res.2, ¬ task.IsRelay ∧ task ≠ .connect) : GoesOn cuts st res :=
  ⟨h.tr, h.session, h.highest, h.lastEnOf, h.tasks, hnext, fun h => .inl (hon h)⟩

theorem waits {task : Task} (h : Moves st st') (hon : st.isOn → st'.isOn)
    (htask : ¬ task.IsRelay ∧ task ≠ .connect) : GoesOn cuts st (st', some task) :=
  of_moves h hon fun t ht => by rwa [← Option.some.inj ht]

theorem ends (h : Moves st st') (hon : st.isOn → st'.isOn) : GoesOn cuts st (st', none) :=
  of_moves h hon fun task ht => absurd ht (Option.not_mem_none task)

/-- The translator is told, whatever becomes of `current`. -/
theorem forgets (h : Touches st.tr st'.tr) (hforgot : st'.tr.Forgotten)
    (hsession : st'.session = st.session) (hhighest : st'.highest = st.highest)
    (hof : st'.lastEnOf = st.lastEnOf) (htasks : st'.tasks = st.tasks) :
    GoesOn True st (st', none) :=
  ⟨h, hsession, hhighest, hof, Moves.nothing_begins htasks,
    fun task ht => absurd ht (Option.not_mem_none task), fun _ => .inr (.inl ⟨trivial, hforgot⟩)⟩

theorem after {res : State × Option Task} (h : Moves st st') (htasks : st'.tasks = st.tasks)
    (hon : st.isOn → st'.isOn) (h' : GoesOn cuts st' res) : GoesOn cuts st res where
  tr := h.tr.trans h'.tr
  session := h'.session.trans h.session
  highest := h'.highest.trans h.highest
  lastEnOf := h'.lastEnOf.trans h.lastEnOf
  tasks := by rw [← htasks]; exact h'.tasks
  next := h'.next
  on h := h'.on (hon h)

theorem ne_of_early {task : Task} (h : task.IsEarly) : ¬ task.IsRelay ∧ task ≠ .connect := by
  cases task with
  | cleanup => exact ⟨id, Task.noConfusion⟩
  | start | relay | connect | modes | modesOn | openPanel | closePanel => exact h.elim

/-- A cleanup begins. -/
theorem cleansUp {task : Task} (h : st'.tr = st.tr) (hsession : st'.session = st.session)
    (hhighest : st'.highest = st.highest) (hof : st'.lastEnOf = st.lastEnOf)
    (htasks : st'.tasks = st.tasks) (hearly : task.IsEarly) : GoesOn cuts st (st', some task) where
  tr := h ▸ .refl _
  session := hsession
  highest := hhighest
  lastEnOf := hof
  tasks := Moves.nothing_begins htasks
  next t ht := by
    rw [← Option.some.inj ht]
    exact ne_of_early hearly
  on _ := .inr (.inr ⟨task, rfl, hearly⟩)

theorem stopCapture (began : Nat) (after : After) :
    GoesOn cuts st ((st.stopCapture began after).1, some (st.stopCapture began after).2) :=
  cleansUp rfl rfl rfl rfl rfl (Moves.stopCapture_early began after)

theorem failStart : GoesOn cuts st st.failStart := by
  rw [State.failStart]
  split
  · exact cleansUp rfl rfl rfl rfl rfl trivial
  · exact stopCapture _ _

theorem goOnAfter (after : After) : GoesOn True st (st.goOnAfter after) := by
  cases after with
  | done => exact ends .refl id
  | failure =>
      exact forgets (.disconnect true st.tr) (forgotten_disconnect _) rfl rfl rfl rfl
  | tabClosed =>
      exact forgets (.disconnect true st.tr) (forgotten_disconnect _) rfl rfl rfl rfl
  | start tab => exact waits .refl id ⟨id, Task.noConfusion⟩

theorem resumeCleanup (began : Nat) (after : After) (wait : StopWait) :
    GoesOn True st (st.resumeCleanup began after wait) := by
  cases wait with
  | reset tab => exact waits (.aside _ _) id ⟨id, Task.noConfusion⟩
  | removed =>
      have htr : Moves st (st.disconnectTranslator true) := .touch (.disconnect true st.tr)
      simp only [State.resumeCleanup]
      split
      · exact .after htr rfl id (waits (.aside _ _) id ⟨id, Task.noConfusion⟩)
      · exact .after htr rfl id (goOnAfter after)
  | persist => exact .after (.aside st.overlay none) rfl id (goOnAfter after)
  | caught => exact .after (.aside st.overlay none) rfl id (stopCapture began after)

/-- An early cleanup stays early until it cuts off the translator. -/
theorem resumeCleanup_early {began : Nat} {after : After} {wait : StopWait}
    (h : (Task.cleanup began wait after).IsEarly) :
    wait = .removed ∧ (st.resumeCleanup began after wait).1.tr.Forgotten ∨
      ∃ task ∈ (st.resumeCleanup began after wait).2, task.IsEarly := by
  cases wait with
  | reset tab => exact .inr ⟨_, rfl, trivial⟩
  | removed =>
      have hforgot : (st.disconnectTranslator true).tr.Forgotten := forgotten_disconnect st.tr
      refine .inl ⟨rfl, ?_⟩
      simp only [State.resumeCleanup]
      split
      · exact hforgot
      · exact (goOnAfter after).tr.forgotten hforgot
  | persist => exact h.elim
  | caught => exact .inr ⟨_, rfl, Moves.stopCapture_early began after⟩

theorem captured (tab own : Nat) : GoesOn cuts st (st.captured tab own) :=
  waits (.maybeUpdateTranslator false)
    (fun h => by rwa [isOn_congr (Beside.maybeUpdateTranslator false).current])
    ⟨id, Task.noConfusion⟩

/-- A start goes on, but for the step in which it installs its tab. -/
theorem resumeStart (tab own : Nat) {r : Reply} {wait : StartWait}
    (htab : wait = .tab → r ≠ .ok) : GoesOn cuts st (st.resumeStart tab own r wait) := by
  cases wait with
  | inject =>
      rw [State.resumeStart]
      split
      · exact waits (.aside _ _) id ⟨id, Task.noConfusion⟩
      · exact failStart
  | access =>
      rw [State.resumeStart]
      split
      · split
        · exact waits (.aside _ _) id ⟨id, Task.noConfusion⟩
        · exact waits .refl id ⟨id, Task.noConfusion⟩
      · exact failStart
  | oldPersist => exact waits .refl id ⟨id, Task.noConfusion⟩
  | user => exact ⟨.refl _, rfl, rfl, rfl, Moves.nothing_begins rfl, fun t ht => by
      rw [← Option.some.inj ht]
      exact ⟨id, Task.noConfusion⟩, .inl⟩
  | tab =>
      rw [State.resumeStart, if_neg (htab rfl)]
      exact failStart
  | streamId => exact waits .refl id ⟨id, Task.noConfusion⟩
  | tabAttempt =>
      rw [State.resumeStart]
      split
      · exact captured tab own
      · exact waits .refl id ⟨id, Task.noConfusion⟩
  | displayAttempt =>
      rw [State.resumeStart]
      split
      · exact captured tab own
      · exact failStart
  | captured =>
      have hon := @isOn_setCurrent st id (fun _ h => h) ⟨none, false, false, false⟩
      exact waits (.current hon) hon ⟨id, Task.noConfusion⟩
  | mode => exact ends .refl id

theorem resumeOpenPanel (tab : Nat) (r : Reply) (wait : PanelWait) :
    GoesOn cuts st (st.resumeOpenPanel tab r wait) := by
  cases wait with
  | inject =>
      have hif : Moves st (if r = .ok then
          { st with overlay := st.overlay ++ [(tab, .inject)] } else st) := by
        split
        · exact .aside _ _
        · exact .refl
      refine waits hif (fun h => ?_) ⟨id, Task.noConfusion⟩
      split <;> exact h
  | mode =>
      have hforward : Forward fun c => { c with tabId := some tab, panelOpen := true } :=
        fun c h => (Bool.and_eq_true_iff.mp h).2
      have hon := @isOn_setCurrent st _ hforward ⟨none, false, false, true⟩
      exact waits (.current hon) hon ⟨id, Task.noConfusion⟩
  | server =>
      rw [State.resumeOpenPanel]
      split
      · exact ends .refl id
      · exact stopCapture _ _

theorem resumeClosePanel (tab : Nat) (removed : Bool) :
    GoesOn cuts st (st.resumeClosePanel tab removed) := by
  cases removed with
  | true =>
      have hforward : Forward fun c =>
          if c.tabId = some tab then { c with panelOpen := false } else c := by
        intro c h
        dsimp only
        split <;> exact h
      have hon := @isOn_mapCurrent st _ hforward
      exact ends (.current hon) hon
  | false => exact waits (.aside _ _) id ⟨id, Task.noConfusion⟩

theorem afterModes (prev : Bool) (tab : Option Nat) :
    GoesOn cuts st (st.afterModes prev tab) := by
  refine of_moves (.afterModes prev tab) (fun hon => ?_) fun task htask => ?_
  · rwa [isOn_congr (Beside.afterModes prev tab).current]
  · unfold State.afterModes at htask
    split at htask
    · cases tab with
      | none => exact absurd htask (Option.not_mem_none task)
      | some t =>
          rw [← Option.some.inj htask]
          exact ⟨id, Task.noConfusion⟩
    · split at htask <;> exact absurd htask (Option.not_mem_none task)

/-- No socket was made. -/
theorem connectFailed : GoesOn cuts st (st.resumeConnect .failed, none) := by
  have hoff : Moves st (st.disconnectTranslator false) := .touch (.disconnect false st.tr)
  have hmoves : Moves st (st.resumeConnect .failed) :=
    hoff.trans rfl .scheduleTranslatorReconnect
  refine ends hmoves fun h => ?_
  rwa [isOn_congr (Beside.resumeConnect .failed).current]

end GoesOn

/-- The handlers that do no more than this. -/
def IsPlain (r : Reply) : Task → Prop
  | .relay .. => False
  | .connect | .start _ _ .tab => r ≠ .ok
  | _ => True

theorem goesOn_resume {r : Reply} {task : Task} (h : IsPlain r task) :
    GoesOn task.IsCleanup st (st.resume r task) := by
  cases task with
  | start tab own wait =>
      refine .resumeStart tab own fun hwait => ?_
      rw [hwait] at h
      exact h
  | cleanup began wait after => exact .resumeCleanup began after wait
  | relay => exact h.elim
  | connect =>
      cases r with
      | ok => exact absurd rfl h
      | failed => exact .connectFailed
  | modes prev tab => exact .afterModes prev (some tab)
  | modesOn =>
      refine .ends .hardReset fun hon => ?_
      rwa [isOn_congr Beside.hardReset.current]
  | openPanel tab wait => exact .resumeOpenPanel tab r wait
  | closePanel tab removed => exact .resumeClosePanel tab removed

/-- The events that do no more than this. -/
def IsPlainEvent : Label → Prop
  | .stable .. | .status .stopped | .resume .. => False
  | _ => True

theorem moves_step {l : Label} (hstep : st.step l = some st') (h : IsPlainEvent l) :
    Moves st st' := by
  have hplain : ∀ {task : Task}, ¬ task.IsRelay ∧ task ≠ .connect → Moves st (st.addTask task) :=
    fun h => .addTask ⟨h.1, fun heq => absurd heq h.2⟩
  cases l with
  | panelStart tab =>
      injection hstep with hstep
      rw [← hstep, panelStart]
      split
      · exact .stopCaptureNow _
      · exact hplain ⟨id, Task.noConfusion⟩
  | panelStop =>
      injection hstep with hstep
      rw [← hstep]
      exact .stopCaptureNow _
  | logout =>
      injection hstep with hstep
      rw [← hstep]
      split
      · exact .stopCaptureNow _
      · exact .refl
  | tabClosed tab =>
      injection hstep with hstep
      rw [← hstep]
      split
      · exact .stopCaptureNow _
      · exact .refl
  | status s =>
      injection hstep with hstep
      rw [← hstep]
      cases s with
      | running =>
          refine .current fun hon => isOn_mapCurrent (fun c h => ?_) hon
          rw [(Bool.and_eq_true_iff.mp h).1]
          rfl
      | stopped => exact h.elim
      | failure => exact .stopCaptureNow _
      | other => exact .refl
  | modes vi =>
      injection hstep with hstep
      rw [← hstep]
      have hvi : Moves st { st with wantTranslateVI := vi } :=
        ⟨.refl _, rfl, rfl, rfl, Moves.nothing_begins rfl, .inl⟩
      simp only [modes]
      split
      · exact hvi.trans rfl (.addTask ⟨id, Task.noConfusion⟩)
      · exact hvi.trans rfl (.afterModes _ none)
  | panelToggle tab =>
      injection hstep with hstep
      rw [← hstep, panelToggle]
      split
      · exact hplain ⟨id, Task.noConfusion⟩
      · exact hplain ⟨id, Task.noConfusion⟩
  | iconClicked tab =>
      injection hstep with hstep
      rw [← hstep]
      have hforward : Forward fun c => { c with tabId := some tab } :=
        fun c h => (Bool.and_eq_true_iff.mp h).2
      exact .current fun hon => isOn_setCurrent hforward _ hon
  | timer k =>
      simp only [step] at hstep
      split at hstep
      · injection hstep with hstep
        rw [← hstep]
        exact (Moves.touch (.fired k st.tr)).trans rfl .connectTranslator
      · cases hstep
  | socketOpen k =>
      simp only [step] at hstep
      split at hstep
      · injection hstep with hstep
        rw [← hstep]
        exact .touch (.onopen k st.tr)
      · cases hstep
  | socketClose k =>
      simp only [step] at hstep
      split at hstep
      · injection hstep with hstep
        rw [← hstep]
        exact (Moves.touch (.closed k st.tr)).trans rfl .scheduleTranslatorReconnect
      · cases hstep
  | stable | resume => exact h.elim

/-- What a step does: it moves on as most do, or is one of the few that do more. -/
inductive Takes (st : State) : Label → State → Prop
  | moves {l st'} : Moves st st' → Takes st l st'
  | stable {session msg} : Takes st (.stable session msg) (st.stable session msg)
  | stopped : Takes st (.status .stopped) st.setCurrentStopped
  | goesOn {i r task} : st.tasks[i]? = some task → IsPlain r task →
      Takes st (.resume i r) { (st.resume r task).1 with
        tasks := goOn (st.resume r task).1.tasks i (st.resume r task).2 }
  | relay {i r session prev msg} : st.tasks[i]? = some (.relay session prev msg) →
      Takes st (.resume i r) { st.resumeRelay session msg with
        tasks := (st.resumeRelay session msg).tasks.eraseIdx i }
  | connect {i} : st.tasks[i]? = some .connect →
      Takes st (.resume i .ok) { st with
        tr := (st.tr.disconnect false).newSocket, tasks := st.tasks.eraseIdx i }
  | starting {i tab own} : st.tasks[i]? = some (.start tab own .tab) →
      Takes st (.resume i .ok) { st.setCurrentStarting tab with
        tasks := goOn st.tasks i (some (.start tab own .streamId)) }

theorem step_takes {l : Label} (hstep : st.step l = some st') : Takes st l st' := by
  by_cases hplain : IsPlainEvent l
  · exact .moves (moves_step hstep hplain)
  cases l with
  | stable session msg => exact Option.some.inj hstep ▸ .stable
  | status s =>
      cases s with
      | stopped => exact Option.some.inj hstep ▸ .stopped
      | running | failure | other => exact absurd trivial hplain
  | resume i r =>
      obtain ⟨task, hi, rfl⟩ := step_resume hstep
      by_cases htask : IsPlain r task
      · exact .goesOn hi htask
      cases task with
      | relay session prev msg => exact .relay hi
      | connect =>
          cases r with
          | ok => exact .connect hi
          | failed => exact absurd Reply.noConfusion htask
      | start tab own wait =>
          cases wait with
          | tab =>
              cases r with
              | ok => exact .starting hi
              | failed => exact absurd Reply.noConfusion htask
          | inject | access | oldPersist | user | streamId | tabAttempt | displayAttempt
          | captured | mode => exact absurd trivial htask
      | cleanup | modes | modesOn | openPanel | closePanel => exact absurd trivial htask
  | panelStart | panelStop | logout | tabClosed | modes | panelToggle | iconClicked | timer
  | socketOpen | socketClose => exact absurd trivial hplain

end State

end VTranser.ServiceWorker

import VTranser.Lib.Run
import VTranser.Worker.Service

/-!
# What the functions of the service worker do

One lemma for each function with branches, so that no proof about the handlers
unfolds it again.
-/

namespace VTranser.ServiceWorker

open Run Tasks

/-- The handlers that neither start nor stop anything. -/
def Task.IsBystander : Task → Prop
  | .relay .. | .connect | .modes .. | .modesOn => True
  | .start .. | .cleanup .. | .openPanel .. | .closePanel .. => False

def Task.IsRelay : Task → Prop
  | .relay .. => True
  | _ => False

instance : (task : Task) → Decidable task.IsRelay
  | .relay .. => isTrue trivial
  | .start .. | .cleanup .. | .connect | .modes .. | .modesOn | .openPanel .. | .closePanel .. =>
      isFalse id

namespace State

variable {st st' : State}

theorem isOn_congr (h : st'.current = st.current) : st'.isOn = st.isOn := by
  rw [isOn, isOn, h]

theorem shouldTranslateNow_congr (hcur : st'.current = st.current)
    (hvi : st'.wantTranslateVI = st.wantTranslateVI) :
    st'.shouldTranslateNow = st.shouldTranslateNow := by
  rw [shouldTranslateNow, shouldTranslateNow, hvi, isOn_congr hcur]

/-- `maybeUpdateTranslator` disconnects, or lets a connection begin, or does nothing. -/
inductive UpdateStep (forceStop : Bool) (st : State) : State → Prop
  | stops (h : forceStop ∨ st.shouldTranslateNow = false) :
      UpdateStep forceStop st (st.disconnectTranslator true)
  | connects (hf : forceStop = false) (h : st.shouldTranslateNow) (hws : st.tr.transWs = none) :
      UpdateStep forceStop st (st.addTask .connect)
  | keeps (hf : forceStop = false) (h : st.shouldTranslateNow) : UpdateStep forceStop st st

theorem maybeUpdateTranslator_spec (forceStop : Bool) :
    UpdateStep forceStop st (st.maybeUpdateTranslator forceStop) := by
  rw [maybeUpdateTranslator]
  split
  · next h =>
      refine .stops ?_
      rwa [Bool.or_eq_true, Bool.not_eq_true'] at h
  · next h =>
      have hf : forceStop = false := by
        cases forceStop with
        | true => exact absurd rfl h
        | false => rfl
      have hs : st.shouldTranslateNow := by
        rw [hf] at h
        simpa using h
      split
      · next hws =>
          rw [connectTranslator, if_pos hs]
          exact .connects hf hs (Option.isNone_iff_eq_none.mp hws)
      · exact .keeps hf hs

/-- Only the translator and what is kept of the transcript change, and only
bystanders begin. -/
structure Beside (st st' : State) : Prop where
  current : st'.current = st.current
  overlay : st'.overlay = st.overlay
  installs : st'.installs = st.installs
  session : st'.session = st.session
  persist : ∃ f : TranscriptPersist.Persist → TranscriptPersist.Persist,
    (∀ p, (f p).stopped = p.stopped) ∧
      st'.transcriptPersist = st.transcriptPersist.map fun (k, p) => (k, f p)
  tasks : ∃ more, st'.tasks = st.tasks ++ more ∧ ∀ task ∈ more, task.IsBystander

namespace Beside

theorem persist_id (h : st'.transcriptPersist = st.transcriptPersist) :
    ∃ f : TranscriptPersist.Persist → TranscriptPersist.Persist,
      (∀ p, (f p).stopped = p.stopped) ∧
        st'.transcriptPersist = st.transcriptPersist.map fun (k, p) => (k, f p) :=
  ⟨id, fun _ => rfl, by rw [h]; cases st.transcriptPersist <;> rfl⟩

theorem nothing_begins (h : st'.tasks = st.tasks) :
    ∃ more, st'.tasks = st.tasks ++ more ∧ ∀ task ∈ more, task.IsBystander :=
  ⟨[], by rw [h, List.append_nil], fun _ h => absurd h List.not_mem_nil⟩

theorem refl : Beside st st :=
  ⟨rfl, rfl, rfl, rfl, persist_id rfl, nothing_begins rfl⟩

theorem trans {st'' : State} (h : Beside st st') (h' : Beside st' st'') : Beside st st'' where
  current := h'.current.trans h.current
  overlay := h'.overlay.trans h.overlay
  installs := h'.installs.trans h.installs
  session := h'.session.trans h.session
  persist := by
    obtain ⟨f, hf, heq⟩ := h.persist
    obtain ⟨f', hf', heq'⟩ := h'.persist
    refine ⟨f' ∘ f, fun p => (hf' (f p)).trans (hf p), ?_⟩
    rw [heq', heq, Option.map_map]
    rfl
  tasks := by
    obtain ⟨more, heq, hmore⟩ := h.tasks
    obtain ⟨more', heq', hmore'⟩ := h'.tasks
    refine ⟨more ++ more', by rw [heq', heq, List.append_assoc], fun task htask => ?_⟩
    rcases List.mem_append.mp htask with hmem | hmem
    · exact hmore task hmem
    · exact hmore' task hmem

/-- A step that only touches the translator. -/
theorem tr (tr : Translator) : Beside st { st with tr := tr } :=
  ⟨rfl, rfl, rfl, rfl, persist_id rfl, nothing_begins rfl⟩

theorem addTask {task : Task} (h : task.IsBystander) : Beside st (st.addTask task) where
  current := rfl
  overlay := rfl
  installs := rfl
  session := rfl
  persist := persist_id rfl
  tasks := ⟨[task], rfl, fun t ht => by rwa [List.mem_singleton.mp ht]⟩

theorem maybeUpdateTranslator (forceStop : Bool) :
    Beside st (st.maybeUpdateTranslator forceStop) := by
  have h := @maybeUpdateTranslator_spec st forceStop
  generalize st.maybeUpdateTranslator forceStop = st' at h
  cases h with
  | stops => exact .tr _
  | connects => exact .addTask trivial
  | keeps => exact .refl

theorem connectTranslator : Beside st st.connectTranslator := by
  rw [State.connectTranslator]
  split
  · exact .addTask trivial
  · exact .refl

theorem scheduleTranslatorReconnect : Beside st st.scheduleTranslatorReconnect := by
  rw [State.scheduleTranslatorReconnect]
  split
  · exact .tr _
  · exact .refl

theorem resumeConnect (r : Reply) : Beside st (st.resumeConnect r) := by
  have hoff : Beside st (st.disconnectTranslator false) := .tr _
  simp only [State.resumeConnect]
  split
  · exact hoff.trans (.tr _)
  · exact hoff.trans .scheduleTranslatorReconnect

theorem handleStable_stopped (full : JsStr) (seq : Option Int) (p : TranscriptPersist.Persist) :
    (p.handleStable full seq).stopped = p.stopped := by
  simp only [TranscriptPersist.Persist.handleStable]
  split
  · rfl
  · split <;> rfl

theorem resumeRelay (session : Nat) (msg : StableMsg) : Beside st (st.resumeRelay session msg) := by
  have hgive : ∀ st₁ : State, Beside st₁ { st₁ with
      transcriptPersist := st₁.transcriptPersist.map fun (k, p) =>
        (k, p.handleStable msg.full msg.seq) } :=
    fun st₁ => ⟨rfl, rfl, rfl, rfl,
      ⟨_, handleStable_stopped msg.full msg.seq, rfl⟩, nothing_begins rfl⟩
  have hkeep : Beside st { st with
      tr := { st.tr with lastEnStable := msg.toStable }, lastEnOf := session } :=
    ⟨rfl, rfl, rfl, rfl, persist_id rfl, nothing_begins rfl⟩
  simp only [State.resumeRelay]
  split
  · exact hkeep.trans ((Beside.tr _).trans (hgive _))
  · exact hkeep.trans (hgive _)

theorem hardReset : Beside st ({ st with
    tr := { st.tr with transNeedHardResetOnOpen := true } }.maybeUpdateTranslator false) :=
  (Beside.tr _).trans (.maybeUpdateTranslator false)

theorem afterModes (prev : Bool) (tab : Option Nat) : Beside st (st.afterModes prev tab).1 := by
  unfold State.afterModes
  split
  · cases tab with
    | none => exact .hardReset
    | some t => exact .refl
  · split
    · exact .maybeUpdateTranslator true
    · exact .refl

end Beside

theorem afterModes_next {prev : Bool} {tab : Option Nat} :
    ∀ task ∈ (st.afterModes prev tab).2, task.IsBystander := by
  intro task htask
  unfold afterModes at htask
  split at htask
  · cases tab with
    | none => cases htask
    | some t =>
        rw [← Option.some.inj htask]
        trivial
  · split at htask <;> cases htask

/-- A bystander goes on. -/
theorem beside_resume {task : Task} (htask : task.IsBystander) (r : Reply) :
    Beside st (st.resume r task).1 ∧ ∀ t ∈ (st.resume r task).2, t.IsBystander := by
  have hnone : ∀ t ∈ (none : Option Task), t.IsBystander :=
    fun t ht => absurd ht (Option.not_mem_none t)
  cases task with
  | relay session prev msg => exact ⟨.resumeRelay session msg, hnone⟩
  | connect => exact ⟨.resumeConnect r, hnone⟩
  | modes prev t => exact ⟨.afterModes prev (some t), afterModes_next⟩
  | modesOn => exact ⟨.hardReset, hnone⟩
  | start | cleanup | openPanel | closePanel => exact htask.elim

/-- A handler goes on: it has ended or waits again. -/
theorem step_resume {i : Nat} {r : Reply} (h : st.step (.resume i r) = some st') :
    ∃ task, st.tasks[i]? = some task ∧
      st' = { (st.resume r task).1 with
        tasks := goOn (st.resume r task).1.tasks i (st.resume r task).2 } := by
  obtain ⟨task, hi, rfl⟩ := Option.map_eq_some_iff.mp h
  exact ⟨task, hi, rfl⟩

/-- The transcript, the modes and the translator's events. -/
def IsBeside : Label → Prop
  | .stable .. | .modes _ | .timer _ | .socketOpen _ | .socketClose _ => True
  | .panelStart _ | .panelStop | .logout | .tabClosed _ | .status _ | .panelToggle _
  | .iconClicked _ | .resume .. => False

theorem beside_step {l : Label} (hstep : st.step l = some st') (hl : IsBeside l) :
    Beside st st' := by
  cases l with
  | stable session msg =>
      injection hstep with hstep
      rw [← hstep, stable]
      split
      · have hhigh : Beside st { st with highest := max st.highest msg.toStable.seq } :=
          ⟨rfl, rfl, rfl, rfl, Beside.persist_id rfl, Beside.nothing_begins rfl⟩
        exact hhigh.trans (.addTask trivial)
      · exact .refl
  | modes vi =>
      injection hstep with hstep
      rw [← hstep]
      have hvi : Beside st { st with wantTranslateVI := vi } :=
        ⟨rfl, rfl, rfl, rfl, Beside.persist_id rfl, Beside.nothing_begins rfl⟩
      simp only [modes]
      split
      · exact hvi.trans (.addTask trivial)
      · exact hvi.trans (.afterModes _ none)
  | timer k =>
      simp only [step] at hstep
      split at hstep
      · injection hstep with hstep
        rw [← hstep]
        exact (Beside.tr _).trans .connectTranslator
      · cases hstep
  | socketOpen k =>
      simp only [step] at hstep
      split at hstep
      · injection hstep with hstep
        rw [← hstep]
        exact .tr _
      · cases hstep
  | socketClose k =>
      simp only [step] at hstep
      split at hstep
      · injection hstep with hstep
        rw [← hstep]
        exact (Beside.tr _).trans .scheduleTranslatorReconnect
      · cases hstep
  | panelStart | panelStop | logout | tabClosed | status | panelToggle | iconClicked | resume =>
      exact hl.elim

end State

end VTranser.ServiceWorker

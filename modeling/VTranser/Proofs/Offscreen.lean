import VTranser.Lib.Run
import VTranser.Offscreen

/-!
# What the calls of the offscreen document do

What is live is what the globals hold (`Held`), as long as a call that takes
something finds the place empty. `stopAll` gives back one thing after the other,
and `Level` says what is given back when it waits: `StopStep` is one step of it.
`StartStep` is one step of `start`, when what it is about to take is not held
(`Task.Acquires`).
-/

namespace VTranser.Offscreen

open Run Tasks

namespace State

/-! ## What is live -/

/-- What is live is in its global. -/
structure Held (st : State) : Prop where
  streams : ∀ k ∈ st.streams, st.mediaStream = some k
  contexts : ∀ k ∈ st.contexts, st.audioCtx = some k
  recorders : ∀ k ∈ st.recorders, st.recorder = some k
  sockets : ∀ s ∈ st.sockets, st.ws = some s.1
  handshake : ∀ k ∈ st.handshake, st.ws = some k
  connectTimer : ∀ k ∈ st.connectTimer, st.ws = some k

/-- All that `start` takes before its socket is given back. -/
structure Released (st : State) : Prop where
  streams : st.streams = []
  contexts : st.contexts = []
  recorders : st.recorders = []

end State

def Status.IsOutcome : Status → Bool
  | .running | .stopped _ => true
  | _ => false

/-- The last of the statuses `running` and `stopped`. -/
def lastOutcome (sent : List Status) : Option Status := (sent.filter Status.IsOutcome).getLast?

def LastStopped (sent : List Status) : Prop := ∃ reason, lastOutcome sent = some (.stopped reason)

theorem lastOutcome_append_of_not {s : Status} (h : s.IsOutcome = false) (sent : List Status) :
    lastOutcome (sent ++ [s]) = lastOutcome sent := by
  simp [lastOutcome, h]

theorem lastStopped_append (sent : List Status) (reason : Reason) :
    LastStopped (sent ++ [.stopped reason]) :=
  ⟨reason, by simp [lastOutcome, Status.IsOutcome]⟩

namespace State

variable {st st' : State}

/-- Nothing is taken, the promises are as they were, and `running` is not sent. -/
structure Shrinks (st st' : State) : Prop where
  promises : st'.promises = st.promises
  streams : st.streams = [] → st'.streams = []
  contexts : st.contexts = [] → st'.contexts = []
  recorders : st.recorders = [] → st'.recorders = []
  last : LastStopped st.sent → LastStopped st'.sent

namespace Shrinks

theorem trans {st'' : State} (h : Shrinks st st') (h' : Shrinks st' st'') : Shrinks st st'' where
  promises := h'.promises.trans h.promises
  streams hst := h'.streams (h.streams hst)
  contexts hst := h'.contexts (h.contexts hst)
  recorders hst := h'.recorders (h.recorders hst)
  last hst := h'.last (h.last hst)

theorem released (h : Shrinks st st') (hr : Released st) : Released st' where
  streams := h.streams hr.streams
  contexts := h.contexts hr.contexts
  recorders := h.recorders hr.recorders

theorem send {s : Status} (hs : s.IsOutcome = false) : Shrinks st (st.send s) where
  promises := rfl
  streams := id
  contexts := id
  recorders := id
  last := by
    rintro ⟨reason, h⟩
    exact ⟨reason, (lastOutcome_append_of_not hs st.sent).trans h⟩

theorem closeWs : Shrinks st st.closeWs := ⟨rfl, id, id, id, id⟩

theorem stopAll (reason : Reason) (next : Next) : Shrinks st (st.stopAll reason next).1 :=
  (send rfl).trans closeWs

theorem clearVideoRecorderState : Shrinks st st.clearVideoRecorderState where
  promises := rfl
  streams h := by
    show st.streams.filter _ = []
    rw [h, List.filter_nil]
  contexts := id
  recorders := id
  last := id

end Shrinks

theorem filter_ne_eq_nil {xs : List Nat} {o : Option Nat} (h : ∀ k ∈ xs, o = some k) :
    xs.filter (fun k => some k ≠ o) = [] := by
  rw [List.filter_eq_nil_iff]
  intro k hk
  simp [h k hk]

namespace Held

theorem send (hh : Held st) (s : Status) : Held (st.send s) := { hh with }

theorem closeWs (hh : Held st) : Held st.closeWs where
  streams := hh.streams
  contexts := hh.contexts
  recorders := hh.recorders
  sockets s hs := by
    obtain ⟨hmem, hne⟩ := List.mem_filter.mp hs
    rw [hh.sockets s hmem] at hne
    simp at hne
  handshake := nofun
  connectTimer := nofun

theorem stopAll (hh : Held st) (reason : Reason) (next : Next) : Held (st.stopAll reason next).1 :=
  (hh.send _).closeWs

/-- With no recorder that is active the reference to it can go. -/
theorem clearVideoRecorderState (hh : Held st) (hrec : st.recorders = []) :
    Held st.clearVideoRecorderState where
  streams k hk := hh.streams k (List.mem_filter.mp hk).1
  contexts := hh.contexts
  recorders k hk := by
    have hk : k ∈ st.recorders := hk
    rw [hrec] at hk
    cases hk
  sockets := hh.sockets
  handshake := hh.handshake
  connectTimer := hh.connectTimer

theorem sockets_eq_nil (hh : Held st) (hws : st.ws = none) : st.sockets = [] := by
  rw [List.eq_nil_iff_forall_not_mem]
  intro s hs
  have h := hh.sockets s hs
  rw [hws] at h
  cases h

theorem handshake_eq_none (hh : Held st) (hws : st.ws = none) : st.handshake = none := by
  rw [Option.eq_none_iff_forall_not_mem]
  intro k hk
  have h := hh.handshake k hk
  rw [hws] at h
  cases h

end Held

/-! ## How far a stop has come -/

/-- What is given back when a stop waits here. -/
def Level (st : State) : StopWait → Prop
  | .ws => True
  | .recorder | .persist | .video => st.recorders = []
  | .ctx => Released st

theorem Level.mono {w : StopWait} (h : Shrinks st st') (hl : Level st w) : Level st' w := by
  cases w with
  | ws => trivial
  | recorder | persist | video => exact h.recorders hl
  | ctx => exact h.released hl

/-- A stop goes on: it waits for the next thing, or all is given back. -/
inductive StopStep (st : State) (began : Nat) (reason : Reason) (next : Next) :
    State × Option Task → Prop
  | waits {st' : State} {w : StopWait} (shrinks : Shrinks st st') (held : Held st')
      (closed : st'.ws = none) (level : Level st' w) :
      StopStep st began reason next (st', some (.stop began reason w next))
  | ends {st' : State} (shrinks : Shrinks st st') (held : Held st') (closed : st'.ws = none)
      (released : Released st') (last : LastStopped st'.sent) :
      StopStep st began reason next (st'.goOnAfter next)

theorem stopStep_finish {began : Nat} {reason : Reason} {next : Next} (hsh : Shrinks st st')
    (hh : Held st') (hws : st'.ws = none) (hr : Released st') :
    StopStep st began reason next ((st'.finish reason).goOnAfter next) := by
  have hlast : LastStopped (st'.finish reason).sent := lastStopped_append _ _
  have hsh' : Shrinks st' (st'.finish reason) := ⟨rfl, id, id, id, fun _ => hlast⟩
  refine .ends (hsh.trans hsh') { hh with contexts := ?_ } hws { hr with } hlast
  intro k hk
  have hk : k ∈ st'.contexts := hk
  rw [hr.contexts] at hk
  cases hk

theorem finalize_spec (hh : Held st) (hws : st.ws = none) (hrec : st.recorders = [])
    (r : Reply) : Shrinks st (st.finalize r).1 ∧ Held (st.finalize r).1 ∧
      (st.finalize r).1.ws = none ∧ Level (st.finalize r).1 (st.finalize r).2 := by
  rw [finalize]
  split
  · exact ⟨⟨rfl, id, id, id, id⟩, hh, hws, hrec⟩
  · exact ⟨(Shrinks.send rfl).trans .clearVideoRecorderState,
      (hh.send _).clearVideoRecorderState hrec, hws, hrec⟩

theorem stopVideoRecorder_spec (hh : Held st) (hws : st.ws = none) (r : Reply) :
    Shrinks st (st.stopVideoRecorder r).1 ∧ Held (st.stopVideoRecorder r).1 ∧
      (st.stopVideoRecorder r).1.ws = none ∧
      Level (st.stopVideoRecorder r).1 (st.stopVideoRecorder r).2 := by
  unfold stopVideoRecorder
  split
  · next hrec =>
      refine ⟨⟨rfl, id, id, id, id⟩, hh, hws, List.eq_nil_iff_forall_not_mem.mpr ?_⟩
      intro k hk
      have h := hh.recorders k hk
      rw [hrec] at h
      cases h
  · next k hrec =>
      have hall : ∀ j ∈ st.recorders, j = k := by
        intro j hj
        have h := hh.recorders j hj
        rw [hrec] at h
        exact (Option.some.inj h).symm
      split
      · have hnil : st.recorders.filter (· ≠ k) = [] := by
          rw [List.filter_eq_nil_iff]
          intro j hj
          simp [hall j hj]
        refine ⟨⟨rfl, id, id, fun _ => hnil, id⟩, { hh with recorders := ?_ }, hws, hnil⟩
        intro j hj
        exact hh.recorders j (List.mem_filter.mp hj).1
      · next hk =>
          refine finalize_spec hh hws (List.eq_nil_iff_forall_not_mem.mpr fun j hj => ?_) r
          exact hk (hall j hj ▸ hj)

theorem stopMedia_spec (hh : Held st) (hws : st.ws = none) (hrec : st.recorders = [])
    (began : Nat) (reason : Reason) (next : Next) :
    StopStep st began reason next (st.stopMedia began reason next) := by
  have hstreams : st.streams.filter (fun k => some k ≠ st.mediaStream) = [] :=
    filter_ne_eq_nil hh.streams
  rw [stopMedia]
  generalize hst₁ : ({ st with
    workletNode := none
    streams := st.streams.filter fun k => some k ≠ st.mediaStream
    mediaStream := none } : State) = st₁
  have hsh : Shrinks st st₁ := by
    rw [← hst₁]
    exact ⟨rfl, fun _ => hstreams, id, id, id⟩
  have hh₁ : Held st₁ := by
    rw [← hst₁]
    refine { hh with streams := ?_ }
    intro k hk
    have hk : k ∈ st.streams.filter _ := hk
    rw [hstreams] at hk
    cases hk
  have hws₁ : st₁.ws = none := by
    rw [← hst₁]
    exact hws
  have hnil : st₁.streams = [] := by
    rw [← hst₁]
    exact hstreams
  split
  · next c hctx =>
      have hcontexts : st₁.contexts.filter (· ≠ c) = [] := by
        rw [List.filter_eq_nil_iff]
        intro k hk
        have h := hh₁.contexts k hk
        rw [hctx] at h
        simp [Option.some.inj h]
      refine .waits (hsh.trans ⟨rfl, id, fun _ => hcontexts, id, id⟩)
        { hh₁ with contexts := ?_ } hws₁ ⟨hnil, hcontexts, hsh.recorders hrec⟩
      intro k hk
      exact hh₁.contexts k (List.mem_filter.mp hk).1
  · next hctx =>
      refine stopStep_finish hsh hh₁ hws₁ ⟨hnil, ?_, hsh.recorders hrec⟩
      rw [List.eq_nil_iff_forall_not_mem]
      intro k hk
      have h := hh₁.contexts k hk
      rw [hctx] at h
      cases h

theorem resumeStop_spec (hh : Held st) (hws : st.ws = none) {w : StopWait} (hl : Level st w)
    (began : Nat) (reason : Reason) (next : Next) (r : Reply) :
    StopStep st began reason next (st.resumeStop began reason next r w) := by
  cases w with
  | ws =>
      have hheld : Held { st with
        worklets := st.worklets.filter fun w => some w.1 ≠ st.workletNode } := { hh with }
      obtain ⟨hsh, hh', hws', hl'⟩ := stopVideoRecorder_spec hheld hws r
      exact .waits { hsh with } hh' hws' hl'
  | recorder =>
      obtain ⟨hsh, hh', hws', hl'⟩ := finalize_spec hh hws hl r
      exact .waits hsh hh' hws' hl'
  | persist =>
      have hs : Shrinks st (st.saveVideo r) := by
        refine (Shrinks.send ?_).trans .clearVideoRecorderState
        split <;> rfl
      exact .waits hs ((hh.send _).clearVideoRecorderState hl) hws (hs.recorders hl)
  | video => exact stopMedia_spec hh hws hl began reason next
  | ctx => exact stopStep_finish ⟨rfl, id, id, id, id⟩ hh hws hl

/-! ## The list of the calls -/

/-- No call is added or taken away. -/
structure SameCalls (st st' : State) : Prop where
  tasks : st'.tasks = st.tasks
  asked : st'.stopAsked = st.stopAsked
  starts : st'.starts = st.starts

namespace SameCalls

theorem refl : SameCalls st st := ⟨rfl, rfl, rfl⟩

theorem trans {st'' : State} (h : SameCalls st st') (h' : SameCalls st' st'') :
    SameCalls st st'' where
  tasks := h'.tasks.trans h.tasks
  asked := h'.asked.trans h.asked
  starts := h'.starts.trans h.starts

theorem send (s : Status) : SameCalls st (st.send s) := ⟨rfl, rfl, rfl⟩

theorem stopAll (reason : Reason) (next : Next) : SameCalls st (st.stopAll reason next).1 :=
  ⟨rfl, rfl, rfl⟩

theorem throw : SameCalls st st.throw.1 := stopAll .startError .done

theorem clearVideoRecorderState : SameCalls st st.clearVideoRecorderState := ⟨rfl, rfl, rfl⟩

theorem finish (reason : Reason) : SameCalls st (st.finish reason) := ⟨rfl, rfl, rfl⟩

theorem goOnAfter (next : Next) : SameCalls st (st.goOnAfter next).1 := by
  cases next with
  | done => exact .refl
  | wsFail => exact throw
  | start n p =>
      simp only [State.goOnAfter, getMedia]
      split
      · exact (send .starting).trans (send .picker)
      · split
        · exact send .starting
        · exact (send .starting).trans ((send (.error .getMedia)).trans throw)

theorem finalize (r : Reply) : SameCalls st (st.finalize r).1 := by
  rw [State.finalize]
  split
  · exact .refl
  · exact (send (.recordingError .finalize)).trans clearVideoRecorderState

theorem settle (k : Nat) (ok : Bool) : SameCalls st (st.settle k ok) := by
  rw [State.settle]
  split <;> exact ⟨rfl, rfl, rfl⟩

theorem settleHandshake (ok : Bool) : SameCalls st (st.settleHandshake ok) := by
  unfold State.settleHandshake
  split
  · next k _ => exact (settle k ok).trans ⟨rfl, rfl, rfl⟩
  · exact .refl

theorem rejectHandshakeIfAny : SameCalls st st.rejectHandshakeIfAny := by
  rw [State.rejectHandshakeIfAny]
  split
  · exact .refl
  · exact settleHandshake false

theorem resolveHandshakeIfAny : SameCalls st st.resolveHandshakeIfAny := by
  have hok : SameCalls st { st with handshakeOk := true } := ⟨rfl, rfl, rfl⟩
  rw [State.resolveHandshakeIfAny]
  split
  · exact .refl
  · exact hok.trans (settleHandshake true)

theorem resumeStop (began : Nat) (reason : Reason) (next : Next) (r : Reply) (w : StopWait) :
    SameCalls st (st.resumeStop began reason next r w).1 := by
  cases w with
  | ws =>
      have hoff : SameCalls st { st with
        worklets := st.worklets.filter fun w => some w.1 ≠ st.workletNode } := ⟨rfl, rfl, rfl⟩
      refine hoff.trans ?_
      simp only [State.resumeStop, stopVideoRecorder]
      split
      · exact .refl
      · split
        · exact ⟨rfl, rfl, rfl⟩
        · exact finalize r
  | recorder => exact finalize r
  | persist =>
      exact (send (if r = .ok then .recordingSaved else .recordingError .persist)).trans
        clearVideoRecorderState
  | video =>
      have hoff : SameCalls st { st with
        workletNode := none
        streams := st.streams.filter fun k => some k ≠ st.mediaStream
        mediaStream := none } := ⟨rfl, rfl, rfl⟩
      refine hoff.trans ?_
      simp only [State.resumeStop, stopMedia]
      split
      · exact ⟨rfl, rfl, rfl⟩
      · exact (finish reason).trans (goOnAfter next)
  | ctx => exact (finish reason).trans (goOnAfter next)

theorem newAudioContext (n : Nat) (p : Payload) : SameCalls st (st.newAudioContext n p).1 :=
  ⟨rfl, rfl, rfl⟩

theorem startRecorder (n : Nat) (p : Payload) (rec : RecorderInit) :
    SameCalls st (st.startRecorder n p rec).1 := by
  cases rec with
  | unsupported => exact (send (.recordingError .init)).trans throw
  | throws =>
      have hset : SameCalls st { st with recorder := some n } := ⟨rfl, rfl, rfl⟩
      exact hset.trans ((send (.recordingError .init)).trans throw)
  | started => exact ⟨rfl, rfl, rfl⟩

theorem takeMedia (n : Nat) (p : Payload) (audio : Bool) (rec : RecorderInit) :
    SameCalls st (st.takeMedia n p audio rec).1 := by
  have htake : SameCalls st ({ st with
    mediaStream := some n
    streams := n :: st.streams
    shared := if p.display then n :: st.shared else st.shared }.send .mediaOk) := ⟨rfl, rfl, rfl⟩
  simp only [State.takeMedia]
  generalize State.send .mediaOk _ = st₁ at htake
  refine htake.trans ?_
  split
  · exact (send (.error .noAudio)).trans throw
  · split
    · exact startRecorder n p rec
    · exact newAudioContext n p

theorem resumeStart {n : Nat} {p : Payload} {r : Reply} {w : StartWait}
    {res : State × Option Task} (h : st.resumeStart n p r w = some res) : SameCalls st res.1 := by
  cases w with
  | media =>
      injection h with h
      rw [← h]
      split
      · split
        · exact (send (.error .getMedia)).trans throw
        · exact takeMedia n p ..
      · exact (send (.error .getMedia)).trans throw
      · exact (send (.error .getMedia)).trans throw
  | recorder =>
      injection h with h
      rw [← h]
      exact newAudioContext n p
  | resume =>
      injection h with h
      rw [← h]
      split
      · exact .refl
      · exact throw
  | addModule =>
      injection h with h
      rw [← h]
      simp only [buildGraph]
      split
      · split
        · exact throw
        · exact ⟨rfl, rfl, rfl⟩
      · exact throw
  | closeWs =>
      injection h with h
      rw [← h]
      have hsend : SameCalls st ({ st with handshakeOk := false }.send .wsConnecting) :=
        ⟨rfl, rfl, rfl⟩
      refine hsend.trans ?_
      split
      · exact ⟨rfl, rfl, rfl⟩
      · exact rejectHandshakeIfAny.trans ((send (.error .ws)).trans (stopAll .wsFail .wsFail))
  | socket =>
      obtain ⟨ok, -, rfl⟩ := Option.map_eq_some_iff.mp h
      cases ok with
      | true => exact send .running
      | false => exact (send (.error .ws)).trans (stopAll .wsFail .wsFail)

theorem onChunk (k : Nat) (first : Bool) (bytes bufferedAmount : Nat) :
    SameCalls st (st.onChunk k first bytes bufferedAmount) := by
  have hdrop : SameCalls st (st.shouldDropPcmByBackpressure bufferedAmount).1 := by
    rw [shouldDropPcmByBackpressure]
    split
    · split <;> exact ⟨rfl, rfl, rfl⟩
    · exact .refl
  simp only [State.onChunk]
  split
  · generalize st.shouldDropPcmByBackpressure bufferedAmount = res at hdrop
    obtain ⟨st₁, drop⟩ := res
    have h₁ : SameCalls st st₁ := hdrop
    split
    · exact h₁.trans ⟨rfl, rfl, rfl⟩
    · split
      · exact h₁.trans ⟨rfl, rfl, rfl⟩
      · refine SameCalls.trans ?_ .resolveHandshakeIfAny
        exact h₁.trans ⟨rfl, rfl, rfl⟩
  · exact .refl

end SameCalls

theorem step_resume {i : Nat} {r : Reply} (h : st.step (.resume i r) = some st') :
    ∃ task st₁ next, st.tasks[i]? = some task ∧ st.resume r task = some (st₁, next) ∧
      st' = { st₁ with tasks := goOn st₁.tasks i next } := by
  simp only [step, Option.bind_eq_bind, Option.bind_eq_some_iff] at h
  obtain ⟨task, hi, ⟨st₁, next⟩, hres, h⟩ := h
  exact ⟨task, st₁, next, hi, hres, (Option.some.inj h).symm⟩

/-- Which step is taken when, and what is then; `step_resume` says it of the calls. -/
inductive Takes (st : State) : Label → State → Prop
  | start {p} : Takes st (.start p) (st.start p)
  | stop : Takes st .stop (st.stopAllNow .stop)
  | resume {i r st'} : st.step (.resume i r) = some st' → Takes st (.resume i r) st'
  | socketOpen {k} : (k, .connecting) ∈ st.sockets → Takes st (.socketOpen k) (st.onopen k)
  | socketClose {k busy} : (st.sockets.lookup k).isSome →
      Takes st (.socketClose k busy) (st.onclose k busy)
  | socketError {k} : (st.sockets.lookup k).isSome → Takes st (.socketError k) (st.onerror k)
  | connectTimeout {k} : st.connectTimer = some k →
      Takes st .connectTimeout
        (({ st with connectTimer := none }.send .wsError).close k |>.settle k false)
  | handshakeTimeout {k} : st.handshake = some k →
      Takes st .handshakeTimeout (st.settle k false)
  | message {k m} : (k, .opened) ∈ st.sockets →
      Takes st (.message k m) { st with tasks := st.tasks ++ [.message m] }
  | chunk {n bytes bufferedAmount first} : st.worklets.lookup n = some first →
      Takes st (.chunk n bytes bufferedAmount) (st.onChunk n first bytes bufferedAmount)
  | trackEnded {k} : Takes st (.trackEnded k) ((st.send .ended).stopAllNow .trackEnded)
  | windowError {rejection} :
      Takes st (.windowError rejection)
        ((st.send .serverError).stopAllNow (if rejection then .unhandledRejection else .error))

theorem step_takes {l : Label} (hstep : st.step l = some st') : Takes st l st' := by
  cases l with
  | start p => exact Option.some.inj hstep ▸ .start
  | stop => exact Option.some.inj hstep ▸ .stop
  | resume i r => exact .resume hstep
  | socketOpen k =>
      simp only [step] at hstep
      split at hstep
      · next hk => exact Option.some.inj hstep ▸ .socketOpen hk
      · cases hstep
  | socketClose k busy =>
      simp only [step] at hstep
      split at hstep
      · next hk => exact Option.some.inj hstep ▸ .socketClose hk
      · cases hstep
  | socketError k =>
      simp only [step] at hstep
      split at hstep
      · next hk => exact Option.some.inj hstep ▸ .socketError hk
      · cases hstep
  | connectTimeout =>
      obtain ⟨k, hk, rfl⟩ := Option.map_eq_some_iff.mp hstep
      exact .connectTimeout hk
  | handshakeTimeout =>
      obtain ⟨k, hk, rfl⟩ := Option.map_eq_some_iff.mp hstep
      exact .handshakeTimeout hk
  | message k m =>
      simp only [step] at hstep
      split at hstep
      · next hk => exact Option.some.inj hstep ▸ .message hk
      · cases hstep
  | chunk n bytes bufferedAmount =>
      obtain ⟨first, hfirst, rfl⟩ := Option.map_eq_some_iff.mp hstep
      exact .chunk hfirst
  | trackEnded k =>
      simp only [step] at hstep
      split at hstep
      · exact Option.some.inj hstep ▸ .trackEnded
      · cases hstep
  | windowError rejection => exact Option.some.inj hstep ▸ .windowError

/-! ## The sockets and the promises -/

theorem mem_setReady {k : Nat} {ready : ReadyState} {sockets : List (Nat × ReadyState)}
    {s : Nat × ReadyState} (hs : s ∈ setReady k ready sockets) : ∃ s' ∈ sockets, s'.1 = s.1 := by
  obtain ⟨s', hmem, rfl⟩ := List.mem_map.mp hs
  refine ⟨s', hmem, ?_⟩
  split
  · next h => exact h
  · rfl

theorem mem_of_lookup {k : Nat} {sockets : List (Nat × ReadyState)}
    (h : (sockets.lookup k).isSome) : ∃ s ∈ sockets, s.1 = k := by
  obtain ⟨ready, hready⟩ := Option.isSome_iff_exists.mp h
  obtain ⟨l₁, l₂, rfl, -⟩ := List.lookup_eq_some_iff.mp hready
  exact ⟨(k, ready), List.mem_append_right _ List.mem_cons_self, rfl⟩

theorem lookup_settle_of_ne {k m : Nat} (hne : m ≠ k) (ok : Bool) :
    (st.settle k ok).promises.lookup m = st.promises.lookup m := by
  rw [settle]
  split
  · rfl
  · simp [List.lookup_cons, beq_false_of_ne hne]

theorem lookup_settle_false {k m : Nat}
    (h : (st.settle k false).promises.lookup m = some true) :
    st.promises.lookup m = some true := by
  by_cases hmk : m = k
  · rw [settle] at h
    split at h
    · exact h
    · simp [hmk] at h
  · rwa [lookup_settle_of_ne hmk] at h

theorem Held.settle (hh : Held st) (k : Nat) (ok : Bool) : Held (st.settle k ok) := by
  rw [State.settle]
  split
  · exact hh
  · exact { hh with }

end State

def Task.IsStop : Task → Prop
  | .stop .. => True
  | .start .. | .message _ => False

/-- What the task that takes resources can rely on. -/
def Task.Acquires (st : State) : Task → Prop
  | .message _ => False
  | .start _ _ .media => st.Released
  | .start _ _ .recorder => st.contexts = []
  | .start _ _ .resume | .start _ _ .addModule | .start _ _ .closeWs => True
  | .start _ _ .socket => False
  | .stop _ _ wait (.start ..) => st.Level wait
  | .stop _ _ _ .done | .stop _ _ _ .wsFail => False

namespace State

variable {st st' : State}

/-! ## Starts -/

/-- A start goes on: it takes the next thing, or stops everything, or has its
socket. -/
inductive StartStep (promises : List (Nat × Bool)) (n : Nat) (p : Payload) : State × Option Task → Prop
  | takes {st' : State} {task : Task} (same : st'.promises = promises) (held : Held st')
      (closed : st'.ws = none) (acquires : task.Acquires st') : StartStep promises n p (st', some task)
  | fails {st' : State} (same : st'.promises = promises) (held : Held st')
      (reason : Reason) {after : Next} (hafter : ∀ m q, after ≠ .start m q) :
      StartStep promises n p ((st'.stopAll reason after).1, some (st'.stopAll reason after).2)
  | connects {st' : State} (same : st'.promises = promises) (held : Held st')
      (current : ∀ k ∈ st'.ws, k = n) : StartStep promises n p (st', some (.start n p .socket))

theorem StartStep.throw {n : Nat} {p : Payload} (hpromises : st'.promises = st.promises)
    (hh : Held st') : StartStep st.promises n p st'.throw :=
  .fails hpromises hh .startError nofun

theorem getMedia_spec (hh : Held st) (hws : st.ws = none) (hr : Released st) (n : Nat)
    (p : Payload) : StartStep st.promises n p (st.getMedia n p) := by
  have hacq : ∀ st' : State, Released st' → (Task.start n p .media).Acquires st' := fun _ h => h
  simp only [getMedia]
  split
  · exact .takes rfl ((hh.send _).send _) hws (hacq _ { hr with })
  · split
    · exact .takes rfl (hh.send _) hws (hacq _ { hr with })
    · exact .throw rfl ((hh.send _).send _)

theorem newAudioContext_spec (hh : Held st) (hws : st.ws = none) (hctx : st.contexts = [])
    (n : Nat) (p : Payload) : StartStep st.promises n p (st.newAudioContext n p) := by
  refine .takes rfl { hh with contexts := ?_ } hws trivial
  intro k hk
  have hk : k ∈ n :: st.contexts := hk
  rw [hctx, List.mem_singleton] at hk
  exact congrArg some hk.symm

theorem startRecorder_spec (hh : Held st) (hws : st.ws = none) (hrec : st.recorders = [])
    (hctx : st.contexts = []) (n : Nat) (p : Payload) (rec : RecorderInit) :
    StartStep st.promises n p (st.startRecorder n p rec) := by
  cases rec with
  | unsupported => exact .throw rfl (hh.send _)
  | throws =>
      have hset : Held { st with recorder := some n } := by
        refine { hh with recorders := ?_ }
        intro k hk
        have hk : k ∈ st.recorders := hk
        rw [hrec] at hk
        cases hk
      exact .throw rfl (hset.send (.recordingError .init))
  | started =>
      have hset : Held { st with recorder := some n, recorders := n :: st.recorders } := by
        refine { hh with recorders := ?_ }
        intro k hk
        have hk : k ∈ n :: st.recorders := hk
        rw [hrec, List.mem_singleton] at hk
        exact congrArg some hk.symm
      exact .takes rfl (hset.send .recordingStarted) hws hctx

theorem takeMedia_spec (hh : Held st) (hws : st.ws = none) (hr : Released st) (n : Nat)
    (p : Payload) (audio : Bool) (rec : RecorderInit) :
    StartStep st.promises n p (st.takeMedia n p audio rec) := by
  have htake : Held ({ st with
      mediaStream := some n
      streams := n :: st.streams
      shared := if p.display then n :: st.shared else st.shared }.send .mediaOk) := by
    refine { hh with streams := ?_ }
    intro k hk
    have hk : k ∈ n :: st.streams := hk
    rw [hr.streams, List.mem_singleton] at hk
    exact congrArg some hk.symm
  simp only [takeMedia]
  split
  · exact .throw rfl (htake.send _)
  · split
    · exact startRecorder_spec htake hws hr.recorders hr.contexts n p rec
    · exact newAudioContext_spec htake hws hr.contexts n p

theorem strictWs_reject : st.rejectHandshakeIfAny.strictWs = st.strictWs := by
  simp only [rejectHandshakeIfAny, settleHandshake, settle]
  split
  · rfl
  · split
    · split <;> rfl
    · rfl

theorem rejectHandshakeIfAny_of_none (h : st.handshake = none) : st.rejectHandshakeIfAny = st := by
  simp [rejectHandshakeIfAny, settleHandshake, h]

theorem resumeStart_spec (hh : Held st) (hws : st.ws = none) {n : Nat} {p : Payload} {r : Reply}
    {w : StartWait} {res : State × Option Task} (hacq : (Task.start n p w).Acquires st)
    (h : st.resumeStart n p r w = some res) : StartStep st.promises n p res := by
  cases w with
  | media =>
      injection h with h
      rw [← h]
      split
      · split
        · exact .throw rfl (hh.send _)
        · exact takeMedia_spec hh hws hacq n p _ _
      · exact .throw rfl (hh.send _)
      · exact .throw rfl (hh.send _)
  | recorder =>
      injection h with h
      rw [← h]
      exact newAudioContext_spec hh hws hacq n p
  | resume =>
      injection h with h
      rw [← h]
      split
      · exact .takes rfl hh hws trivial
      · exact .throw rfl hh
  | addModule =>
      injection h with h
      rw [← h]
      simp only [buildGraph]
      split
      · split
        · exact .throw rfl hh
        · have hgraph : Held ({ st with
            workletNode := some n, worklets := (n, false) :: st.worklets }.send .audioGraphOk) :=
            { hh with }
          exact .takes rfl hgraph.closeWs rfl trivial
      · exact .throw rfl hh
  | closeWs =>
      have hsend : Held ({ st with handshakeOk := false }.send .wsConnecting) := { hh with }
      injection h with h
      rw [← h]
      split
      · refine .connects rfl { hsend with sockets := ?_, handshake := ?_, connectTimer := ?_ } ?_
        · intro s hs
          have hs : s ∈ (n, .connecting) :: st.sockets := hs
          rw [hh.sockets_eq_nil hws, List.mem_singleton] at hs
          rw [hs]
        · intro k hk
          have hk : k ∈ st.handshake := hk
          rw [hh.handshake_eq_none hws] at hk
          cases hk
        · intro k hk
          exact hk
        · intro k hk
          exact (Option.some.inj hk).symm
      · rw [rejectHandshakeIfAny_of_none (hsend.handshake_eq_none hws)]
        exact .fails rfl (hsend.send (.error .ws)) .wsFail nofun
  | socket => exact hacq.elim

end State

/-- A tab is captured without a recording. -/
def tab : Payload := ⟨true, true, false, false, true⟩

end VTranser.Offscreen

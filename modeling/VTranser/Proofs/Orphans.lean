import VTranser.Proofs.StopWins

/-!
# When a start is never orphaned

A start that waits for its socket goes on when the promise of `openWs` is settled, and
nobody settles it but the connect timer, the handshake or the handlers of the socket.
Both timers are of a socket that has its handlers (`Wired`), so what matters is who
takes them off: `closeWs` does of the current socket, and without a word to the promise,
and `onclose` of its own. If either happens to a start that waits, and its handshake is
not rejected in the same step, nothing is left that could wake it.

`Moves` is what a step does to the handlers, the promises and the starts that wait, and
`Moves.keeps_iff` what follows of it.
-/

namespace VTranser.Offscreen

open Run Tasks

namespace State

/-! ## Starts that wait -/

/-- A start waits for its socket. -/
def Waits (st : State) (n : Nat) : Prop := ∃ p, Task.start n p .socket ∈ st.tasks

/-- The promise of its `openWs` is not settled yet. -/
def Pending (st : State) (n : Nat) : Prop := st.Waits n ∧ st.promises.lookup n = none

/-- The connect timer or the handshake timer is its own, or its socket has its handlers. -/
def CanSettle (st : State) (n : Nat) : Prop :=
  st.connectTimer = some n ∨ st.handshake = some n ∨ (st.sockets.lookup n).isSome

def NoOrphan (st : State) : Prop := ∀ n, st.Pending n → st.CanSettle n

/-- The socket has its handlers. -/
def Attached (st : State) (n : Nat) : Prop := ∃ ready, (n, ready) ∈ st.sockets

/-- Whose timer is armed or whose handshake is under way has its handlers. -/
structure Wired (st : State) : Prop where
  timer : ∀ k ∈ st.connectTimer, st.Attached k
  handshake : ∀ k ∈ st.handshake, st.Attached k ∧ st.handshakeOk = false

variable {st st' st'' : State}

theorem attached_iff {n : Nat} : (st.sockets.lookup n).isSome ↔ st.Attached n := by
  rw [List.lookup_isSome_iff]
  constructor
  · rintro ⟨⟨k, ready⟩, hmem, hk⟩
    obtain rfl : n = k := by simpa using hk
    exact ⟨ready, hmem⟩
  · rintro ⟨ready, hmem⟩
    exact ⟨(n, ready), hmem, by simp⟩

theorem Wired.noOrphan_iff (hw : Wired st) : NoOrphan st ↔ ∀ n, st.Pending n → st.Attached n := by
  refine forall_congr' fun n => imp_congr_right fun _ => ?_
  rw [CanSettle, attached_iff]
  constructor
  · rintro (htimer | hhand | hattached)
    · exact hw.timer n htimer
    · exact (hw.handshake n hhand).1
    · exact hattached
  · exact fun hattached => Or.inr (Or.inr hattached)

/-! ## What leaves the socket alone -/

/-- The socket, its handlers, its timers and the promises are as they were. -/
structure SameWs (st st' : State) : Prop where
  ws : st'.ws = st.ws
  sockets : st'.sockets = st.sockets
  promises : st'.promises = st.promises
  handshake : st'.handshake = st.handshake
  connectTimer : st'.connectTimer = st.connectTimer
  ok : st.handshakeOk = false → st'.handshakeOk = false

namespace SameWs

theorem refl : SameWs st st := ⟨rfl, rfl, rfl, rfl, rfl, id⟩

theorem trans (h : SameWs st st') (h' : SameWs st' st'') : SameWs st st'' where
  ws := h'.ws.trans h.ws
  sockets := h'.sockets.trans h.sockets
  promises := h'.promises.trans h.promises
  handshake := h'.handshake.trans h.handshake
  connectTimer := h'.connectTimer.trans h.connectTimer
  ok hok := h'.ok (h.ok hok)

theorem send (s : Status) : SameWs st (st.send s) := ⟨rfl, rfl, rfl, rfl, rfl, id⟩

theorem closeWs (h : SameWs st st') : SameWs st.closeWs st'.closeWs where
  ws := rfl
  sockets := by
    show st'.sockets.filter _ = st.sockets.filter _
    rw [h.ws, h.sockets]
  promises := h.promises
  handshake := rfl
  connectTimer := rfl
  ok := h.ok

theorem stopAll (h : SameWs st st') (reason : Reason) (next : Next) :
    SameWs st.closeWs (st'.stopAll reason next).1 :=
  (h.trans (send _)).closeWs

theorem clearVideoRecorderState : SameWs st st.clearVideoRecorderState :=
  ⟨rfl, rfl, rfl, rfl, rfl, id⟩

theorem finish (reason : Reason) : SameWs st (st.finish reason) :=
  ⟨rfl, rfl, rfl, rfl, rfl, fun _ => rfl⟩

theorem finalize (r : Reply) : SameWs st (st.finalize r).1 := by
  rw [State.finalize]
  split
  · exact refl
  · exact (send _).trans clearVideoRecorderState

theorem stopVideoRecorder (r : Reply) : SameWs st (st.stopVideoRecorder r).1 := by
  unfold State.stopVideoRecorder
  split
  · exact refl
  · split
    · exact ⟨rfl, rfl, rfl, rfl, rfl, id⟩
    · exact finalize r

end SameWs

end State

/-! ## The calls -/

/-- What follows a `stopAll` throws at once. -/
def Next.Throws : Next → Prop
  | .done => False
  | .start _ p => p.display = false ∧ p.streamId = false
  | .wsFail => True

/-- The media has audio, and the recorder starts if it shall. -/
def Payload.Served (p : Payload) (r : Reply) : Prop :=
  ∃ recorder, r = .media true recorder ∧ (p.recording = true → recorder = .started)

/-- A call that goes on comes to a `closeWs`: that of a `stopAll`, or its own. -/
def Task.ClosesWs (st : State) (r : Reply) : Task → Prop
  | .stop _ _ .ws _ | .stop _ _ .recorder _ | .stop _ _ .persist _ => False
  | .stop _ _ .video next => st.audioCtx = none ∧ next.Throws
  | .stop _ _ .ctx next => next.Throws
  | .start _ p .media => ¬ p.Served r
  | .start _ _ .recorder => False
  | .start _ _ .resume => ¬ (r = .ok ∧ st.audioCtx.isSome)
  | .start _ _ .addModule => True
  | .start _ _ .closeWs => r ≠ .ok
  | .start n _ .socket => st.promises.lookup n = some false
  | .message m => st.MessageStops m

namespace State

variable {st st' st'' : State}

/-- A call closes the socket, or leaves it alone, and does not begin to wait for one. -/
structure CallStep (closes : Prop) (st : State) (res : State × Option Task) : Prop where
  closed : closes → SameWs st.closeWs res.1
  quiet : ¬ closes → SameWs st res.1
  next : ∀ n p, Task.start n p .socket ∉ res.2

namespace CallStep

variable {closes : Prop} {res : State × Option Task}

theorem of_same (h : SameWs st st') (hres : CallStep closes st' res) : CallStep closes st res where
  closed hc := h.closeWs.trans (hres.closed hc)
  quiet hc := h.trans (hres.quiet hc)
  next := hres.next

theorem stopAll (hc : closes) (h : SameWs st st') (reason : Reason) (next : Next) :
    CallStep closes st ((st'.stopAll reason next).1, some (st'.stopAll reason next).2) where
  closed _ := h.stopAll reason next
  quiet hnot := absurd hc hnot
  next _ _ := nofun

theorem throw (hc : closes) (h : SameWs st st') : CallStep closes st st'.throw :=
  stopAll hc h .startError .done

theorem waits (hc : ¬ closes) (h : SameWs st st') {next : Option Task}
    (hnext : ∀ n p, Task.start n p .socket ∉ next) : CallStep closes st (st', next) where
  closed hyes := absurd hyes hc
  quiet _ := h
  next := hnext

theorem getMedia (n : Nat) (p : Payload) :
    CallStep (p.display = false ∧ p.streamId = false) st (st.getMedia n p) := by
  simp only [State.getMedia]
  split
  · next hdisplay =>
    exact waits (by simp [hdisplay]) ((SameWs.send _).trans (.send _)) (by rintro _ _ ⟨⟩)
  · split
    · next hstream => exact waits (by simp [hstream]) (.send _) (by rintro _ _ ⟨⟩)
    · next hdisplay hstream =>
      exact throw (by simp_all) ((SameWs.send _).trans (.send _))

theorem goOnAfter (next : Next) : CallStep next.Throws st (st.goOnAfter next) := by
  cases next with
  | done => exact waits id .refl nofun
  | start n p => exact getMedia n p
  | wsFail => exact throw trivial .refl

theorem stopMedia (began : Nat) (reason : Reason) (next : Next) :
    CallStep (st.audioCtx = none ∧ next.Throws) st (st.stopMedia began reason next) := by
  have hoff : SameWs st { st with
    workletNode := none
    streams := st.streams.filter fun k => some k ≠ st.mediaStream
    mediaStream := none } := ⟨rfl, rfl, rfl, rfl, rfl, id⟩
  cases hctx : st.audioCtx with
  | some c =>
      simp only [State.stopMedia, hctx]
      refine ⟨fun hyes => absurd hyes (by simp), fun _ => ?_, by rintro _ _ ⟨⟩⟩
      exact ⟨rfl, rfl, rfl, rfl, rfl, id⟩
  | none =>
      simp only [State.stopMedia, hctx, true_and]
      exact of_same (hoff.trans (.finish reason)) (goOnAfter next)

theorem resumeStop (began : Nat) (reason : Reason) (next : Next) (r : Reply) (w : StopWait) :
    CallStep ((Task.stop began reason w next).ClosesWs st r) st
      (st.resumeStop began reason next r w) := by
  cases w with
  | ws =>
      have hoff : SameWs st { st with
        worklets := st.worklets.filter fun w => some w.1 ≠ st.workletNode } :=
        ⟨rfl, rfl, rfl, rfl, rfl, id⟩
      exact waits id (hoff.trans (.stopVideoRecorder r)) nofun
  | recorder => exact waits id (.finalize r) nofun
  | persist => exact waits id ((SameWs.send _).trans .clearVideoRecorderState) nofun
  | video => exact stopMedia began reason next
  | ctx => exact of_same (.finish reason) (goOnAfter next)

theorem newAudioContext {closes : Prop} (hc : ¬ closes) (n : Nat) (p : Payload) :
    CallStep closes st (st.newAudioContext n p) :=
  ⟨fun hyes => absurd hyes hc, fun _ => ⟨rfl, rfl, rfl, rfl, rfl, id⟩, fun _ _ => nofun⟩

theorem takeMedia (n : Nat) (p : Payload) (audio : Bool) (rec : RecorderInit) :
    CallStep (¬ p.Served (.media audio rec)) st (st.takeMedia n p audio rec) := by
  have htake : SameWs st ({ st with
    mediaStream := some n
    streams := n :: st.streams
    shared := if p.display then n :: st.shared else st.shared }.send .mediaOk) :=
    ⟨rfl, rfl, rfl, rfl, rfl, id⟩
  simp only [State.takeMedia]
  generalize State.send .mediaOk _ = st₁ at htake
  refine of_same htake ?_
  cases audio with
  | false => exact throw (by simp [Payload.Served]) (.send _)
  | true =>
      split
      · next hno => simp at hno
      · split
        · next hrec =>
          cases rec with
          | unsupported => exact throw (by simp [Payload.Served, hrec]) (.send _)
          | throws =>
              have hset : SameWs st₁ { st₁ with recorder := some n } :=
                ⟨rfl, rfl, rfl, rfl, rfl, id⟩
              exact throw (by simp [Payload.Served, hrec]) (hset.trans (.send _))
          | started =>
              have hset : SameWs st₁ { st₁ with
                recorder := some n, recorders := n :: st₁.recorders } :=
                ⟨rfl, rfl, rfl, rfl, rfl, id⟩
              exact waits (by simp [Payload.Served]) (hset.trans (.send _)) (by rintro _ _ ⟨⟩)
        · next hrec => exact newAudioContext (by simp [Payload.Served, hrec]) n p

/-- A start goes on before it has a socket of its own. -/
theorem resumeStart {n : Nat} {p : Payload} {r : Reply} {w : StartWait} (hw : w ≠ .closeWs)
    {res : State × Option Task} (h : st.resumeStart n p r w = some res) :
    CallStep ((Task.start n p w).ClosesWs st r) st res := by
  cases w with
  | media =>
      injection h with h
      rw [← h]
      cases r with
      | media audio rec =>
          dsimp only
          split
          · next hfail =>
            refine throw ?_ (.send _)
            rintro ⟨rec', hserved, -⟩
            cases hserved
            simp at hfail
          · exact takeMedia n p audio rec
      | ok | failed => exact throw (by simp [Task.ClosesWs, Payload.Served]) (.send _)
  | recorder =>
      injection h with h
      rw [← h]
      exact newAudioContext id n p
  | resume =>
      injection h with h
      rw [← h]
      split
      · next hok => exact waits (not_not_intro hok) .refl (by rintro _ _ ⟨⟩)
      · next hfail => exact throw hfail .refl
  | addModule =>
      injection h with h
      rw [← h]
      simp only [buildGraph]
      split
      · split
        · exact throw trivial .refl
        · have hgraph : SameWs st ({ st with
            workletNode := some n, worklets := (n, false) :: st.worklets }.send .audioGraphOk) :=
            ⟨rfl, rfl, rfl, rfl, rfl, id⟩
          exact ⟨fun _ => hgraph.closeWs, fun hnot => absurd trivial hnot, by rintro _ _ ⟨⟩⟩
      · exact throw trivial .refl
  | closeWs => exact absurd rfl hw
  | socket =>
      obtain ⟨ok, hlookup, rfl⟩ := Option.map_eq_some_iff.mp h
      cases ok with
      | true => exact waits (by simp [Task.ClosesWs, hlookup]) (.send _) (by rintro _ _ ⟨⟩)
      | false => exact stopAll hlookup (.send _) .wsFail .wsFail

end CallStep

/-! ## What settles a promise -/

theorem settle_none {k n : Nat} {ok : Bool} :
    (st.settle k ok).promises.lookup n = none ↔ st.promises.lookup n = none ∧ n ≠ k := by
  by_cases hnk : n = k
  · subst hnk
    rw [settle]
    split
    · next hsome => simpa using Option.isSome_iff_ne_none.mp hsome
    · simp
  · rw [lookup_settle_of_ne hnk, and_iff_left hnk]

theorem settleHandshake_none {n : Nat} {ok : Bool} :
    (st.settleHandshake ok).promises.lookup n = none ↔
      st.promises.lookup n = none ∧ st.handshake ≠ some n := by
  unfold settleHandshake
  split
  · next k hk =>
    have hne : st.handshake ≠ some n ↔ n ≠ k := by
      rw [hk]
      simp [eq_comm]
    rw [hne]
    exact settle_none
  · next hk => simp [hk]

theorem settleHandshake_handshake (ok : Bool) : (st.settleHandshake ok).handshake = none := by
  unfold settleHandshake
  split
  · rfl
  · assumption

/-- A handshake that is under way is not ok yet, so it is rejected. -/
theorem reject_eq (hok : ∀ k ∈ st.handshake, st.handshakeOk = false) :
    st.rejectHandshakeIfAny = st.settleHandshake false := by
  rw [rejectHandshakeIfAny]
  split
  · next htrue =>
    have hnone : st.handshake = none := by
      rw [Option.eq_none_iff_forall_not_mem]
      intro k hk
      rw [hok k hk] at htrue
      cases htrue
    simp [settleHandshake, hnone]
  · rfl

theorem SameWs.settleHandshake (h : SameWs st st') (ok : Bool) :
    SameWs (st.settleHandshake ok) (st'.settleHandshake ok) := by
  unfold State.settleHandshake State.settle
  rw [h.handshake, h.promises]
  split
  · split
    · exact { h with handshake := rfl }
    · exact { h with handshake := rfl, promises := rfl }
  · exact h

/-- A handshake is rejected, whatever was done before that leaves the socket alone. -/
theorem SameWs.reject (h : SameWs st st') (hok : ∀ k ∈ st.handshake, st.handshakeOk = false) :
    SameWs (st.settleHandshake false) st'.rejectHandshakeIfAny := by
  rw [reject_eq fun k hk => h.ok (hok k (h.handshake ▸ hk))]
  exact h.settleHandshake false

/-! ## What keeps the handlers -/

/-- The handlers and the calls stay as they are, and no promise is taken back. -/
structure KeepsHandlers (st st' : State) : Prop where
  attached : ∀ n, st'.Attached n ↔ st.Attached n
  ws : st'.ws = st.ws
  promises : ∀ n, st'.promises.lookup n = none → st.promises.lookup n = none
  tasks : st'.tasks = st.tasks

namespace KeepsHandlers

theorem refl : KeepsHandlers st st := ⟨fun _ => Iff.rfl, rfl, fun _ => id, rfl⟩

theorem trans (h : KeepsHandlers st st') (h' : KeepsHandlers st' st'') : KeepsHandlers st st'' where
  attached n := (h'.attached n).trans (h.attached n)
  ws := h'.ws.trans h.ws
  promises n hn := h.promises n (h'.promises n hn)
  tasks := h'.tasks.trans h.tasks

theorem send (s : Status) : KeepsHandlers st (st.send s) :=
  ⟨fun _ => Iff.rfl, rfl, fun _ => id, rfl⟩

theorem settle (k : Nat) (ok : Bool) : KeepsHandlers st (st.settle k ok) where
  attached n := by
    rw [State.settle]
    split <;> exact Iff.rfl
  ws := by
    rw [State.settle]
    split <;> rfl
  promises n hn := (settle_none.mp hn).1
  tasks := (SameCalls.settle k ok).tasks

theorem settleHandshake (ok : Bool) : KeepsHandlers st (st.settleHandshake ok) := by
  unfold State.settleHandshake
  split
  · exact (settle _ ok).trans ⟨fun _ => Iff.rfl, rfl, fun _ => id, rfl⟩
  · exact refl

theorem rejectHandshakeIfAny : KeepsHandlers st st.rejectHandshakeIfAny := by
  rw [State.rejectHandshakeIfAny]
  split
  · exact refl
  · exact settleHandshake false

theorem resolveHandshakeIfAny : KeepsHandlers st st.resolveHandshakeIfAny := by
  have hok : KeepsHandlers st { st with handshakeOk := true } :=
    ⟨fun _ => Iff.rfl, rfl, fun _ => id, rfl⟩
  rw [State.resolveHandshakeIfAny]
  split
  · exact refl
  · exact hok.trans (settleHandshake true)

theorem attached_setReady {k n : Nat} {ready : ReadyState} :
    Attached { st with sockets := setReady k ready st.sockets } n ↔ st.Attached n := by
  constructor
  · rintro ⟨ready', hmem⟩
    obtain ⟨⟨m, ready''⟩, hmem', rfl⟩ := mem_setReady hmem
    exact ⟨ready'', hmem'⟩
  · rintro ⟨ready', hmem⟩
    by_cases hnk : n = k
    · subst hnk
      exact ⟨ready, List.mem_map.mpr ⟨_, hmem, if_pos rfl⟩⟩
    · exact ⟨ready', List.mem_map.mpr ⟨_, hmem, if_neg hnk⟩⟩

theorem close (k : Nat) : KeepsHandlers st (st.close k) :=
  ⟨fun _ => attached_setReady, rfl, fun _ => id, rfl⟩

end KeepsHandlers

/-! ## Timers and handshakes have handlers -/

namespace Wired

theorem of_none (htimer : st.connectTimer = none) (hhand : st.handshake = none) : Wired st where
  timer k hk := by
    rw [htimer] at hk
    cases hk
  handshake k hk := by
    rw [hhand] at hk
    cases hk

theorem same (hw : Wired st) (h : SameWs st st') : Wired st' where
  timer k hk := by
    rw [h.connectTimer] at hk
    rw [Attached, h.sockets]
    exact hw.timer k hk
  handshake k hk := by
    rw [h.handshake] at hk
    obtain ⟨hattached, hok⟩ := hw.handshake k hk
    rw [Attached, h.sockets]
    exact ⟨hattached, h.ok hok⟩

theorem send (hw : Wired st) (s : Status) : Wired (st.send s) := hw.same (.send s)

theorem settle (hw : Wired st) (k : Nat) (ok : Bool) : Wired (st.settle k ok) := by
  rw [State.settle]
  split
  · exact hw
  · exact { hw with }

theorem close (hw : Wired st) (k : Nat) : Wired (st.close k) where
  timer n hn := KeepsHandlers.attached_setReady.mpr (hw.timer n hn)
  handshake n hn :=
    ⟨KeepsHandlers.attached_setReady.mpr (hw.handshake n hn).1, (hw.handshake n hn).2⟩

/-- A timer is stopped. -/
theorem untimed (hw : Wired st) : Wired { st with connectTimer := none } :=
  { hw with timer := nofun }

/-- After a handshake is settled none is under way. -/
theorem settleHandshake (htimer : ∀ k ∈ st.connectTimer, st.Attached k) (ok : Bool) :
    Wired (st.settleHandshake ok) := by
  have hkeeps : KeepsHandlers st (st.settleHandshake ok) := .settleHandshake ok
  have hsame : (st.settleHandshake ok).connectTimer = st.connectTimer := by
    unfold State.settleHandshake State.settle
    split
    · split <;> rfl
    · rfl
  refine ⟨fun k hk => ?_, fun k hk => ?_⟩
  · rw [hsame] at hk
    exact (hkeeps.attached k).mpr (htimer k hk)
  · rw [settleHandshake_handshake] at hk
    cases hk

theorem rejectHandshakeIfAny (hw : Wired st) : Wired st.rejectHandshakeIfAny := by
  rw [reject_eq fun k hk => (hw.handshake k hk).2]
  exact settleHandshake hw.timer false

theorem resolveHandshakeIfAny (hw : Wired st) : Wired st.resolveHandshakeIfAny := by
  rw [State.resolveHandshakeIfAny]
  split
  · exact hw
  · exact @settleHandshake { st with handshakeOk := true } hw.timer true

end Wired

/-! ## The starts that wait -/

section

variable {n : Nat}

theorem waits_congr (h : st'.tasks = st.tasks) : st'.Waits n ↔ st.Waits n := by
  rw [Waits, Waits, h]

theorem waits_append {task : Task} (h : st'.tasks = st.tasks ++ [task])
    (hne : ∀ p, task ≠ .start n p .socket) : st'.Waits n ↔ st.Waits n := by
  rw [Waits, Waits, h]
  refine exists_congr fun p => ?_
  simp [(hne p).symm]

/-- A call that goes on was no start whose socket still waits, and becomes none. -/
theorem waits_goOn {i : Nat} {task : Task} {next : Option Task} (hi : st.tasks[i]? = some task)
    (htask : ∀ p, task ≠ .start n p .socket) (hnext : ∀ p, Task.start n p .socket ∉ next) :
    Waits { st with tasks := goOn st.tasks i next } n ↔ st.Waits n := by
  constructor
  · rintro ⟨p, hmem⟩
    exact ⟨p, (mem_goOn hmem).resolve_right (hnext p)⟩
  · rintro ⟨p, hmem⟩
    exact ⟨p, mem_goOn_of_ne hi hmem (htask p).symm next⟩

end

/-! ## Steps -/

/-- The step comes to a `closeWs`. -/
def ClosesWs (st : State) : Label → Prop
  | .start _ | .stop | .trackEnded _ | .windowError _ => True
  | .resume i r => ∃ task ∈ st.tasks[i]?, task.ClosesWs st r
  | .socketClose _ busy => busy ∨ st.strictWs
  | .socketOpen _ | .socketError _ | .connectTimeout | .handshakeTimeout | .message .. | .chunk ..
      => False

/-- The step takes the handlers of the socket off. -/
def Detaches (st : State) (l : Label) (n : Nat) : Prop :=
  st.ClosesWs l ∧ st.ws = some n ∨ ∃ busy, l = .socketClose n busy

end State

/-- The call rejects the handshake that is under way. -/
def Task.Rejects (r : Reply) : Task → Prop
  | .start _ _ .closeWs => r ≠ .ok
  | .message (.error _) => True
  | .start .. | .stop .. | .message _ => False

namespace State

variable {st st' st'' : State}

/-- The step rejects the handshake before it comes to a `closeWs`. -/
def Rejects (st : State) : Label → Prop
  | .resume i r => ∃ task ∈ st.tasks[i]?, task.Rejects r
  | .socketClose .. => True
  | .start _ | .stop | .trackEnded _ | .windowError _ | .socketOpen _ | .socketError _
  | .connectTimeout | .handshakeTimeout | .message .. | .chunk .. => False

/-- If the step takes the handlers of a start that waits, it rejects its handshake. -/
def Heeds (st : State) (l : Label) : Prop :=
  ∀ n, st.Pending n → st.Detaches l n → st.Rejects l ∧ st.handshake = some n

/-- What a step that opens no socket does. -/
structure Moves (st : State) (l : Label) (st' : State) : Prop where
  wired : Wired st'
  attached : ∀ n, st'.Attached n ↔ st.Attached n ∧ ¬ st.Detaches l n
  promises : ∀ n, st'.promises.lookup n = none → st.promises.lookup n = none
  waits : ∀ n, st.promises.lookup n = none → (st'.Waits n ↔ st.Waits n)
  settled : ∀ n, st.promises.lookup n = none → st.Detaches l n →
    (st'.promises.lookup n ≠ none ↔ st.Rejects l ∧ st.handshake = some n)

theorem Moves.keeps_iff {l : Label} (hw : Wired st) (h : NoOrphan st) (hm : Moves st l st') :
    NoOrphan st' ↔ st.Heeds l := by
  rw [hm.wired.noOrphan_iff]
  rw [hw.noOrphan_iff] at h
  constructor
  · intro h' n hpending hdetaches
    by_contra hnot
    have hnone : st'.promises.lookup n = none := by
      by_contra hsome
      exact hnot ((hm.settled n hpending.2 hdetaches).mp hsome)
    have hpending' : st'.Pending n := ⟨(hm.waits n hpending.2).mpr hpending.1, hnone⟩
    exact ((hm.attached n).mp (h' n hpending')).2 hdetaches
  · intro hheeds n hpending'
    have hnone := hm.promises n hpending'.2
    have hpending : st.Pending n := ⟨(hm.waits n hnone).mp hpending'.1, hnone⟩
    refine (hm.attached n).mpr ⟨h n hpending, fun hdetaches => ?_⟩
    exact (hm.settled n hnone hdetaches).mpr (hheeds n hpending hdetaches) hpending'.2

/-- A step that takes no handlers off. -/
theorem Moves.of_keeps {l : Label} (hw : Wired st') (hno : ¬ st.ClosesWs l)
    (hclose : ∀ k busy, l ≠ .socketClose k busy) (hk : KeepsHandlers st st'')
    (hattached : ∀ n, st'.Attached n ↔ st''.Attached n) (hpromises : st'.promises = st''.promises)
    (hwaits : ∀ n, st.promises.lookup n = none → (st'.Waits n ↔ st.Waits n)) : Moves st l st' := by
  have hnot : ∀ n, ¬ st.Detaches l n := by
    rintro n (⟨hcloses, -⟩ | ⟨busy, rfl⟩)
    · exact hno hcloses
    · exact hclose n busy rfl
  refine ⟨hw, fun n => ?_, fun n => ?_, hwaits, fun n _ hd => absurd hd (hnot n)⟩
  · rw [hattached, hk.attached, and_iff_left (hnot n)]
  · rw [hpromises]
    exact hk.promises n

/-- What comes to a `closeWs` takes the handlers off the current socket. -/
theorem detaches_iff {l : Label} {n : Nat} (hcloses : st.ClosesWs l)
    (hclose : ∀ k busy, l ≠ .socketClose k busy) : st.Detaches l n ↔ st.ws = some n := by
  rw [Detaches, and_iff_right hcloses, or_iff_left]
  rintro ⟨busy, rfl⟩
  exact hclose n busy rfl

/-- A step that comes to a `closeWs`, and settles nothing before. -/
theorem Moves.of_closeWs {l : Label} (hcloses : st.ClosesWs l) (hrejects : ¬ st.Rejects l)
    (hclose : ∀ k busy, l ≠ .socketClose k busy) (hsame : SameWs st.closeWs st')
    (hwaits : ∀ n, st.promises.lookup n = none → (st'.Waits n ↔ st.Waits n)) : Moves st l st' := by
  refine ⟨.of_none hsame.connectTimer hsame.handshake, fun n => ?_, fun n => ?_, hwaits,
    fun n hnone _ => ?_⟩
  · rw [detaches_iff hcloses hclose, Attached, hsame.sockets]
    simp [State.closeWs, Attached]
  · rw [hsame.promises]
    exact id
  · rw [hsame.promises]
    exact iff_of_false (fun hsome => hsome hnone) fun h => hrejects h.1

theorem settleHandshake_sockets (ok : Bool) : (st.settleHandshake ok).sockets = st.sockets := by
  unfold settleHandshake settle
  split
  · split <;> rfl
  · rfl

/-- A step that rejects the handshake and then comes to a `closeWs`. -/
theorem Moves.of_reject_closeWs {l : Label} (hcloses : st.ClosesWs l) (hrejects : st.Rejects l)
    (hclose : ∀ k busy, l ≠ .socketClose k busy)
    (hsame : SameWs (st.settleHandshake false).closeWs st')
    (hwaits : ∀ n, st.promises.lookup n = none → (st'.Waits n ↔ st.Waits n)) : Moves st l st' := by
  have hpromises : st'.promises = (st.settleHandshake false).promises := hsame.promises
  refine ⟨.of_none hsame.connectTimer hsame.handshake, fun n => ?_, fun n => ?_, hwaits,
    fun n hnone _ => ?_⟩
  · have hws := (@KeepsHandlers.settleHandshake st false).ws
    rw [detaches_iff hcloses hclose, Attached, hsame.sockets]
    simp [State.closeWs, Attached, hws, settleHandshake_sockets]
  · rw [hpromises, settleHandshake_none]
    exact And.left
  · rw [hpromises, ne_eq, settleHandshake_none, and_iff_right hnone, not_ne_iff,
      and_iff_right hrejects]

theorem stopAllNow_tasks (reason : Reason) :
    ∃ task, (st.stopAllNow reason).tasks = st.tasks ++ [task] ∧
      ∀ n p, task ≠ .start n p .socket :=
  ⟨_, rfl, fun _ _ => nofun⟩

theorem SameWs.stopAllNow (h : SameWs st st') (reason : Reason) :
    SameWs st.closeWs (st'.stopAllNow reason) :=
  (h.stopAll reason .done).trans ⟨rfl, rfl, rfl, rfl, rfl, id⟩

/-- A stop that is called from outside. -/
theorem moves_stopAllNow {l : Label} {reason : Reason} (hcloses : st.ClosesWs l)
    (hrejects : ¬ st.Rejects l) (hclose : ∀ k busy, l ≠ .socketClose k busy) (h : SameWs st st')
    (htasks : st'.tasks = st.tasks) : Moves st l (st'.stopAllNow reason) := by
  obtain ⟨task, happend, hne⟩ := @stopAllNow_tasks st' reason
  refine .of_closeWs hcloses hrejects hclose (h.stopAllNow reason) fun n _ => ?_
  exact waits_append (happend.trans (by rw [htasks])) (hne n)

theorem moves_start (p : Payload) : Moves st (.start p) (st.start p) := by
  refine .of_closeWs trivial id nofun ?_ fun n _ => ?_
  · simp only [State.start]
    split <;> exact ⟨rfl, rfl, rfl, rfl, rfl, id⟩
  · simp only [State.start]
    split
    · exact waits_append rfl (by rintro _ ⟨⟩)
    · exact waits_append rfl (by rintro _ ⟨⟩)

/-- A call that waits for no socket goes on, or a start with its socket. -/
theorem moves_call {i : Nat} {r : Reply} {task : Task} {res : State × Option Task}
    (hi : st.tasks[i]? = some task) (hw : Wired st) (hcalls : SameCalls st res.1)
    (hrejects : ¬ task.Rejects r)
    (hopen : ∀ n p, task = .start n p .socket → st.promises.lookup n ≠ none)
    (hres : CallStep (task.ClosesWs st r) st res) :
    Moves st (.resume i r) { res.1 with tasks := goOn res.1.tasks i res.2 } := by
  have hwaits : ∀ n, st.promises.lookup n = none →
      (Waits { res.1 with tasks := goOn res.1.tasks i res.2 } n ↔ st.Waits n) := by
    intro n hnone
    rw [← waits_congr hcalls.tasks]
    refine waits_goOn ?_ (fun p heq => hopen n p heq hnone) (hres.next n)
    rw [hcalls.tasks, hi]
  have hrejects' : ¬ st.Rejects (.resume i r) := by
    rintro ⟨task', hi', hrej⟩
    rw [hi] at hi'
    cases hi'
    exact hrejects hrej
  by_cases hc : task.ClosesWs st r
  · refine .of_closeWs ⟨task, hi, hc⟩ hrejects' nofun ?_ hwaits
    exact (hres.closed hc).trans ⟨rfl, rfl, rfl, rfl, rfl, id⟩
  · have hquiet := hres.quiet hc
    have hno : ¬ st.ClosesWs (.resume i r) := by
      rintro ⟨task', hi', hcloses⟩
      rw [hi] at hi'
      cases hi'
      exact hc hcloses
    refine .of_keeps ?_ hno nofun (@KeepsHandlers.refl st) (fun n => ?_) hquiet.promises hwaits
    · exact hw.same (hquiet.trans ⟨rfl, rfl, rfl, rfl, rfl, id⟩)
    · show (∃ ready, (n, ready) ∈ res.1.sockets) ↔ _
      rw [hquiet.sockets]
      exact Iff.rfl

/-- A start gets its socket. -/
theorem keeps_open {i n : Nat} {p : Payload} (hi : st.tasks[i]? = some (.start n p .closeWs))
    (hw : Wired st) (h : NoOrphan st)
    (hstep : st.step (.resume i .ok) = some st') :
    Wired st' ∧ (NoOrphan st' ↔ st.Heeds (.resume i .ok)) := by
  obtain ⟨task, st₁, next, hi', hres, rfl⟩ := step_resume hstep
  rw [hi] at hi'
  cases hi'
  injection hres with hres
  cases hres
  have hopened : ∀ m, st.Attached m →
      ∃ ready, (m, ready) ∈ (n, .connecting) :: st.sockets :=
    fun m ⟨ready, hmem⟩ => ⟨ready, List.mem_cons_of_mem _ hmem⟩
  have hwired : Wired { (st.newWebSocket n p).1 with
      handshakeOk := false
      sent := st.sent ++ [.wsConnecting]
      tasks := goOn st.tasks i (some (.start n p .socket)) } := by
    refine ⟨?_, fun k hk => ⟨hopened k (hw.handshake k hk).1, rfl⟩⟩
    rintro k ⟨⟩
    exact ⟨.connecting, List.mem_cons_self⟩
  refine ⟨hwired, iff_of_true (hwired.noOrphan_iff.mpr ?_) ?_⟩
  · rintro m ⟨⟨q, hmem⟩, hnone⟩
    by_cases hmn : m = n
    · subst hmn
      exact ⟨.connecting, List.mem_cons_self⟩
    · refine hopened m (hw.noOrphan_iff.mp h m ⟨⟨q, ?_⟩, hnone⟩)
      have hmem : Task.start m q .socket ∈ goOn st.tasks i (some (.start n p .socket)) := hmem
      refine (mem_goOn hmem).resolve_right fun hnext => hmn ?_
      cases hnext
      rfl
  · rintro m - (⟨⟨task, hi', hcloses⟩, -⟩ | ⟨busy, hlabel⟩)
    · rw [hi] at hi'
      cases hi'
      exact absurd rfl hcloses
    · cases hlabel

theorem moves_fail {i n : Nat} {p : Payload} {r : Reply}
    (hi : st.tasks[i]? = some (.start n p .closeWs)) (hr : r ≠ .ok) (hw : Wired st)
    (hstep : st.step (.resume i r) = some st') : Moves st (.resume i r) st' := by
  obtain ⟨task, st₁, next, hi', hres, rfl⟩ := step_resume hstep
  rw [hi] at hi'
  cases hi'
  have hstart : st.resumeStart n p r .closeWs = some (st₁, next) := hres
  have hcalls := SameCalls.resumeStart hstart
  injection hres with hres
  rw [if_neg hr] at hres
  cases hres
  have hsend : SameWs st ({ st with handshakeOk := false }.send .wsConnecting) :=
    ⟨rfl, rfl, rfl, rfl, rfl, fun _ => rfl⟩
  have hreject := hsend.reject fun k hk => (hw.handshake k hk).2
  refine .of_reject_closeWs ⟨_, hi, hr⟩ ⟨_, hi, hr⟩ nofun ?_ fun m _ => ?_
  · exact ((hreject.trans (.send (.error .ws))).stopAll .wsFail .wsFail).trans
      ⟨rfl, rfl, rfl, rfl, rfl, id⟩
  · rw [← waits_congr hcalls.tasks]
    refine waits_goOn (?_ : _ = some (Task.start n p .closeWs)) (fun _ => nofun) (fun _ => nofun)
    rw [hcalls.tasks, hi]

/-- The handling of a message is done, and it left calls behind that wait for no socket. -/
theorem waits_done {i n : Nat} {m : ServerMessage} (hi : st.tasks[i]? = some (.message m))
    {st₁ : State} {more : List Task} (htasks : st₁.tasks = st.tasks ++ more)
    (hmore : ∀ task ∈ more, ∀ p, task ≠ .start n p .socket) :
    Waits { st₁ with tasks := goOn st₁.tasks i none } n ↔ st.Waits n := by
  have hi₁ : st₁.tasks[i]? = some (.message m) := by
    rw [htasks, List.getElem?_append_left (List.getElem?_eq_some_iff.mp hi).1, hi]
  rw [waits_goOn hi₁ (fun _ => nofun) fun _ => Option.not_mem_none _, Waits, Waits, htasks]
  refine exists_congr fun p => ?_
  rw [List.mem_append, or_iff_left]
  exact fun hmem => hmore _ hmem p rfl

/-- A message of the server is handled. -/
theorem moves_message {i : Nat} {r : Reply} {m : ServerMessage}
    (hi : st.tasks[i]? = some (.message m)) (hw : Wired st)
    (hstep : st.step (.resume i r) = some st') : Moves st (.resume i r) st' := by
  obtain ⟨task, st₁, next, hi', hres, rfl⟩ := step_resume hstep
  rw [hi] at hi'
  cases hi'
  injection hres with hres
  cases hres
  have hhand : ∀ k ∈ st.handshake, st.handshakeOk = false := fun k hk => (hw.handshake k hk).2
  have hone : ∀ (st₁ : State), st₁.tasks = st.tasks → ∀ reason n, st.promises.lookup n = none →
      (Waits { st₁.stopAllNow reason with
        tasks := goOn (st₁.stopAllNow reason).tasks i none } n ↔ st.Waits n) := by
    intro st₁ htasks reason n _
    refine waits_done hi (congrArg (· ++ [_]) htasks) fun task hmem p => ?_
    rw [List.mem_singleton.mp hmem]
    exact nofun
  have hkept : ∀ (st₁ : State), ¬ st.MessageStops m → KeepsHandlers st st₁ → Wired st₁ →
      Moves st (.resume i r) { st₁ with tasks := goOn st₁.tasks i none } := by
    intro st₁ hgoes hkeeps hw₁
    have hno : ¬ st.ClosesWs (.resume i r) := by
      rintro ⟨task, hi', hcloses⟩
      rw [hi] at hi'
      cases hi'
      exact hgoes hcloses
    exact .of_keeps { hw₁ with } hno nofun hkeeps (fun _ => Iff.rfl) rfl
      fun _ _ => waits_done hi (hkeeps.tasks.trans (List.append_nil _).symm)
        fun _ hmem => absurd hmem List.not_mem_nil
  cases m with
  | error busy =>
      have hreject : ∀ s, SameWs (st.settleHandshake false) (st.send s).rejectHandshakeIfAny :=
        fun s => (SameWs.send s).reject hhand
      have hcalls : ∀ s, (st.send s).rejectHandshakeIfAny.tasks = st.tasks :=
        fun s => ((SameCalls.send s).trans .rejectHandshakeIfAny).tasks
      have hstop : ∀ (s : Status) (reason : Reason), st.MessageStops (.error busy) →
          Moves st (.resume i r) { (st.send s).rejectHandshakeIfAny.stopAllNow reason with
            tasks := goOn ((st.send s).rejectHandshakeIfAny.stopAllNow reason).tasks i none } := by
        intro s reason hm
        refine .of_reject_closeWs ⟨_, hi, hm⟩ ⟨_, hi, trivial⟩ nofun ?_ (hone _ (hcalls s) reason)
        exact ((hreject s).stopAllNow reason).trans ⟨rfl, rfl, rfl, rfl, rfl, id⟩
      simp only [handleServerTextMessage]
      split
      · next hbusy => exact hstop _ _ (.inl hbusy)
      · next hbusy =>
        split
        · next hstrict =>
          rw [strictWs_reject] at hstrict
          exact hstop _ _ (.inr hstrict)
        · next hstrict =>
          rw [strictWs_reject] at hstrict
          exact hkept _ (not_or.mpr ⟨hbusy, hstrict⟩)
            ((KeepsHandlers.send _).trans .rejectHandshakeIfAny)
            (hw.send _).rejectHandshakeIfAny
  | hello | status =>
      exact hkept _ id ((KeepsHandlers.send _).trans .resolveHandshakeIfAny)
        (hw.send _).resolveHandshakeIfAny
  | other => exact hkept _ id .resolveHandshakeIfAny hw.resolveHandshakeIfAny

/-- A socket loses its handlers, and its timer is stopped. -/
def detach (k : Nat) (st : State) : State :=
  { st with sockets := st.sockets.filter fun s => s.1 ≠ k, connectTimer := none }

theorem attached_detach {k n : Nat} : (st.detach k).Attached n ↔ st.Attached n ∧ n ≠ k := by
  simp [detach, Attached]

theorem attached_closeWs {n : Nat} : st.closeWs.Attached n ↔ st.Attached n ∧ st.ws ≠ some n := by
  simp [State.closeWs, Attached]

/-- A socket closes, and the handshake that is under way is rejected, whosever it is. -/
theorem onclose_cases (hhand : ∀ j ∈ st.handshake, st.handshakeOk = false) (k : Nat) (busy : Bool) :
    (busy ∨ st.strictWs) ∧
        SameWs ((st.detach k).settleHandshake false).closeWs (st.onclose k busy) ∨
      ¬ (busy ∨ st.strictWs) ∧
        SameWs ((st.detach k).settleHandshake false) (st.onclose k busy) := by
  have hoff : SameWs (st.detach k) ({ st with
      sockets := st.sockets.filter fun s => s.1 ≠ k
      connectTimer := none
      wsOpen := false
      wsReadyToStream := false }.send .wsClose) := ⟨rfl, rfl, rfl, rfl, rfl, id⟩
  simp only [State.onclose]
  split
  · next hbusy =>
    exact .inl ⟨.inl hbusy, ((hoff.trans (.send _)).reject hhand).stopAllNow _⟩
  · next hbusy =>
    split
    · next hstrict => exact .inl ⟨.inr hstrict, (hoff.reject hhand).stopAllNow _⟩
    · next hstrict => exact .inr ⟨not_or.mpr ⟨hbusy, hstrict⟩, hoff.reject hhand⟩

theorem waits_onclose (k : Nat) (busy : Bool) (n : Nat) :
    (st.onclose k busy).Waits n ↔ st.Waits n := by
  have hoff : SameCalls st ({ st with
      sockets := st.sockets.filter fun s => s.1 ≠ k
      connectTimer := none
      wsOpen := false
      wsReadyToStream := false }.send .wsClose) := ⟨rfl, rfl, rfl⟩
  have hstop : ∀ (st' : State) (reason : Reason), SameCalls st st' →
      ((st'.stopAllNow reason).Waits n ↔ st.Waits n) := by
    intro st' reason hsame
    obtain ⟨task, happend, hne⟩ := @stopAllNow_tasks st' reason
    exact waits_append (happend.trans (by rw [hsame.tasks])) (hne n)
  simp only [State.onclose]
  split
  · exact hstop _ _ ((hoff.trans (.send _)).trans .rejectHandshakeIfAny)
  · split
    · exact hstop _ _ (hoff.trans .rejectHandshakeIfAny)
    · exact waits_congr (hoff.trans .rejectHandshakeIfAny).tasks

theorem moves_onclose (hw : Wired st) (k : Nat) (busy : Bool) :
    Moves st (.socketClose k busy) (st.onclose k busy) := by
  have hdetaches : ∀ n, st.Detaches (.socketClose k busy) n ↔
      (busy ∨ st.strictWs) ∧ st.ws = some n ∨ n = k := by
    intro n
    refine or_congr_right ⟨?_, ?_⟩
    · rintro ⟨busy', hlabel⟩
      cases hlabel
      rfl
    · rintro rfl
      exact ⟨busy, rfl⟩
  have hrejected : ∀ n, ((st.detach k).settleHandshake false).promises.lookup n = none ↔
      st.promises.lookup n = none ∧ st.handshake ≠ some n := fun n => settleHandshake_none
  have hkeeps := @KeepsHandlers.settleHandshake (st.detach k) false
  have hspec : ∀ st', st'.promises = ((st.detach k).settleHandshake false).promises →
      Wired st' → (∀ n, st'.Attached n ↔ st.Attached n ∧ ¬ st.Detaches (.socketClose k busy) n) →
      (∀ n, st'.Waits n ↔ st.Waits n) → Moves st (.socketClose k busy) st' := by
    intro st' hpromises hw' hattached hwaits
    refine ⟨hw', hattached, fun n => ?_, fun n _ => hwaits n, fun n hnone _ => ?_⟩
    · rw [hpromises, hrejected]
      exact And.left
    · rw [hpromises, ne_eq, hrejected, and_iff_right hnone, not_ne_iff]
      exact (and_iff_right trivial).symm
  rcases onclose_cases (fun j hj => (hw.handshake j hj).2) k busy with ⟨hc, hsame⟩ | ⟨hc, hsame⟩
  · refine hspec _ hsame.promises (.of_none hsame.connectTimer hsame.handshake) (fun n => ?_)
      (waits_onclose k busy)
    have hws : ((st.detach k).settleHandshake false).ws = st.ws := hkeeps.ws
    rw [Attached, hsame.sockets, ← Attached, attached_closeWs, hkeeps.attached, attached_detach,
      hdetaches, and_iff_right hc, hws, not_or, and_assoc, and_comm (a := n ≠ k)]
  · refine hspec _ hsame.promises ?_ (fun n => ?_) (waits_onclose k busy)
    · exact (@Wired.settleHandshake (st.detach k) nofun false).same hsame
    · rw [Attached, hsame.sockets, ← Attached, hkeeps.attached, attached_detach, hdetaches,
        or_iff_right fun h => hc h.1]

/-- The worklet sends a chunk. -/
theorem keepsHandlers_onChunk (hw : Wired st) (n : Nat) (first : Bool)
    (bytes bufferedAmount : Nat) :
    KeepsHandlers st (st.onChunk n first bytes bufferedAmount) ∧
      Wired (st.onChunk n first bytes bufferedAmount) := by
  have hdrop : KeepsHandlers st (st.shouldDropPcmByBackpressure bufferedAmount).1 ∧
      Wired (st.shouldDropPcmByBackpressure bufferedAmount).1 := by
    rw [shouldDropPcmByBackpressure]
    split
    · split <;> exact ⟨⟨fun _ => Iff.rfl, rfl, fun _ => id, rfl⟩, { hw with }⟩
    · exact ⟨.refl, hw⟩
  simp only [State.onChunk]
  split
  · generalize st.shouldDropPcmByBackpressure bufferedAmount = res at hdrop
    obtain ⟨st₁, drop⟩ := res
    obtain ⟨hkeeps, hw₁⟩ := hdrop
    split
    · exact ⟨hkeeps.trans ⟨fun _ => Iff.rfl, rfl, fun _ => id, rfl⟩, { hw₁ with }⟩
    · have hsent : KeepsHandlers st₁ { st₁ with
          counters := { st₁.counters with
            chunksSent := st₁.counters.chunksSent + 1
            bytesSent := st₁.counters.bytesSent + bytes }
          countedBy := n
          worklets := st₁.worklets.map fun w => if w.1 = n then (n, true) else w } :=
        ⟨fun _ => Iff.rfl, rfl, fun _ => id, rfl⟩
      split
      · exact ⟨hkeeps.trans hsent, { hw₁ with }⟩
      · exact ⟨(hkeeps.trans hsent).trans .resolveHandshakeIfAny,
          Wired.resolveHandshakeIfAny { hw₁ with }⟩
  · exact ⟨.refl, hw⟩

/-- An event that is no call of `stopAll` and no end of a call. -/
theorem moves_event {l : Label} (hw' : Wired st') (hno : ¬ st.ClosesWs l)
    (hclose : ∀ k busy, l ≠ .socketClose k busy) (hk : KeepsHandlers st st') : Moves st l st' :=
  .of_keeps hw' hno hclose hk (fun _ => Iff.rfl) rfl fun _ _ => waits_congr hk.tasks

/-- What a step keeps, read off what it does. -/
theorem keeps_of_moves {l : Label} (hw : Wired st) (h : NoOrphan st) (hm : Moves st l st') :
    Wired st' ∧ (NoOrphan st' ↔ st.Heeds l) :=
  ⟨hm.wired, hm.keeps_iff hw h⟩

theorem moves_onopen {k : Nat} {ready : ReadyState} (hk : (k, ready) ∈ st.sockets) :
    Moves st (.socketOpen k) (st.onopen k) := by
  have hkeeps : KeepsHandlers st (st.onopen k) :=
    ⟨fun _ => KeepsHandlers.attached_setReady, rfl, fun _ => id, rfl⟩
  refine moves_event ⟨nofun, ?_⟩ id nofun hkeeps
  rintro m ⟨⟩
  exact ⟨(hkeeps.attached k).mpr ⟨_, hk⟩, rfl⟩

theorem moves_onerror (hw : Wired st) (k : Nat) :
    Moves st (.socketError k) (st.onerror k) := by
  have hoff : KeepsHandlers st { st with
      connectTimer := none, wsOpen := false, wsReadyToStream := false } :=
    ⟨fun _ => Iff.rfl, rfl, fun _ => id, rfl⟩
  have hw₁ : Wired { st with
      connectTimer := none, wsOpen := false, wsReadyToStream := false } :=
    { hw.untimed with }
  exact moves_event (((hw₁.close k).send _).rejectHandshakeIfAny.settle k false) id nofun
    ((hoff.trans (.close k)).trans (.send _) |>.trans .rejectHandshakeIfAny |>.trans
      (.settle k false))

theorem moves_connectTimeout (hw : Wired st) (k : Nat) :
    Moves st .connectTimeout
      (({ st with connectTimer := none }.send .wsError).close k |>.settle k false) := by
  have hoff : KeepsHandlers st { st with connectTimer := none } :=
    ⟨fun _ => Iff.rfl, rfl, fun _ => id, rfl⟩
  exact moves_event (((hw.untimed.send _).close k).settle k false) id nofun
    ((hoff.trans (.send _)).trans (.close k) |>.trans (.settle k false))

/-- A call goes on: it may be the start whose own socket is there from now on. -/
theorem resume_keeps {i : Nat} {r : Reply} (hw : Wired st) (h : NoOrphan st)
    (hstep : st.step (.resume i r) = some st') :
    Wired st' ∧ (NoOrphan st' ↔ st.Heeds (.resume i r)) := by
  obtain ⟨task, st₁, next, hi, hres, rfl⟩ := step_resume hstep
  cases task with
  | message m => exact keeps_of_moves hw h (moves_message hi hw hstep)
  | stop began reason w after =>
      injection hres with hres
      have hcall := @CallStep.resumeStop st began reason after r w
      have hcalls : SameCalls st (st.resumeStop began reason after r w).1 := .resumeStop ..
      rw [hres] at hcall hcalls
      exact keeps_of_moves hw h (moves_call hi hw hcalls id nofun hcall)
  | start n p w =>
      have hstart : st.resumeStart n p r w = some (st₁, next) := hres
      by_cases hclose : w = .closeWs
      · subst hclose
        by_cases hr : r = .ok
        · subst hr
          exact keeps_open hi hw h hstep
        · exact keeps_of_moves hw h (moves_fail hi hr hw hstep)
      · have hcalls : SameCalls st st₁ := SameCalls.resumeStart hstart
        have hrejects : ¬ (Task.start n p w).Rejects r := by
          cases w with
          | closeWs => exact absurd rfl hclose
          | media | recorder | resume | addModule | socket => exact id
        refine keeps_of_moves hw h
          (moves_call hi hw hcalls hrejects ?_ (.resumeStart hclose hstart))
        rintro m q ⟨⟩ hnone
        obtain ⟨ok, hsome, -⟩ := Option.map_eq_some_iff.mp hstart
        rw [hnone] at hsome
        cases hsome

theorem keeps_iff (hw : Wired st) (h : NoOrphan st) {l : Label} (hstep : st.step l = some st') :
    Wired st' ∧ (NoOrphan st' ↔ st.Heeds l) := by
  cases step_takes hstep with
  | @start p => exact keeps_of_moves hw h (moves_start p)
  | stop => exact keeps_of_moves hw h (moves_stopAllNow trivial id nofun .refl rfl)
  | resume hstep => exact resume_keeps hw h hstep
  | socketOpen hk => exact keeps_of_moves hw h (moves_onopen hk)
  | @socketClose k busy _ => exact keeps_of_moves hw h (moves_onclose hw k busy)
  | @socketError k _ => exact keeps_of_moves hw h (moves_onerror hw k)
  | @connectTimeout k _ => exact keeps_of_moves hw h (moves_connectTimeout hw k)
  | @handshakeTimeout k _ =>
      exact keeps_of_moves hw h (moves_event (hw.settle k false) id nofun (.settle k false))
  | message =>
      exact keeps_of_moves hw h (.of_keeps { hw with } id nofun .refl (fun _ => Iff.rfl) rfl
        fun n _ => waits_append rfl fun _ => nofun)
  | @chunk n bytes bufferedAmount first _ =>
      obtain ⟨hkeeps, hw'⟩ := keepsHandlers_onChunk hw n first bytes bufferedAmount
      exact keeps_of_moves hw h (moves_event hw' id nofun hkeeps)
  | trackEnded | windowError =>
      exact keeps_of_moves hw h (moves_stopAllNow trivial id nofun (.send _) rfl)

theorem Wired.init : Wired .init := .of_none rfl rfl

theorem noOrphan_init : NoOrphan .init := by
  rintro n ⟨⟨p, hmem⟩, -⟩
  cases hmem

end State

/-! ## Runs -/

/-- No start is orphaned in any state of a run if and only if none of its steps takes the
handlers of a start that waits, unless it rejects its handshake. -/
theorem no_orphan_iff (ls : List Label) (st : State) (hrun : run State.step .init ls = some st) :
    Always State.step State.NoOrphan .init ls ↔ Guarded State.step State.Heeds .init ls := by
  refine always_iff_guarded (J := State.Wired) ?_ ?_ .init State.noOrphan_init hrun
  · exact fun _ _ _ hw h hstep => (State.keeps_iff hw h hstep).2
  · exact fun _ _ _ hw h _ hstep => (State.keeps_iff hw h hstep).1

/-- The start whose socket a call waits for. -/
def Task.waitsFor : Task → Option Nat
  | .start n _ .socket => some n
  | .start .. | .stop .. | .message _ => none

theorem waitsFor_eq {task : Task} {n : Nat} :
    task.waitsFor = some n ↔ ∃ p, task = .start n p .socket := by
  cases task with
  | start m p w => cases w <;> simp [Task.waitsFor, eq_comm]
  | stop | message => simp [Task.waitsFor]

namespace State

instance : (next : Next) → Decidable next.Throws
  | .done => isFalse id
  | .start _ p => inferInstanceAs (Decidable (p.display = false ∧ p.streamId = false))
  | .wsFail => isTrue trivial

instance (p : Payload) : (r : Reply) → Decidable (p.Served r)
  | .ok | .failed => isFalse fun ⟨_, h, _⟩ => nomatch h
  | .media audio recorder =>
      decidable_of_iff (audio = true ∧ (p.recording = true → recorder = .started)) <| by
        simp [Payload.Served]

instance (st : State) (r : Reply) : (task : Task) → Decidable (task.ClosesWs st r)
  | .stop _ _ .ws _ | .stop _ _ .recorder _ | .stop _ _ .persist _ => isFalse id
  | .stop _ _ .video next => inferInstanceAs (Decidable (st.audioCtx = none ∧ next.Throws))
  | .stop _ _ .ctx next => inferInstanceAs (Decidable next.Throws)
  | .start _ p .media => inferInstanceAs (Decidable (¬ p.Served r))
  | .start _ _ .recorder => isFalse id
  | .start _ _ .resume => inferInstanceAs (Decidable (¬ (r = .ok ∧ st.audioCtx.isSome)))
  | .start _ _ .addModule => isTrue trivial
  | .start _ _ .closeWs => inferInstanceAs (Decidable (r ≠ .ok))
  | .start n _ .socket => inferInstanceAs (Decidable (st.promises.lookup n = some false))
  | .message m => inferInstanceAs (Decidable (st.MessageStops m))

instance (r : Reply) : (task : Task) → Decidable (task.Rejects r)
  | .start _ _ .closeWs => inferInstanceAs (Decidable (r ≠ .ok))
  | .message (.error _) => isTrue trivial
  | .start _ _ .media | .start _ _ .recorder | .start _ _ .resume | .start _ _ .addModule
  | .start _ _ .socket | .stop .. | .message .hello | .message .status | .message .other =>
      isFalse id

instance (st : State) : (l : Label) → Decidable (st.ClosesWs l)
  | .start _ | .stop | .trackEnded _ | .windowError _ => isTrue trivial
  | .resume i r => inferInstanceAs (Decidable (∃ task ∈ st.tasks[i]?, task.ClosesWs st r))
  | .socketClose _ busy => inferInstanceAs (Decidable (busy ∨ st.strictWs))
  | .socketOpen _ | .socketError _ | .connectTimeout | .handshakeTimeout | .message .. | .chunk ..
      => isFalse id

instance (st : State) : (l : Label) → Decidable (st.Rejects l)
  | .resume i r => inferInstanceAs (Decidable (∃ task ∈ st.tasks[i]?, task.Rejects r))
  | .socketClose .. => isTrue trivial
  | .start _ | .stop | .trackEnded _ | .windowError _ | .socketOpen _ | .socketError _
  | .connectTimeout | .handshakeTimeout | .message .. | .chunk .. => isFalse id

instance (st : State) (l : Label) (n : Nat) : Decidable (st.Detaches l n) :=
  inferInstanceAs (Decidable (st.ClosesWs l ∧ st.ws = some n ∨ ∃ busy, l = .socketClose n busy))

instance (st : State) (l : Label) : Decidable (st.Heeds l) :=
  decidable_of_iff (∀ task ∈ st.tasks, ∀ n ∈ task.waitsFor, st.promises.lookup n = none →
      st.Detaches l n → st.Rejects l ∧ st.handshake = some n) <| by
    constructor
    · rintro h n ⟨⟨p, hmem⟩, hnone⟩
      exact h _ hmem n rfl hnone
    · intro h task hmem n hwaits hnone
      obtain ⟨p, rfl⟩ := waitsFor_eq.mp hwaits
      exact h n ⟨⟨p, hmem⟩, hnone⟩

end State

/-- A start up to a socket that is open, which the server has not answered yet. -/
def connects : List Label :=
  asksForMedia ++ ([.resume 0 (.media true .unsupported), .resume 0 .ok, .resume 0 .ok,
    .resume 0 .ok, .socketOpen 1] : List Label)

theorem no_orphan_iff_answered : Always State.step State.NoOrphan .init
    (connects ++ ([.message 1 .hello, .resume 1 .ok, .resume 0 .ok, .stop] : List Label)) :=
  (no_orphan_iff _ _ rfl).mpr (by decide)

/-- A stop while the server has not answered: `closeWs` clears the handshake and takes the
handlers off, and nobody settles the promise any more. -/
theorem orphaned_by_stop : ¬ ∀ ls, ∀ st ∈ run State.step .init ls, st.NoOrphan := by
  intro hall
  have hsettles := hall (connects ++ [Label.stop]) _ rfl 1 ⟨⟨tab, by decide⟩, rfl⟩
  rcases hsettles with htimer | hhand | hsocket
  · cases htimer
  · cases hhand
  · cases hsocket

end VTranser.Offscreen

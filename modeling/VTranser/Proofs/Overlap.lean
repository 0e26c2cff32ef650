import VTranser.Proofs.Offscreen

/-!
# A `stopAll` that still waits when a start goes on

`stopAll` looks at the globals again after each `await` and does not know which
start they are from. So a call that still waits gives back, or forgets, what a
later start has taken in the meantime.

What it still looks at depends on where it waits: before the audio context is
closed it stops the media stream, and after that it only forgets the context
and resets what comes with it. So a later start may take its media stream when
every older call is at its last `await`, and make its audio context when every
older call is over (`OvertakesNone`). What an older call looks at is then of no
later start (`Past`).
-/

namespace VTranser.Offscreen

open Run Tasks

/-- The audio context of the start is made. -/
def StartWait.Built : StartWait → Prop
  | .media | .recorder => False
  | .resume | .addModule | .closeWs | .socket => True

/-- What a start is about to install besides its media stream is of the `n`-th
start at most. -/
def Task.Behind (n : Nat) : Task → Prop
  | .start m _ wait => wait.Built → m ≤ n
  | .stop .. | .message _ => True

/-- Where a `stopAll` waits that was called before the `n`-th start. -/
def Task.elder (n : Nat) : Task → Option StopWait
  | .stop began _ wait _ => if began < n then some wait else none
  | .start .. | .message _ => none

theorem Task.elder_stop {n began : Nat} {reason : Reason} {wait : StopWait} {next : Next}
    (h : began < n) : (Task.stop began reason wait next).elder n = some wait :=
  if_pos h

/-- The start has its media stream when it goes on. -/
def StartWait.takesMedia (p : Payload) (r : Reply) : StartWait → Bool
  | .media =>
      match r with
      | .media audio _ => !p.display || audio
      | .ok | .failed => false
  | .recorder | .resume | .addModule | .closeWs | .socket => false

/-- It makes its audio context. -/
def StartWait.makesContext (p : Payload) (r : Reply) : StartWait → Bool
  | .media =>
      match r with
      | .media audio _ => audio && !p.recording
      | .ok | .failed => false
  | .recorder => true
  | .resume | .addModule | .closeWs | .socket => false

namespace State

/-- The start that goes on takes its media stream when every older `stopAll` is
at its last `await`, and makes its audio context when all of them are over. -/
def OvertakesNone (r : Reply) (st : State) : Task → Prop
  | .start n p wait =>
      ∀ task ∈ st.tasks, ∀ stopWait ∈ task.elder n,
        (wait.takesMedia p r → stopWait = .ctx) ∧ ¬ wait.makesContext p r
  | .stop .. | .message _ => True

def NotOvertaken (st : State) : Label → Prop
  | .resume i r => ∀ task ∈ st.tasks[i]?, st.OvertakesNone r task
  | .start _ | .stop | .socketOpen _ | .socketClose .. | .socketError _ | .connectTimeout
  | .handshakeTimeout | .message .. | .chunk .. | .trackEnded _ | .windowError _ => True

/-- What a `stopAll` that was called before the start after the `began`-th and
waits here still looks at is of no later start. -/
structure Past (began : Nat) (wait : StopWait) (st : State) : Prop where
  mediaStream : wait ≠ .ctx → ∀ k ∈ st.mediaStream, k ≤ began
  recorder : wait ≠ .ctx → ∀ k ∈ st.recorder, k ≤ began
  audioCtx : ∀ k ∈ st.audioCtx, k ≤ began
  sockets : ∀ s ∈ st.sockets, s.1 ≤ began
  worklets : ∀ w ∈ st.worklets, w.1 ≤ began
  openedBy : st.openedBy ≤ began
  countedBy : st.countedBy ≤ began
  tasks : ∀ task ∈ st.tasks, task.Behind began

/-- The same after a call has gone on. -/
structure Outcome (began : Nat) (wait : StopWait) (res : State × Option Task) : Prop where
  past : Past began wait res.1
  next : ∀ task ∈ res.2, task.Behind began

variable {st st' : State} {began : Nat} {wait : StopWait}

/-! ## What each function keeps -/

namespace Past

theorem mono {m : Nat} {wait' : StopWait} (h : Past began wait st) (hwait : wait ≠ .ctx)
    (hle : began ≤ m) : Past m wait' st where
  mediaStream _ k hk := Nat.le_trans (h.mediaStream hwait k hk) hle
  recorder _ k hk := Nat.le_trans (h.recorder hwait k hk) hle
  audioCtx k hk := Nat.le_trans (h.audioCtx k hk) hle
  sockets s hs := Nat.le_trans (h.sockets s hs) hle
  worklets w hw := Nat.le_trans (h.worklets w hw) hle
  openedBy := Nat.le_trans h.openedBy hle
  countedBy := Nat.le_trans h.countedBy hle
  tasks task htask := by
    have hbehind := h.tasks task htask
    cases task with
    | start n p w => exact fun hbuilt => Nat.le_trans (hbehind hbuilt) hle
    | stop | message => trivial

theorem send (h : Past began wait st) (s : Status) : Past began wait (st.send s) := { h with }

theorem closeWs (h : Past began wait st) : Past began wait st.closeWs :=
  { h with sockets := fun s hs => h.sockets s (List.mem_filter.mp hs).1 }

theorem stopAll (h : Past began wait st) (reason : Reason) (next : Next) :
    Past began wait (st.stopAll reason next).1 :=
  (h.send _).closeWs

theorem stopAllNow (h : Past began wait st) (reason : Reason) :
    Past began wait (st.stopAllNow reason) := by
  refine { h.stopAll reason .done with tasks := fun task htask => ?_ }
  rcases List.mem_append.mp htask with htask | htask
  · exact h.tasks task htask
  · rw [List.mem_singleton.mp htask]
    trivial

theorem clearVideoRecorderState (h : Past began wait st) :
    Past began wait st.clearVideoRecorderState :=
  { h with recorder := fun _ k hk => absurd hk (Option.not_mem_none k) }

theorem finalize (h : Past began wait st) (r : Reply) : Past began wait (st.finalize r).1 := by
  rw [State.finalize]
  split
  · exact h
  · exact (h.send _).clearVideoRecorderState

theorem stopVideoRecorder (h : Past began wait st) (r : Reply) :
    Past began wait (st.stopVideoRecorder r).1 := by
  unfold State.stopVideoRecorder
  split
  · exact h
  · split
    · exact { h with }
    · exact h.finalize r

theorem finish (h : Past began wait st) (reason : Reason) : Past began wait (st.finish reason) :=
  { h with audioCtx := fun k hk => absurd hk (Option.not_mem_none k) }

theorem settle (h : Past began wait st) (k : Nat) (ok : Bool) :
    Past began wait (st.settle k ok) := by
  rw [State.settle]
  split
  · exact h
  · exact { h with }

theorem settleHandshake (h : Past began wait st) (ok : Bool) :
    Past began wait (st.settleHandshake ok) := by
  unfold State.settleHandshake
  split
  · next k _ => exact { h.settle k ok with }
  · exact h

theorem resolveHandshakeIfAny (h : Past began wait st) :
    Past began wait st.resolveHandshakeIfAny := by
  rw [State.resolveHandshakeIfAny]
  split
  · exact h
  · have hok : Past began wait { st with handshakeOk := true } := { h with }
    exact hok.settleHandshake true

theorem rejectHandshakeIfAny (h : Past began wait st) :
    Past began wait st.rejectHandshakeIfAny := by
  rw [State.rejectHandshakeIfAny]
  split
  · exact h
  · exact h.settleHandshake false

theorem setReady (h : Past began wait st) {k : Nat} {ready : ReadyState} :
    ∀ s ∈ State.setReady k ready st.sockets, s.1 ≤ began := by
  intro s hs
  obtain ⟨s', hmem, heq⟩ := mem_setReady hs
  rw [← heq]
  exact h.sockets s' hmem

theorem close (h : Past began wait st) (k : Nat) : Past began wait (st.close k) :=
  { h with sockets := h.setReady }

theorem onclose (h : Past began wait st) (k : Nat) (busy : Bool) :
    Past began wait (st.onclose k busy) := by
  have hclosed : Past began wait ({ st with
      sockets := st.sockets.filter fun s => s.1 ≠ k
      connectTimer := none
      wsOpen := false
      wsReadyToStream := false }.send .wsClose) :=
    { h with sockets := fun s hs => h.sockets s (List.mem_filter.mp hs).1 }
  simp only [State.onclose]
  split
  · exact (hclosed.send .serverBusy).rejectHandshakeIfAny.stopAllNow _
  · split
    · exact hclosed.rejectHandshakeIfAny.stopAllNow _
    · exact hclosed.rejectHandshakeIfAny

theorem handleServerTextMessage (h : Past began wait st) (m : ServerMessage) :
    Past began wait (st.handleServerTextMessage m) := by
  cases m with
  | error busy =>
      simp only [State.handleServerTextMessage]
      split
      · exact (h.send _).rejectHandshakeIfAny.stopAllNow _
      · split
        · exact (h.send _).rejectHandshakeIfAny.stopAllNow _
        · exact (h.send _).rejectHandshakeIfAny
  | hello | status => exact (h.send _).resolveHandshakeIfAny
  | other => exact h.resolveHandshakeIfAny

theorem onChunk (h : Past began wait st) {k : Nat} (hk : k ≤ began) (first : Bool)
    (bytes bufferedAmount : Nat) : Past began wait (st.onChunk k first bytes bufferedAmount) := by
  have hdrop : Past began wait (st.shouldDropPcmByBackpressure bufferedAmount).1 := by
    rw [shouldDropPcmByBackpressure]
    split
    · split <;> exact { h with }
    · exact h
  simp only [State.onChunk]
  split
  · generalize st.shouldDropPcmByBackpressure bufferedAmount = res at hdrop
    obtain ⟨st₁, drop⟩ := res
    have h₁ : Past began wait st₁ := hdrop
    split
    · exact { h₁ with countedBy := hk }
    · have hsent : Past began wait { st₁ with
          counters := { st₁.counters with
            chunksSent := st₁.counters.chunksSent + 1
            bytesSent := st₁.counters.bytesSent + bytes }
          countedBy := k
          worklets := st₁.worklets.map fun w => if w.1 = k then (k, true) else w } := by
        refine { h₁ with countedBy := hk, worklets := fun w hw => ?_ }
        obtain ⟨w', hmem, rfl⟩ := List.mem_map.mp hw
        split
        · exact hk
        · exact h₁.worklets w' hmem
      split
      · exact hsent
      · exact hsent.resolveHandshakeIfAny
  · exact h

end Past

namespace Outcome

theorem stopAll (h : Past began wait st) (reason : Reason) (next : Next) :
    Outcome began wait ((st.stopAll reason next).1, some (st.stopAll reason next).2) where
  past := h.stopAll reason next
  next := by
    intro _ htask
    cases htask
    trivial

theorem throw (h : Past began wait st) : Outcome began wait st.throw := stopAll h .startError .done

theorem ended (h : Past began wait st) : Outcome began wait (st, none) where
  past := h
  next t ht := absurd ht (Option.not_mem_none t)

theorem stop {b : Nat} {reason : Reason} {w : StopWait} {next : Next} (h : Past began wait st) :
    Outcome began wait (st, some (.stop b reason w next)) where
  past := h
  next := by
    intro _ htask
    cases htask
    trivial

theorem start {n : Nat} {p : Payload} {w : StartWait} (h : Past began wait st)
    (hn : w.Built → n ≤ began) : Outcome began wait (st, some (.start n p w)) where
  past := h
  next := by
    intro _ htask
    cases htask
    exact hn

theorem goOnAfter (h : Past began wait st) (next : Next) :
    Outcome began wait (st.goOnAfter next) := by
  cases next with
  | done => exact ended h
  | wsFail => exact throw h
  | start n p =>
      simp only [State.goOnAfter, getMedia]
      split
      · exact start ((h.send _).send _) False.elim
      · split
        · exact start (h.send _) False.elim
        · exact throw ((h.send .starting).send (.error .getMedia))

theorem resumeStop (h : Past began wait st) (b : Nat) (reason : Reason) (next : Next) (r : Reply)
    (w : StopWait) : Outcome began wait (st.resumeStop b reason next r w) := by
  cases w with
  | ws =>
      have hoff : Past began wait { st with
          worklets := st.worklets.filter fun w => some w.1 ≠ st.workletNode } :=
        { h with worklets := fun w hw => h.worklets w (List.mem_filter.mp hw).1 }
      exact stop (hoff.stopVideoRecorder r)
  | recorder => exact stop (h.finalize r)
  | persist => exact stop (h.send _).clearVideoRecorderState
  | video =>
      have hoff : Past began wait { st with
          workletNode := none
          streams := st.streams.filter fun k => some k ≠ st.mediaStream
          mediaStream := none } :=
        { h with mediaStream := fun _ k hk => absurd hk (Option.not_mem_none k) }
      simp only [State.resumeStop, stopMedia]
      split
      · exact stop { hoff with }
      · exact goOnAfter (hoff.finish reason) next
  | ctx => exact goOnAfter (h.finish reason) next

section

variable {n : Nat} {p : Payload}

theorem newAudioContext (h : Past began wait st) (hn : n ≤ began) :
    Outcome began wait (st.newAudioContext n p) := by
  refine start { h with audioCtx := ?_ } fun _ => hn
  intro k hk
  cases hk
  exact hn

/-- The recorder is kept from a `stopAll` that no longer looks at it. -/
theorem startRecorder (h : Past began wait st) (hn : wait ≠ .ctx → n ≤ began)
    (rec : RecorderInit) : Outcome began wait (st.startRecorder n p rec) := by
  have hset : ∀ recorders, Past began wait { st with recorder := some n, recorders := recorders } :=
    fun _ => { h with recorder := fun hwait k hk => Option.some.inj hk ▸ hn hwait }
  cases rec with
  | unsupported => exact throw (h.send (.recordingError .init))
  | throws => exact throw ((hset st.recorders).send (.recordingError .init))
  | started => exact start ((hset (n :: st.recorders)).send _) False.elim

theorem takeMedia {audio : Bool} (h : Past began wait st) (hmedia : wait ≠ .ctx → n ≤ began)
    (hcontext : audio && !p.recording → n ≤ began) (rec : RecorderInit) :
    Outcome began wait (st.takeMedia n p audio rec) := by
  have htake : Past began wait ({ st with
      mediaStream := some n
      streams := n :: st.streams
      shared := if p.display then n :: st.shared else st.shared }.send .mediaOk) :=
    { h with mediaStream := fun hwait k hk => Option.some.inj hk ▸ hmedia hwait }
  simp only [State.takeMedia]
  split
  · exact throw (htake.send (.error .noAudio))
  · next haudio =>
      split
      · exact startRecorder htake hmedia rec
      · next hrec =>
          refine newAudioContext htake (hcontext ?_)
          rw [Bool.not_eq_true, Bool.not_eq_false'] at haudio
          rw [haudio, Bool.eq_false_iff.mpr hrec]
          rfl

/-- A start that goes on is not after the `began`-th, or it has not made its
audio context yet, makes none now, and takes no media stream that the
`stopAll` would stop. -/
theorem resumeStart {r : Reply} {w : StartWait} {res : State × Option Task}
    (h : Past began wait st) (hbehind : (Task.start n p w).Behind began)
    (hok : began < n → (w.takesMedia p r → wait = .ctx) ∧ ¬ w.makesContext p r)
    (hres : st.resumeStart n p r w = some res) : Outcome began wait res := by
  have hle : w.makesContext p r → n ≤ began := fun hmakes =>
    Nat.le_of_not_lt fun hlt => (hok hlt).2 hmakes
  cases w with
  | media =>
      injection hres with hres
      rw [← hres]
      split
      · next audio rec =>
          split
          · exact throw (h.send (.error .getMedia))
          · next hshown =>
              have htakes : StartWait.takesMedia p (.media audio rec) .media := by
                show (!p.display || audio) = true
                cases hd : p.display <;> cases ha : audio <;> simp [hd, ha] at hshown ⊢
              refine takeMedia h (fun hwait => ?_) hle rec
              exact Nat.le_of_not_lt fun hlt => hwait ((hok hlt).1 htakes)
      · exact throw (h.send (.error .getMedia))
      · exact throw (h.send (.error .getMedia))
  | recorder =>
      injection hres with hres
      rw [← hres]
      exact newAudioContext h (hle rfl)
  | resume =>
      injection hres with hres
      rw [← hres]
      split
      · exact start h hbehind
      · exact throw h
  | addModule =>
      injection hres with hres
      rw [← hres]
      simp only [buildGraph]
      split
      · split
        · exact throw h
        · have hgraph : Past began wait ({ st with
              workletNode := some n, worklets := (n, false) :: st.worklets }.send .audioGraphOk) :=
            { h with worklets := List.forall_mem_cons.mpr ⟨hbehind trivial, h.worklets⟩ }
          exact start hgraph.closeWs hbehind
      · exact throw h
  | closeWs =>
      have hsend : Past began wait ({ st with handshakeOk := false }.send .wsConnecting) :=
        { h with }
      injection hres with hres
      rw [← hres]
      split
      · refine start { hsend with sockets := ?_ } hbehind
        exact List.forall_mem_cons.mpr ⟨hbehind trivial, h.sockets⟩
      · exact stopAll (hsend.rejectHandshakeIfAny.send (.error .ws)) .wsFail .wsFail
  | socket =>
      obtain ⟨ok, -, rfl⟩ := Option.map_eq_some_iff.mp hres
      cases ok with
      | true => exact ended (h.send .running)
      | false => exact stopAll (h.send (.error .ws)) .wsFail .wsFail

end

theorem goOn {i : Nat} {res : State × Option Task} (h : Outcome began wait res) :
    Past began wait { res.1 with tasks := Tasks.goOn res.1.tasks i res.2 } :=
  { h.past with tasks := forall_goOn h.past.tasks h.next }

end Outcome

/-! ## Steps -/

/-- Where the calls that wait after a step come from: they waited before, or are
a start that is counted, a `stopAll` of now, or one that had not come to its
last `await` and has gone on. -/
inductive Arises (tasks : List Task) (starts : Nat) : Task → Prop
  | old {task} (hmem : task ∈ tasks) : Arises tasks starts task
  | start {n p w} (hn : n ≤ starts) : Arises tasks starts (.start n p w)
  | now {reason w next} (hnext : ∀ n p, next = .start n p → n ≤ starts) :
      Arises tasks starts (.stop starts reason w next)
  | goesOn {b reason w w' next} (hmem : .stop b reason w next ∈ tasks) (hwait : w ≠ .ctx) :
      Arises tasks starts (.stop b reason w' next)
  | message {m} : Arises tasks starts (.message m)

theorem arises_some {tasks : List Task} {starts : Nat} {task : Task}
    (h : Arises tasks starts task) : ∀ t ∈ some task, Arises tasks starts t := by
  intro t ht
  cases ht
  exact h

theorem arises_none {tasks : List Task} {starts : Nat} :
    ∀ t ∈ (none : Option Task), Arises tasks starts t :=
  fun t ht => absurd ht (Option.not_mem_none t)

theorem arises_stopAll {tasks : List Task} {starts : Nat} (hst : st.starts = starts)
    (reason : Reason) {next : Next} (hnext : ∀ n p, next ≠ .start n p) :
    ∀ t ∈ some (st.stopAll reason next).2, Arises tasks starts t := by
  rw [← hst]
  exact arises_some (.now fun n p h => absurd h (hnext n p))

theorem arises_throw {tasks : List Task} : ∀ t ∈ st.throw.2, Arises tasks st.starts t :=
  arises_stopAll rfl .startError nofun

theorem arises_goOnAfter {tasks : List Task} {next : Next}
    (hnext : ∀ n p, next = .start n p → n ≤ st.starts) :
    ∀ t ∈ (st.goOnAfter next).2, Arises tasks st.starts t := by
  cases next with
  | done => exact arises_none
  | wsFail => exact arises_throw
  | start n p =>
      have hn : n ≤ st.starts := hnext n p rfl
      simp only [goOnAfter, getMedia]
      split
      · exact arises_some (.start hn)
      · split
        · exact arises_some (.start hn)
        · exact arises_throw

theorem arises_resumeStop {tasks : List Task} {reason : Reason} {w : StopWait} {next : Next}
    (hmem : .stop began reason w next ∈ tasks) (hnext : ∀ n p, next = .start n p → n ≤ st.starts)
    (r : Reply) : ∀ t ∈ (st.resumeStop began reason next r w).2, Arises tasks st.starts t := by
  cases w with
  | ws | recorder | persist => exact arises_some (.goesOn hmem StopWait.noConfusion)
  | ctx => exact @arises_goOnAfter (st.finish reason) tasks next hnext
  | video =>
      simp only [resumeStop, stopMedia]
      split
      · exact arises_some (.goesOn hmem StopWait.noConfusion)
      · exact @arises_goOnAfter (finish reason _) tasks next hnext

theorem arises_resumeStart {tasks : List Task} {n : Nat} {p : Payload} {r : Reply} {w : StartWait}
    {res : State × Option Task} (hn : n ≤ st.starts) (hres : st.resumeStart n p r w = some res) :
    ∀ t ∈ res.2, Arises tasks st.starts t := by
  have hstart : ∀ w', ∀ t ∈ some (Task.start n p w'), Arises tasks st.starts t :=
    fun _ => arises_some (.start hn)
  cases w with
  | media =>
      injection hres with hres
      rw [← hres]
      split
      · next audio rec =>
          split
          · exact arises_throw
          · simp only [takeMedia]
            split
            · exact arises_throw
            · split
              · cases rec with
                | unsupported | throws => exact arises_throw
                | started => exact hstart .recorder
              · exact hstart .resume
      · exact arises_throw
      · exact arises_throw
  | recorder =>
      injection hres with hres
      rw [← hres]
      exact hstart .resume
  | resume =>
      injection hres with hres
      rw [← hres]
      split
      · exact hstart .addModule
      · exact arises_throw
  | addModule =>
      injection hres with hres
      rw [← hres]
      simp only [buildGraph]
      split
      · split
        · exact arises_throw
        · exact hstart .closeWs
      · exact arises_throw
  | closeWs =>
      injection hres with hres
      rw [← hres]
      split
      · exact hstart .socket
      · have hsame := @SameCalls.rejectHandshakeIfAny
          ({ st with handshakeOk := false }.send .wsConnecting)
        exact arises_stopAll hsame.starts .wsFail fun _ _ => Next.noConfusion
  | socket =>
      obtain ⟨ok, -, rfl⟩ := Option.map_eq_some_iff.mp hres
      cases ok with
      | true => exact arises_none
      | false => exact arises_stopAll rfl .wsFail fun _ _ => Next.noConfusion

/-- A start that waits is counted, and so is what a `stopAll` knows of. -/
def Counted (starts : Nat) : Task → Prop
  | .start n _ _ => n ≤ starts
  | .stop b _ _ next => b ≤ starts ∧ ∀ n p, next = .start n p → n ≤ starts
  | .message _ => True

theorem Counted.mono {starts m : Nat} (hle : starts ≤ m) {task : Task} (h : Counted starts task) :
    Counted m task := by
  cases task with
  | start n p w => exact Nat.le_trans h hle
  | stop b reason w next =>
      exact ⟨Nat.le_trans h.1 hle, fun n p hnext => Nat.le_trans (h.2 n p hnext) hle⟩
  | message => trivial

/-- The counter does not go back, and the calls arise from those before. -/
structure Grows (st st' : State) : Prop where
  starts : st.starts ≤ st'.starts
  tasks : ∀ task ∈ st'.tasks, Arises st.tasks st'.starts task

namespace Grows

theorem same (hsame : SameCalls st st') : Grows st st' where
  starts := Nat.le_of_eq hsame.starts.symm
  tasks _ ht := .old (hsame.tasks ▸ ht)

theorem stopAllNow {st₁ : State} (hsame : SameCalls st st₁) (reason : Reason) :
    Grows st (st₁.stopAllNow reason) where
  starts := Nat.le_of_eq hsame.starts.symm
  tasks t ht := by
    rcases List.mem_append.mp ht with ht | ht
    · exact .old (hsame.tasks ▸ ht)
    · rw [List.mem_singleton.mp ht]
      exact .now nofun

theorem handleServerTextMessage (m : ServerMessage) : Grows st (st.handleServerTextMessage m) := by
  cases m with
  | error busy =>
      simp only [State.handleServerTextMessage]
      split
      · exact stopAllNow ((SameCalls.send _).trans .rejectHandshakeIfAny) _
      · split
        · exact stopAllNow ((SameCalls.send _).trans .rejectHandshakeIfAny) _
        · exact same ((SameCalls.send _).trans .rejectHandshakeIfAny)
  | hello | status => exact same ((SameCalls.send _).trans .resolveHandshakeIfAny)
  | other => exact same .resolveHandshakeIfAny

theorem onclose (k : Nat) (busy : Bool) : Grows st (st.onclose k busy) := by
  have hclosed : SameCalls st ({ st with
      sockets := st.sockets.filter fun s => s.1 ≠ k
      connectTimer := none
      wsOpen := false
      wsReadyToStream := false }.send .wsClose) := ⟨rfl, rfl, rfl⟩
  simp only [State.onclose]
  split
  · exact stopAllNow ((hclosed.trans (.send _)).trans .rejectHandshakeIfAny) _
  · split
    · exact stopAllNow (hclosed.trans .rejectHandshakeIfAny) _
    · exact same (hclosed.trans .rejectHandshakeIfAny)

theorem start (p : Payload) : Grows st (st.start p) := by
  have htasks : ∀ {reason : Reason} {w : StopWait} {next : Next},
      (∀ n q, next = .start n q → n ≤ st.starts + 1) →
        ∀ t ∈ st.tasks ++ [.stop (st.starts + 1) reason w next],
          Arises st.tasks (st.starts + 1) t := by
    intro reason w next hnext t ht
    rcases List.mem_append.mp ht with ht | ht
    · exact .old ht
    · rw [List.mem_singleton.mp ht]
      exact .now hnext
  simp only [State.start]
  split
  · refine ⟨Nat.le_succ st.starts, htasks fun n q hnext => ?_⟩
    cases hnext
    exact Nat.le_refl _
  · exact ⟨Nat.le_succ st.starts, htasks nofun⟩

theorem goOn {res : State × Option Task} (hsame : SameCalls st res.1) {i : Nat}
    (hnext : ∀ t ∈ res.2, Arises st.tasks st.starts t) :
    Grows st { res.1 with tasks := Tasks.goOn res.1.tasks i res.2 } where
  starts := Nat.le_of_eq hsame.starts.symm
  tasks := by
    show ∀ t ∈ Tasks.goOn res.1.tasks i res.2, Arises st.tasks res.1.starts t
    rw [hsame.starts, hsame.tasks]
    exact forall_goOn (fun t ht => .old ht) hnext

end Grows

theorem step_grows {l : Label} (hcounted : ∀ task ∈ st.tasks, Counted st.starts task)
    (hstep : st.step l = some st') : Grows st st' := by
  cases step_takes hstep with
  | start => exact .start _
  | stop => exact .stopAllNow .refl _
  | @resume i r _ hstep =>
      obtain ⟨task, st₁, next, hi, hres, rfl⟩ := step_resume hstep
      have hmem := List.mem_of_getElem? hi
      have htask := hcounted task hmem
      cases task with
      | message m =>
          injection hres with hres
          injection hres with hst₁ hnext
          rw [← hst₁, ← hnext]
          have hgrows : Grows st (st.handleServerTextMessage m) := .handleServerTextMessage m
          exact ⟨hgrows.starts, fun t ht => hgrows.tasks t (List.mem_of_mem_eraseIdx ht)⟩
      | start n p w =>
          have hsame : SameCalls st st₁ := .resumeStart hres
          exact @Grows.goOn st (st₁, next) hsame i (arises_resumeStart htask hres)
      | stop b reason w after =>
          injection hres with hres
          have hsame : SameCalls st (st.resumeStop b reason after r w).1 := .resumeStop ..
          have harises := arises_resumeStop hmem htask.2 r
          rw [hres] at hsame harises
          exact @Grows.goOn st (st₁, next) hsame i harises
  | socketOpen => exact .same ⟨rfl, rfl, rfl⟩
  | socketClose => exact .onclose _ _
  | @socketError k _ =>
      have hoff : SameCalls st
          (({ st with connectTimer := none, wsOpen := false, wsReadyToStream := false }.close
            k).send .wsError) := ⟨rfl, rfl, rfl⟩
      exact .same ((hoff.trans .rejectHandshakeIfAny).trans (.settle k false))
  | @connectTimeout k _ =>
      have hoff : SameCalls st (({ st with connectTimer := none }.send .wsError).close k) :=
        ⟨rfl, rfl, rfl⟩
      exact .same (hoff.trans (.settle k false))
  | handshakeTimeout => exact .same (.settle _ false)
  | message =>
      refine ⟨Nat.le_refl _, fun t ht => ?_⟩
      rcases List.mem_append.mp ht with ht | ht
      · exact .old ht
      · rw [List.mem_singleton.mp ht]
        exact .message
  | chunk => exact .same (.onChunk ..)
  | trackEnded => exact .stopAllNow (.send .ended) _
  | windowError => exact .stopAllNow (.send .serverError) _

/-- What a `stopAll` looks at does not change in a step that does not overtake it. -/
theorem Past.step {l : Label} (h : Past began wait st)
    (hok : ∀ i r n p w, l = .resume i r → st.tasks[i]? = some (.start n p w) → began < n →
      (w.takesMedia p r → wait = .ctx) ∧ ¬ w.makesContext p r)
    (hstep : st.step l = some st') : Past began wait st' := by
  have hadd : ∀ {st₁ : State} (task : Task), Past began wait st₁ → task.Behind began →
      Past began wait { st₁ with tasks := st₁.tasks ++ [task] } := by
    intro st₁ task h₁ htask
    refine { h₁ with tasks := fun t ht => ?_ }
    rcases List.mem_append.mp ht with ht | ht
    · exact h₁.tasks t ht
    · rw [List.mem_singleton.mp ht]
      exact htask
  cases step_takes hstep with
  | @start p =>
      have hset : ∀ strict, Past began wait { st with
          starts := st.starts + 1, stopAsked := false, strictWs := strict } :=
        fun _ => { h with }
      simp only [State.start]
      split
      · exact hadd _ ((hset p.strictWs).stopAll .restart (.start (st.starts + 1) p)) trivial
      · exact hadd _ ((hset st.strictWs).stopAll .startError .done) trivial
  | stop => exact h.stopAllNow _
  | @resume i r _ hstep =>
      obtain ⟨task, st₁, next, hi, hres, rfl⟩ := step_resume hstep
      cases task with
      | message m =>
          injection hres with hres
          injection hres with hst₁ hnext
          rw [← hst₁, ← hnext]
          exact (Outcome.ended (h.handleServerTextMessage m)).goOn
      | start n p w =>
          have hbehind := h.tasks _ (List.mem_of_getElem? hi)
          exact (Outcome.resumeStart h hbehind (hok i r n p w rfl hi) hres).goOn
      | stop b reason w after =>
          injection hres with hres
          have hout := Outcome.resumeStop h b reason after r w
          rw [hres] at hout
          exact hout.goOn
  | @socketOpen k hk => exact { h with sockets := h.setReady, openedBy := h.sockets _ hk }
  | socketClose => exact h.onclose _ _
  | @socketError k _ =>
      have hoff : Past began wait { st with
          connectTimer := none, wsOpen := false, wsReadyToStream := false } := { h with }
      exact ((hoff.close k).send .wsError).rejectHandshakeIfAny.settle k false
  | @connectTimeout k _ =>
      have hoff : Past began wait { st with connectTimer := none } := { h with }
      exact ((hoff.send .wsError).close k).settle k false
  | handshakeTimeout => exact h.settle _ false
  | message => exact hadd _ h trivial
  | @chunk k bytes bufferedAmount first hfirst =>
      obtain ⟨l₁, l₂, hl, -⟩ := List.lookup_eq_some_iff.mp hfirst
      have hmem : (k, first) ∈ st.worklets := by
        rw [hl]
        exact List.mem_append_right _ List.mem_cons_self
      exact h.onChunk (h.worklets _ hmem) first bytes bufferedAmount
  | trackEnded => exact (h.send .ended).stopAllNow _
  | windowError => exact (h.send .serverError).stopAllNow _

/-- What a `stopAll` still looks at is its own session's. -/
def Keeps (st : State) : Task → Prop
  | .stop b _ w _ => Past b w st
  | .start .. | .message _ => True

structure InOrder (st : State) : Prop where
  now : Past st.starts .ws st
  counted : ∀ task ∈ st.tasks, Counted st.starts task
  keeps : ∀ task ∈ st.tasks, st.Keeps task

theorem InOrder.init : InOrder .init where
  now := {
    mediaStream := fun _ k hk => absurd hk (Option.not_mem_none k)
    recorder := fun _ k hk => absurd hk (Option.not_mem_none k)
    audioCtx := fun k hk => absurd hk (Option.not_mem_none k)
    sockets := fun _ hs => absurd hs List.not_mem_nil
    worklets := fun _ hw => absurd hw List.not_mem_nil
    openedBy := Nat.le_refl 0
    countedBy := Nat.le_refl 0
    tasks := fun _ ht => absurd ht List.not_mem_nil }
  counted := fun _ ht => absurd ht List.not_mem_nil
  keeps := fun _ ht => absurd ht List.not_mem_nil

theorem InOrder.step {l : Label} (h : InOrder st) (hok : st.NotOvertaken l)
    (hstep : st.step l = some st') : InOrder st' := by
  have hgrows := step_grows h.counted hstep
  have hpast : ∀ {b reason w next}, .stop b reason w next ∈ st.tasks → Past b w st' := by
    intro b reason w next hmem
    refine (h.keeps _ hmem).step (fun i r n p startWait hl hi hlt => ?_) hstep
    subst hl
    exact hok _ hi _ hmem w (Task.elder_stop hlt)
  have hnow : Past st'.starts .ws st' := by
    refine Past.mono (h.now.step (fun i r n p w _ hi hlt => ?_) hstep) StopWait.noConfusion
      hgrows.starts
    have hn : n ≤ st.starts := h.counted _ (List.mem_of_getElem? hi)
    exact absurd hlt (Nat.not_lt_of_le hn)
  refine ⟨hnow, fun task hmem => ?_, fun task hmem => ?_⟩
  · cases hgrows.tasks task hmem with
    | old hold => exact (h.counted _ hold).mono hgrows.starts
    | start hn => exact hn
    | now hnext => exact ⟨Nat.le_refl _, hnext⟩
    | goesOn hold => exact (h.counted _ hold).mono hgrows.starts
    | message => trivial
  · cases hgrows.tasks task hmem with
    | @old task hold =>
        cases task with
        | stop => exact hpast hold
        | start | message => trivial
    | now => exact hnow.mono StopWait.noConfusion (Nat.le_refl _)
    | goesOn hold hwait => exact (hpast hold).mono hwait (Nat.le_refl _)
    | start | message => trivial

end State

end VTranser.Offscreen

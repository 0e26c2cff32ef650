import VTranser.Lib.Tasks

/-!
# The offscreen document

It captures the media, sends the audio to the server and tells the worker its
status. `start` takes a media stream, a recorder, an audio context, a worklet
and a socket, one after the other, and waits between them; `stopAll` gives back
what the globals hold, and waits in between as well.

The calls that wait are tasks. What a call has taken is named by the number of
its `start`, so the browser's side is a list of such numbers for each kind of
resource. The texts the socket sends, and the timer that keeps the status
messages about the buffer apart, are left out.
-/

namespace VTranser.Offscreen

open Tasks

/-- The payload of `__OFFSCREEN_START__`: whether there is a `server` and a
`streamId`, whether `captureSource` is `"display"`, and two flags. -/
structure Payload where
  server : Bool
  streamId : Bool
  display : Bool
  recording : Bool
  strictWs : Bool
  deriving DecidableEq, Repr

/-- Why `stopAll` is called. -/
inductive Reason
  | restart | stop | startError | wsFail | busy | serverError | wsClose | trackEnded
  | unhandledRejection | error
  deriving DecidableEq, Repr

/-- The stage of an `"error"`. -/
inductive Stage
  | getMedia | noAudio | ws
  deriving DecidableEq, Repr

/-- The stage of a `"recording-error"`. -/
inductive RecordingStage
  | init | finalize | persist
  deriving DecidableEq, Repr

/-- The `state` of a status. -/
inductive Status
  | starting | running
  | stopping (reason : Reason)
  | stopped (reason : Reason)
  | error (stage : Stage)
  | picker | mediaOk | ended
  | audioGraphOk
  | recordingStarted | recordingSaved
  | recordingError (stage : RecordingStage)
  | wsConnecting | wsOpen | wsError | wsClose
  | serverBusy | serverError | serverHello | serverStatus
  | audioBackpressure | audioBackpressureClear
  deriving DecidableEq, Repr

/-- What the server sends. All that is not an error or one of the two below is
only passed on. -/
inductive ServerMessage
  | error (busy : Bool)
  | hello
  | status
  | other
  deriving DecidableEq, Repr

inductive ReadyState
  | connecting | opened | closing
  deriving DecidableEq, Repr

/-- What `stopAll` waits for: the end of `closeWs`, the recorder, the upload, the
end of `stopVideoRecorderAndPersist`, the audio context. -/
inductive StopWait
  | ws | recorder | persist | video | ctx
  deriving DecidableEq, Repr

/-- What comes after `stopAll`: nothing, the rest of `start`, or the `throw` of
a failed connection. -/
inductive Next
  | done
  | start (n : Nat) (p : Payload)
  | wsFail
  deriving DecidableEq, Repr

/-- What `start` waits for after its own `stopAll`. -/
inductive StartWait
  | media | recorder | resume | addModule | closeWs | socket
  deriving DecidableEq, Repr

/-- A call that waits. A `stopAll` knows how many starts there were when it was
called. -/
inductive Task
  | stop (began : Nat) (reason : Reason) (wait : StopWait) (next : Next)
  | start (n : Nat) (p : Payload) (wait : StartWait)
  | message (m : ServerMessage)
  deriving DecidableEq, Repr

structure Counters where
  bytesSent : Nat
  chunksSent : Nat
  bytesDropped : Nat
  chunksDropped : Nat
  deriving DecidableEq, Repr

def Counters.zero : Counters := ⟨0, 0, 0, 0⟩

/-- The globals; then the browser: the live streams, those whose track has the
listener for `ended`, the open contexts, the active recorders, the sockets that
still have their handlers, the worklets that have theirs, with the flag
`firstAudioChunkSent`, and how the promises of `openWs` were settled; then what
records a run. `recorder` stands for `mediaRecorder`, `recordStream` and
`recordCfg`, which are set and cleared together. -/
structure State where
  mediaStream : Option Nat
  audioCtx : Option Nat
  recorder : Option Nat
  workletNode : Option Nat
  ws : Option Nat
  wsOpen : Bool
  wsReadyToStream : Bool
  strictWs : Bool
  handshake : Option Nat
  handshakeOk : Bool
  connectTimer : Option Nat
  counters : Counters
  wsBackpressureActive : Bool
  streams : List Nat
  shared : List Nat
  contexts : List Nat
  recorders : List Nat
  sockets : List (Nat × ReadyState)
  worklets : List (Nat × Bool)
  promises : List (Nat × Bool)
  tasks : List Task
  sent : List Status
  starts : Nat
  stopAsked : Bool
  openedBy : Nat
  countedBy : Nat

def State.init : State where
  mediaStream := none
  audioCtx := none
  recorder := none
  workletNode := none
  ws := none
  wsOpen := false
  wsReadyToStream := false
  strictWs := true
  handshake := none
  handshakeOk := false
  connectTimer := none
  counters := .zero
  wsBackpressureActive := false
  streams := []
  shared := []
  contexts := []
  recorders := []
  sockets := []
  worklets := []
  promises := []
  tasks := []
  sent := []
  starts := 0
  stopAsked := false
  openedBy := 0
  countedBy := 0

/-- How the recorder starts: not at all, or it throws when it is there, or well. -/
inductive RecorderInit
  | unsupported | throws | started
  deriving DecidableEq, Repr

/-- What a call that waits is answered. To `stopAll` at the recorder `ok` means
that there is something to store. -/
inductive Reply
  | ok
  | failed
  | media (audio : Bool) (recorder : RecorderInit)
  deriving DecidableEq, Repr

inductive Label
  | start (p : Payload)
  | stop
  | resume (i : Nat) (r : Reply)
  | socketOpen (k : Nat)
  | socketClose (k : Nat) (busy : Bool)
  | socketError (k : Nat)
  | connectTimeout
  | handshakeTimeout
  | message (k : Nat) (m : ServerMessage)
  | chunk (n bytes bufferedAmount : Nat)
  | trackEnded (k : Nat)
  | windowError (rejection : Bool)
  deriving DecidableEq, Repr

namespace State

def send (s : Status) (st : State) : State := { st with sent := st.sent ++ [s] }

/-! ## The handshake -/

/-- The promise of `openWs` for the socket is settled, unless it already is. -/
def settle (k : Nat) (ok : Bool) (st : State) : State :=
  if (st.promises.lookup k).isSome then st else { st with promises := (k, ok) :: st.promises }

def settleHandshake (ok : Bool) (st : State) : State :=
  match st.handshake with
  | some k => { st.settle k ok with handshake := none }
  | none => st

def resolveHandshakeIfAny (st : State) : State :=
  if st.handshakeOk then st else { st with handshakeOk := true }.settleHandshake true

def rejectHandshakeIfAny (st : State) : State :=
  if st.handshakeOk then st else st.settleHandshake false

/-! ## `stopAll` -/

def closeWs (st : State) : State :=
  { st with
    wsOpen := false
    wsReadyToStream := false
    sockets := st.sockets.filter fun s => st.ws ≠ some s.1
    ws := none
    handshake := none
    connectTimer := none
    wsBackpressureActive := false }

/-- `stopAll` up to its first `await`. -/
def stopAll (reason : Reason) (next : Next) (st : State) : State × Task :=
  ((st.send (.stopping reason)).closeWs, .stop st.starts reason .ws next)

/-- `stopAll` called by nobody who waits for it. -/
def stopAllNow (reason : Reason) (st : State) : State :=
  let (st', task) := st.stopAll reason .done
  { st' with tasks := st'.tasks ++ [task], stopAsked := true }

/-- `start` throws, and the handler stops everything. -/
def throw (st : State) : State × Option Task :=
  let (st', task) := st.stopAll .startError .done
  (st', some task)

/-- The `finally` of `stopVideoRecorderAndPersist`. -/
def clearVideoRecorderState (st : State) : State :=
  { st with
    streams := st.streams.filter fun k => some k ≠ st.recorder
    recorder := none }

/-- The recorder has stopped. -/
def finalize (r : Reply) (st : State) : State × StopWait :=
  if r = .ok then (st, .persist)
  else ((st.send (.recordingError .finalize)).clearVideoRecorderState, .video)

/-- `stopVideoRecorderAndPersist` up to its first `await`. -/
def stopVideoRecorder (r : Reply) (st : State) : State × StopWait :=
  match st.recorder with
  | none => (st, .video)
  | some k =>
      if k ∈ st.recorders then
        ({ st with recorders := st.recorders.filter (· ≠ k) }, .recorder)
      else st.finalize r

def saveVideo (r : Reply) (st : State) : State :=
  (st.send (if r = .ok then .recordingSaved else .recordingError .persist)).clearVideoRecorderState

/-- What stands after the last `await` of `stopAll`. -/
def finish (reason : Reason) (st : State) : State :=
  { st with
    audioCtx := none
    wsOpen := false
    wsReadyToStream := false
    counters := .zero
    wsBackpressureActive := false
    handshakeOk := false }.send (.stopped reason)

/-- `start` after its own `stopAll`. -/
def getMedia (n : Nat) (p : Payload) (st : State) : State × Option Task :=
  let st := st.send .starting
  if p.display then (st.send .picker, some (.start n p .media))
  else if p.streamId then (st, some (.start n p .media))
  else (st.send (.error .getMedia)).throw

def goOnAfter (next : Next) (st : State) : State × Option Task :=
  match next with
  | .done => (st, none)
  | .start n p => st.getMedia n p
  | .wsFail => st.throw

/-- The media stream and the audio context are given back. -/
def stopMedia (began : Nat) (reason : Reason) (next : Next) (st : State) : State × Option Task :=
  let st := { st with
    workletNode := none
    streams := st.streams.filter fun k => some k ≠ st.mediaStream
    mediaStream := none }
  match st.audioCtx with
  | some c =>
      ({ st with contexts := st.contexts.filter (· ≠ c) }, some (.stop began reason .ctx next))
  | none => (st.finish reason).goOnAfter next

/-- `stopAll` goes on. -/
def resumeStop (began : Nat) (reason : Reason) (next : Next) (r : Reply) (st : State) :
    StopWait → State × Option Task
  | .ws =>
      let st := { st with worklets := st.worklets.filter fun w => some w.1 ≠ st.workletNode }
      let (st, wait) := st.stopVideoRecorder r
      (st, some (.stop began reason wait next))
  | .recorder =>
      let (st, wait) := st.finalize r
      (st, some (.stop began reason wait next))
  | .persist => (st.saveVideo r, some (.stop began reason .video next))
  | .video => st.stopMedia began reason next
  | .ctx => (st.finish reason).goOnAfter next

/-! ## `start` -/

def newAudioContext (n : Nat) (p : Payload) (st : State) : State × Option Task :=
  ({ st with audioCtx := some n, contexts := n :: st.contexts }, some (.start n p .resume))

/-- `startVideoRecorderIfNeeded` and what follows. -/
def startRecorder (n : Nat) (p : Payload) (rec : RecorderInit) (st : State) :
    State × Option Task :=
  match rec with
  | .unsupported => (st.send (.recordingError .init)).throw
  | .throws => ({ st with recorder := some n }.send (.recordingError .init)).throw
  | .started =>
      ({ st with recorder := some n, recorders := n :: st.recorders }.send .recordingStarted,
        some (.start n p .recorder))

def takeMedia (n : Nat) (p : Payload) (audio : Bool) (rec : RecorderInit) (st : State) :
    State × Option Task :=
  let st := { st with
    mediaStream := some n
    streams := n :: st.streams
    shared := if p.display then n :: st.shared else st.shared }.send .mediaOk
  if !audio then (st.send (.error .noAudio)).throw
  else if p.recording then st.startRecorder n p rec
  else st.newAudioContext n p

/-- The nodes of the graph, the handler of the worklet, and the start of `openWs`. -/
def buildGraph (n : Nat) (p : Payload) (st : State) : State × Option Task :=
  if st.audioCtx.isNone || st.mediaStream.isNone then st.throw
  else
    ({ st with workletNode := some n, worklets := (n, false) :: st.worklets }.send
      .audioGraphOk |>.closeWs, some (.start n p .closeWs))

/-- The connection has failed. -/
def wsFailed (st : State) : State × Option Task :=
  let (st', task) := (st.send (.error .ws)).stopAll .wsFail .wsFail
  (st', some task)

def newWebSocket (n : Nat) (p : Payload) (st : State) : State × Option Task :=
  ({ st with
    ws := some n
    sockets := (n, .connecting) :: st.sockets
    connectTimer := some n }, some (.start n p .socket))

/-- `start` goes on; at the socket it can only when the promise is settled. -/
def resumeStart (n : Nat) (p : Payload) (r : Reply) (st : State) :
    StartWait → Option (State × Option Task)
  | .media =>
      some <| match r with
      | .media audio rec =>
          if p.display && !audio then (st.send (.error .getMedia)).throw
          else st.takeMedia n p audio rec
      | .ok | .failed => (st.send (.error .getMedia)).throw
  | .recorder => some (st.newAudioContext n p)
  | .resume =>
      some (if r = .ok ∧ st.audioCtx.isSome then (st, some (.start n p .addModule)) else st.throw)
  | .addModule => some (if r = .ok then st.buildGraph n p else st.throw)
  | .closeWs =>
      let st := { st with handshakeOk := false }.send .wsConnecting
      some (if r = .ok then st.newWebSocket n p else st.rejectHandshakeIfAny.wsFailed)
  | .socket =>
      (st.promises.lookup n).map fun ok =>
        if ok then (st.send .running, none) else st.wsFailed

/-! ## The server -/

/-- `handleServerTextMessage` -/
def handleServerTextMessage (st : State) : ServerMessage → State
  | .error busy =>
      if busy then (st.send .serverBusy).rejectHandshakeIfAny.stopAllNow .busy
      else
        let st := (st.send .serverError).rejectHandshakeIfAny
        if st.strictWs then st.stopAllNow .serverError else st
  | .hello => (st.send .serverHello).resolveHandshakeIfAny
  | .status => (st.send .serverStatus).resolveHandshakeIfAny
  | .other => st.resolveHandshakeIfAny

def setReady (k : Nat) (ready : ReadyState) (sockets : List (Nat × ReadyState)) :
    List (Nat × ReadyState) :=
  sockets.map fun s => if s.1 = k then (k, ready) else s

def onopen (k : Nat) (st : State) : State :=
  { st with
    sockets := setReady k .opened st.sockets
    connectTimer := none
    wsOpen := true
    wsReadyToStream := true
    handshake := some k
    handshakeOk := false
    openedBy := k }.send .wsOpen

def onclose (k : Nat) (busy : Bool) (st : State) : State :=
  let st := { st with
    sockets := st.sockets.filter fun s => s.1 ≠ k
    connectTimer := none
    wsOpen := false
    wsReadyToStream := false }.send .wsClose
  if busy then (st.send .serverBusy).rejectHandshakeIfAny.stopAllNow .busy
  else if st.strictWs then st.rejectHandshakeIfAny.stopAllNow .wsClose
  else st.rejectHandshakeIfAny

def close (k : Nat) (st : State) : State :=
  { st with sockets := setReady k .closing st.sockets }

def onerror (k : Nat) (st : State) : State :=
  ({ st with connectTimer := none, wsOpen := false, wsReadyToStream := false }.close k).send
    .wsError |>.rejectHandshakeIfAny |>.settle k false

/-! ## The audio -/

/-- `WS_BUFFER_HIGH_WATERMARK` -/
def highWatermark : Nat := 256 * 1024

/-- `WS_BUFFER_RESUME_WATERMARK` -/
def resumeWatermark : Nat := 64 * 1024

/-- `shouldDropPcmByBackpressure` for a socket that is open. -/
def shouldDropPcmByBackpressure (bufferedAmount : Nat) (st : State) : State × Bool :=
  if st.wsBackpressureActive || highWatermark ≤ bufferedAmount then
    if resumeWatermark < bufferedAmount then
      ({ st with wsBackpressureActive := true }.send .audioBackpressure, true)
    else ({ st with wsBackpressureActive := false }.send .audioBackpressureClear, false)
  else (st, false)

/-- The handler of the worklet's port, for a `"pcm-int16"`. -/
def onChunk (n : Nat) (first : Bool) (bytes bufferedAmount : Nat) (st : State) : State :=
  if st.wsOpen && st.wsReadyToStream && st.sockets.any (fun s => st.ws = some s.1 ∧ s.2 = .opened) then
    let (st, drop) := st.shouldDropPcmByBackpressure bufferedAmount
    let c := st.counters
    if drop then
      { st with
        counters := { c with
          chunksDropped := c.chunksDropped + 1, bytesDropped := c.bytesDropped + bytes }
        countedBy := n }
    else
      let st := { st with
        counters := { c with chunksSent := c.chunksSent + 1, bytesSent := c.bytesSent + bytes }
        countedBy := n
        worklets := st.worklets.map fun w => if w.1 = n then (n, true) else w }
      if first then st else st.resolveHandshakeIfAny
  else st

/-! ## Steps -/

/-- A message `__OFFSCREEN_START__`. -/
def start (p : Payload) (st : State) : State :=
  let n := st.starts + 1
  let st := { st with starts := n, stopAsked := false }
  let (st', task) :=
    if p.server then
      let (st', task) := { st with strictWs := p.strictWs }.stopAll .restart (.start n p)
      (st', some task)
    else st.throw
  { st' with tasks := st'.tasks ++ task.toList }

def resume (r : Reply) (st : State) : Task → Option (State × Option Task)
  | .stop began reason wait next => some (st.resumeStop began reason next r wait)
  | .start n p wait => st.resumeStart n p r wait
  | .message m => some (st.handleServerTextMessage m, none)

def step (st : State) : Label → Option State
  | .start p => some (st.start p)
  | .stop => some (st.stopAllNow .stop)
  | .resume i r => do
      let task ← st.tasks[i]?
      let (st', next) ← st.resume r task
      return { st' with tasks := goOn st'.tasks i next }
  | .socketOpen k => if (k, .connecting) ∈ st.sockets then some (st.onopen k) else none
  | .socketClose k busy =>
      if (st.sockets.lookup k).isSome then some (st.onclose k busy) else none
  | .socketError k => if (st.sockets.lookup k).isSome then some (st.onerror k) else none
  | .connectTimeout =>
      st.connectTimer.map fun k =>
        ({ st with connectTimer := none }.send .wsError).close k |>.settle k false
  | .handshakeTimeout => st.handshake.map fun k => st.settle k false
  | .message k m =>
      if (k, .opened) ∈ st.sockets then some { st with tasks := st.tasks ++ [.message m] } else none
  | .chunk n bytes bufferedAmount =>
      (st.worklets.lookup n).map fun first => st.onChunk n first bytes bufferedAmount
  | .trackEnded k =>
      if k ∈ st.streams ∧ k ∈ st.shared then some ((st.send .ended).stopAllNow .trackEnded) else none
  | .windowError rejection =>
      some ((st.send .serverError).stopAllNow (if rejection then .unhandledRejection else .error))

end State

end VTranser.Offscreen

import VTranser.Server.AudioBuffer
import VTranser.Server.Decode
import VTranser.Server.PyJson

/-!
# The receive loop and the feed worker

Two coroutines of one session. The receive loop reads the messages of the client
and puts their audio on `queue`; the feed worker takes the items from there,
decodes them and feeds the recorder. A step of the system is what one of them does
from one suspension to the next.

`queue.put` suspends only while the queue is full, `queue.get` only while it is
empty. Wherever the worker may sleep or send, it does, for a while that can be of no
length. What the transcript writer and the recorder have to do at the end is not
here, nor are the numbers that are only logged.
-/

namespace VTranser.Server

variable {α : Type*}

/-- The settings, and arithmetic on samples. -/
structure AudioConfig (α : Type*) where
  lib : AudioLib α
  defaultSrcSr : Int
  tgtSr : Int
  /-- `FRAME_SAMPLES_BASE` -/
  hop : Nat
  /-- How many frames the silence at the end has. -/
  tailFrames : Nat
  queueMax : Int
  dropOldestOnFull : Bool
  dropGuardQ : Int
  qbytesHardCap : Int
  autoStart : Bool
  /-- `MAX_BUF_MS > 0 and _buf_ms_now() > MAX_BUF_MS`, of so many samples. -/
  overMaxBuf : Int → Bool
  /-- The samples of `DROP_BUF_TO_MS`. -/
  dropBufTo : Nat
  hop_pos : 0 < hop
  tgtSr_pos : 0 < tgtSr

/-- The settings when nothing is configured. -/
def defaultAudio (lib : AudioLib α) : AudioConfig α where
  lib := lib
  defaultSrcSr := 48000
  tgtSr := 16000
  hop := 320
  tailFrames := 50
  queueMax := 16
  dropOldestOnFull := true
  dropGuardQ := 15
  qbytesHardCap := 48 * 1024
  autoStart := true
  overMaxBuf bufSamples := 14400 < bufSamples
  dropBufTo := 7200
  hop_pos := by decide
  tgtSr_pos := by decide

/-- An item of `queue`. -/
structure AudioItem where
  buf : List UInt8
  sr : Int
  dtype : Option Dtype
  nbytes : Nat
  enqTs : Int
  deriving DecidableEq, Repr

/-- Where the receive loop waits, and after it the inner `finally`. -/
inductive RecvWait
  | recv
  /-- An acknowledgement is sent, and what is done after it. -/
  | ackStart | ackBinary (raw : List UInt8) | ackAudio (items : List (PyStr × PyJson))
  /-- The queue is full. -/
  | put (item : AudioItem)
  | idleSend
  | putFinal | putEnd | joinWorker | left
  deriving Repr

/-- Why the receive loop was left. -/
inductive RecvExit
  | stop | idle | closed | recvError
  /-- An exception of a statement of the loop. -/
  | raised
  deriving DecidableEq, Repr

/-- Where the feed worker waits, or how it ended. -/
inductive FeedWait
  | get
  /-- It sleeps after a frame of an item, or sends the status after the last. -/
  | frame | status
  /-- The end of the stream: it sleeps after a frame, or after one of the silence. -/
  | drain | silence (frames : Nat)
  | ended | crashed | cancelled
  deriving DecidableEq, Repr

/-- The worker has ended, one way or the other. -/
def FeedWait.over : FeedWait → Bool
  | ended | crashed => true
  | _ => false

/-- `queue`, the count of its bytes, and what became of the items: those that were
put on it, and those that have left it. -/
structure AudioQueue where
  queue : List (Option AudioItem)
  queueBytesTotal : Int
  enqueued : List AudioItem
  gone : List AudioItem
  deriving DecidableEq, Repr

/-- What the recorder is given: samples of the buffer, or as many zeros at the end. -/
inductive RecorderFrame (α : Type*)
  | audio (samples : List (Option α))
  | silence
  deriving DecidableEq

structure AudioSession (α : Type*) where
  sessionSrcSr : Int
  sessionForceDtype : Option Dtype
  sessionStarted : Bool
  q : AudioQueue
  recv : RecvWait
  exit : Option RecvExit
  worker : FeedWait
  feed : Feed α Int
  recorded : List (RecorderFrame α)

/-- What a client or its connection does, or which coroutine goes on. -/
inductive AudioEvent
  /-- `websocket.recv` gives a message: bytes, or a text and what `json.loads` made of
  it, if it is JSON. -/
  | binary (raw : List UInt8) (now : Int)
  | text (obj : Option PyJson) (now : Int)
  /-- It runs into the timeout, or fails. -/
  | idleTimeout | closed | recvError
  /-- The receive loop goes on: what it sent is sent, or the queue has room. -/
  | goOn (now : Int)
  /-- The wait for the worker, in the end, is over by time. -/
  | joinTimeout
  /-- The worker goes on; the status is due after an item. -/
  | work (status : Bool)

/-! ## The queue -/

namespace AudioQueue

variable {α : Type*} (cfg : AudioConfig α)

def init : AudioQueue := ⟨[], 0, [], []⟩

/-- `queue.get_nowait()` of the receive loop, which forgets the item. -/
def getNowait (q : AudioQueue) : AudioQueue :=
  match q.queue with
  | [] => q
  | none :: queue => { q with queue := queue }
  | some old :: queue =>
      { q with
        queue := queue
        queueBytesTotal := max 0 (q.queueBytesTotal - old.nbytes)
        gone := q.gone ++ [old] }

/-- `queue.get()` of the worker, with what is done there for an item. -/
def get (q : AudioQueue) : AudioQueue :=
  match q.queue with
  | [] => q
  | none :: queue => { q with queue := queue }
  | some item :: queue =>
      { q with
        queue := queue
        queueBytesTotal :=
          if 0 < item.nbytes then max 0 (q.queueBytesTotal - item.nbytes) else q.queueBytesTotal
        gone := q.gone ++ [item] }

/-- The loop of `_drop_oldest_until_under`, for so many items. -/
def dropOldestLoop (cap : Int) : Nat → AudioQueue → AudioQueue
  | 0, q => q
  | n + 1, q => if cap ≤ q.queueBytesTotal then dropOldestLoop cap n q.getNowait else q

/-- `_drop_oldest_until_under` -/
def dropOldestUntilUnder (q : AudioQueue) (cap : Int) : AudioQueue :=
  if cap ≤ 0 then q else dropOldestLoop cap q.queue.length q

/-- `queue.full()` -/
def Full (q : AudioQueue) : Prop := 0 < cfg.queueMax ∧ cfg.queueMax ≤ q.queue.length

instance (q : AudioQueue) : Decidable (q.Full cfg) :=
  inferInstanceAs (Decidable (0 < cfg.queueMax ∧ cfg.queueMax ≤ q.queue.length))

/-- What makes room for an item. -/
def guard (q : AudioQueue) : AudioQueue :=
  if cfg.dropOldestOnFull ∧ cfg.dropGuardQ ≤ q.queue.length then q.getNowait else q

/-- An item gets on the queue, and what is done before the next message is read. -/
def put (q : AudioQueue) (item : AudioItem) : AudioQueue :=
  let q := { q with
    queue := q.queue ++ [some item]
    queueBytesTotal := q.queueBytesTotal + item.nbytes
    enqueued := q.enqueued ++ [item] }
  if 0 < cfg.qbytesHardCap ∧ cfg.qbytesHardCap ≤ q.queueBytesTotal then
    q.dropOldestUntilUnder cfg.qbytesHardCap
  else q

/-- The end of the stream gets on the queue. -/
def putEnd (q : AudioQueue) : AudioQueue := { q with queue := q.queue ++ [none] }

end AudioQueue

namespace AudioSession

variable {α : Type*} (cfg : AudioConfig α)

def init : AudioSession α where
  sessionSrcSr := cfg.defaultSrcSr
  sessionForceDtype := none
  sessionStarted := false
  q := .init
  recv := .recv
  exit := none
  worker := .get
  feed := .init
  recorded := []

/-! ## The receive loop -/

/-- `await queue.put(item)` -/
def awaitPut (item : AudioItem) (s : AudioSession α) : AudioSession α :=
  if s.q.Full cfg then { s with recv := .put item }
  else { s with recv := .recv, q := s.q.put cfg item }

/-- The item of some bytes, after the guard. -/
def enqueue (raw : List UInt8) (sr : Int) (dtype : Option Dtype) (now : Int)
    (s : AudioSession α) : AudioSession α :=
  { s with q := s.q.guard cfg }.awaitPut cfg ⟨raw, sr, dtype, raw.length, now⟩

/-- The loop is left. -/
def leave (exit : RecvExit) (s : AudioSession α) : AudioSession α :=
  { s with recv := .putFinal, exit := some exit }

/-- A binary message, when the session is started. -/
def binaryAudio (raw : List UInt8) (now : Int) (s : AudioSession α) : AudioSession α :=
  s.enqueue cfg raw s.sessionSrcSr s.sessionForceDtype now

/-- `dt.lower()` of a text that is a type. -/
def dtypeOf : PyJson → Option Dtype
  | .str dt =>
      if lower dt = "i16".toList then some .i16
      else if lower dt = "f32".toList then some .f32
      else none
  | _ => none

/-- What the `try` of the audio branch reads: the bytes, the rate and the type. -/
def audioFields (items : List (PyStr × PyJson)) (s : AudioSession α) :
    Option (List UInt8 × Int × Option Dtype) := do
  let raw ← (← getKey items "audio").b64decode
  let sr ← ((getKey items "sr").getD (.int s.sessionSrcSr)).toInt
  let dtype := match getKey items "dtype" with
    | some dt => dtypeOf dt
    | none => s.sessionForceDtype
  return (raw, sr, dtype)

/-- The `try` of the audio branch, when the session is started. -/
def jsonAudio (items : List (PyStr × PyJson)) (now : Int) (s : AudioSession α) :
    AudioSession α :=
  match s.audioFields items with
  | some (raw, sr, dtype) => s.enqueue cfg raw sr dtype now
  | none => { s with recv := .recv }

/-- `(obj.get("event") or "").lower().strip()` -/
def eventOf (items : List (PyStr × PyJson)) : Option PyStr :=
  match getKey items "event" with
  | none => some []
  | some event =>
      if event.truthy then
        match event with
        | .str event => some (pyStrip (lower event))
        | _ => none
      else some []

/-- `session_src_sr` after a start event. -/
def startRate (items : List (PyStr × PyJson)) (s : AudioSession α) : Option Int :=
  match getKey items "sample_rate" with
  | some rate => rate.toInt
  | none => some s.sessionSrcSr

def startEvent (items : List (PyStr × PyJson)) (s : AudioSession α) : AudioSession α :=
  match s.startRate items with
  | none => s.leave .raised
  | some rate =>
      { s with
        sessionSrcSr := rate
        sessionForceDtype := ((getKey items "dtype").bind dtypeOf).or s.sessionForceDtype
        sessionStarted := true
        recv := .ackStart }

/-- The events that end a session. -/
def stopEvents : List PyStr := ["stop".toList, "eos".toList, "end".toList]

/-- A text message. -/
def onText (obj : Option PyJson) (now : Int) (s : AudioSession α) : AudioSession α :=
  match obj with
  | none => s
  | some obj =>
      match obj.items? with
      | none => s.leave .raised
      | some items =>
          match eventOf items with
          | none => s.leave .raised
          | some event =>
              if event = "start".toList then s.startEvent items
              else if event ∈ stopEvents then s.leave .stop
              else if (getKey items "audio").isSome then
                if s.sessionStarted then s.jsonAudio cfg items now
                else if cfg.autoStart then
                  { s with sessionStarted := true, recv := .ackAudio items }
                else s
              else s

/-- A binary message. -/
def onBinary (raw : List UInt8) (now : Int) (s : AudioSession α) : AudioSession α :=
  if s.sessionStarted then s.binaryAudio cfg raw now
  else if cfg.autoStart then { s with sessionStarted := true, recv := .ackBinary raw }
  else s

/-- The receive loop goes on where it waits, if it can. -/
def resumeRecv (now : Int) (s : AudioSession α) : Option (AudioSession α) :=
  match s.recv with
  | .ackStart => some { s with recv := .recv }
  | .ackBinary raw => some (s.binaryAudio cfg raw now)
  | .ackAudio items => some (s.jsonAudio cfg items now)
  | .put item =>
      if s.q.Full cfg then none else some { s with recv := .recv, q := s.q.put cfg item }
  | .idleSend => some (s.leave .idle)
  | .putFinal => some { s with recv := .putEnd }
  | .putEnd =>
      if s.q.Full cfg then none else some { s with recv := .joinWorker, q := s.q.putEnd }
  | .joinWorker => if s.worker.over then some { s with recv := .left } else none
  | _ => none

/-! ## The feed worker -/

/-- A frame of the buffer is given to the recorder. -/
def feedFrame (s : AudioSession α) : AudioSession α :=
  { s with
    feed := s.feed.feedFrame cfg.hop
    recorded := s.recorded ++ [.audio (s.feed.buf.bufqConsumeSamples cfg.hop).1] }

/-- The loop over the frames of an item: one frame, or what is after the loop. -/
def nextFrame (status : Bool) (s : AudioSession α) : AudioSession α :=
  if cfg.hop ≤ s.feed.buf.bufSamples then
    { s.feedFrame cfg with worker := .frame }
  else { s with worker := if status then .status else .get }

/-- The silence at the end of the stream. -/
def nextSilence (frames : Nat) (s : AudioSession α) : AudioSession α :=
  match frames with
  | 0 => { s with worker := .ended }
  | frames + 1 => { s with recorded := s.recorded ++ [.silence], worker := .silence frames }

/-- The loop over the frames that are left at the end of the stream. -/
def nextDrain (s : AudioSession α) : AudioSession α :=
  if cfg.hop ≤ s.feed.buf.bufSamples then
    { s.feedFrame cfg with worker := .drain }
  else s.nextSilence cfg.tailFrames

/-- The samples of an item, at the rate of the recorder. -/
def decode (item : AudioItem) : Option (List α) :=
  (bytesToF32Auto cfg.lib item.buf item.dtype).bind fun f32Src =>
    resampleTo16k cfg.lib cfg.tgtSr f32Src item.sr

/-- The samples of an item go into the buffer. -/
def bufferItem (f32 : List α) (enqTs : Int) (s : AudioSession α) : AudioSession α :=
  let feed := s.feed.step cfg.hop (.append f32 enqTs)
  let feed :=
    if cfg.overMaxBuf feed.buf.bufSamples then feed.step cfg.hop (.dropOldest cfg.dropBufTo)
    else feed
  { s with feed := feed }

/-- The worker has an item. -/
def takeItem (item : AudioItem) (status : Bool) (s : AudioSession α) : AudioSession α :=
  match decode cfg item with
  | none => { s with worker := .crashed }
  | some f32 => (s.bufferItem cfg f32 item.enqTs).nextFrame cfg status

/-- The worker goes on where it waits, if it can. -/
def work (status : Bool) (s : AudioSession α) : Option (AudioSession α) :=
  match s.worker with
  | .get =>
      match s.q.queue with
      | [] => none
      | none :: _ => some ({ s with q := s.q.get }.nextDrain cfg)
      | some item :: _ => some ({ s with q := s.q.get }.takeItem cfg item status)
  | .frame => some (s.nextFrame cfg status)
  | .status => some { s with worker := .get }
  | .drain => some (s.nextDrain cfg)
  | .silence frames => some (s.nextSilence frames)
  | _ => none

/-! ## The session -/

def step (s : AudioSession α) : AudioEvent → Option (AudioSession α)
  | .binary raw now => match s.recv with
      | .recv => some (s.onBinary cfg raw now)
      | _ => none
  | .text obj now => match s.recv with
      | .recv => some (s.onText cfg obj now)
      | _ => none
  | .idleTimeout => match s.recv with
      | .recv => some { s with recv := .idleSend }
      | _ => none
  | .closed => match s.recv with
      | .recv => some (s.leave .closed)
      | _ => none
  | .recvError => match s.recv with
      | .recv => some (s.leave .recvError)
      | _ => none
  | .goOn now => s.resumeRecv cfg now
  | .joinTimeout => match s.recv with
      | .joinWorker =>
          if s.worker.over then none else some { s with recv := .left, worker := .cancelled }
      | _ => none
  | .work status => s.work cfg status

end AudioSession

end VTranser.Server

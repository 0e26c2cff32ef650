import VTranser.Lib.Senders
import VTranser.Server.Patch

/-!
# Updates on the wire

Each callback of the recognizer hands the event loop a coroutine of its own
(`_submit`): one that emits the patch, in chunks, or one that sends the stable
message. The event loop begins them in the order of the callbacks, and nothing
makes one wait for another: wherever a send suspends its coroutine the others may
go on.

Time is an input, so the reading a coroutine makes when it begins comes with its
callback.
-/

namespace VTranser.Server

/-- A message of a callback. -/
inductive WireMsg
  | patch (msg : PatchMsg)
  | stable (msg : StableMsg)
  deriving DecidableEq, Repr

structure UpdateConfig extends Config where
  ui : UiConfig
  classes : TokenClasses

/-- The settings when nothing is configured, without transcript files. -/
def defaultUpdates : UpdateConfig where
  stabEnable := true
  patchMinIntervalMs := 66
  txtEnable := false
  txtSaveDraft := false
  txtSaveMinDraftIntervalMs := 200
  ui := ⟨true, 48, 12⟩
  classes := reClasses

/-- The transcript state and the coroutines. -/
structure UpdateState where
  st : State
  senders : Senders WireMsg

inductive UpdateEvent
  | update (clock : Clock) (emitMs : Int) (text : PyStr)
  | stable (clock : Clock) (text : PyStr)
  /-- The event loop begins a coroutine, or lets the `i`-th go on. -/
  | start
  | resume (i : Nat)

namespace UpdateState

variable (cfg : UpdateConfig)

def init (stabilizer : TranscriptStabilizer) : UpdateState := ⟨.init stabilizer, .init⟩

/-- The messages of a patch. -/
def patchMsgs (p : Patch) (emitMs : Int) : List WireMsg :=
  (emitPatchInsertChunked cfg.ui cfg.classes p.delete p.insert p.seq emitMs).map .patch

def step (s : UpdateState) : UpdateEvent → UpdateState
  | .update clock emitMs text =>
      let (st, patch, _) := patchFromModelText cfg.toConfig clock text s.st
      match patch with
      | none => { s with st := st }
      | some p => ⟨st, s.senders.submit (patchMsgs cfg p emitMs)⟩
  | .stable clock text =>
      let (st, msg, _) := onStableCb cfg.toConfig clock text s.st
      match msg with
      | none => { s with st := st }
      | some m => ⟨st, s.senders.submit [.stable m]⟩
  | .start => { s with senders := s.senders.start }
  | .resume i => { s with senders := s.senders.resume i }

def run (s : UpdateState) (es : List UpdateEvent) : UpdateState := es.foldl (step cfg) s

end UpdateState

end VTranser.Server

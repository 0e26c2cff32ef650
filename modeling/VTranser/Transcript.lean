import VTranser.Server.Patch
import VTranser.Overlay.English
import VTranser.Lib.Run

/-!
# The transcript from the server to the overlay

The server's callbacks put messages on a first-in first-out connection; the
service worker relays the oldest to the overlay, which queues or adopts its
text, and an animation frame flushes what is queued. Which of these happens next
is up to the environment, so it is the label of the step.

A patch may be cut anywhere. How it is cut is part of the label too: pieces that
concatenate to its insert text.

Two fields are kept for the statements only and nothing in a step reads them:
every message carries the text the server showed after it (`Sent.after`), and
`heard` is that text for the last message relayed.
-/

namespace VTranser.Transcript

open Server (PatchMsg StableMsg Patch)

/-! ## The server's side -/

/-- A callback, or any text that an update might show. -/
inductive Event
  | shown (nowMs : Int) (text : PyStr)
  | update (clock : Server.Clock) (rawText : PyStr)
  | stable (clock : Server.Clock) (text : PyStr)

inductive Output
  | patch (p : Patch)
  | stable (m : StableMsg)

def callback (cfg : Server.Config) (e : Event) (st : Server.State) :
    Server.State × Option Output :=
  match e with
  | .shown nowMs text =>
      let r := Server.patchShown cfg nowMs text st
      (r.1, r.2.1.map .patch)
  | .update clock rawText =>
      let r := Server.patchFromModelText cfg clock rawText st
      (r.1, r.2.1.map .patch)
  | .stable clock text =>
      let r := Server.onStableCb cfg clock text st
      (r.1, r.2.1.map .stable)

/-! ## The whole path -/

inductive Msg
  | patch (m : PatchMsg)
  | stable (m : StableMsg)

structure Sent where
  msg : Msg
  after : PyStr

structure State where
  server : Server.State
  wire : List Sent
  heard : PyStr
  overlay : Overlay.English

structure Config where
  server : Server.Config
  enStateMaxChars : Int

inductive Label
  | callback (e : Event) (pieces : List PyStr) (tMs : Int)
  | relay
  | frame

/-- The messages of one callback. The pieces of a patch must make up its text. -/
def messages (out : Option Output) (pieces : List PyStr) (tMs : Int) : Option (List Msg) :=
  match out with
  | none => some []
  | some (.patch p) =>
      if pieces ≠ [] ∧ pieces.flatten = p.insert then
        some ((Server.cutMsgs p.delete p.seq tMs pieces).map .patch)
      else none
  | some (.stable m) => some [.stable m]

/-- A stable message as the recorder page wraps it. -/
def wrapStable (m : StableMsg) : Worker.StableRelay :=
  ⟨none, ⟨m.full.toJs, m.seq, m.tMs⟩⟩

/-- The overlay's reaction to a relayed message. -/
def receive (enStateMaxChars : Int) (m : Msg) (st : Overlay.English) : Overlay.English :=
  match m with
  | .patch m => Overlay.enqueueOpEN m.delete m.insert.toJs (some m.seq) st
  | .stable m => Overlay.handleStable enStateMaxChars (Worker.relayStable (wrapStable m)) st

def step (cfg : Config) (st : State) : Label → Option State
  | .callback e pieces tMs =>
      let (server, out) := callback cfg.server e st.server
      (messages out pieces tMs).map fun ms =>
        { st with server, wire := st.wire ++ ms.map fun m => ⟨m, server.lastEmitted⟩ }
  | .relay =>
      match st.wire with
      | [] => none
      | x :: rest =>
          some { st with
            wire := rest, heard := x.after,
            overlay := receive cfg.enStateMaxChars x.msg st.overlay }
  | .frame => some { st with overlay := Overlay.flushEN cfg.enStateMaxChars st.overlay }

def State.init (stabilizer : Server.TranscriptStabilizer) : State :=
  ⟨.init stabilizer, [], [], .init⟩

/-- Everything sent has been relayed and flushed. -/
def State.processed (st : State) : Bool := st.wire.isEmpty && st.overlay.ops.isEmpty

end VTranser.Transcript

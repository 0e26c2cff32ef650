import VTranser.Offscreen
import VTranser.Lib.Trigger

/-!
# The audio on the socket

The handler of the worklet's port, with what it sends. The browser counts for each
socket the bytes that the network has not taken yet, its `bufferedAmount`; the first
texts of a socket are among them, the text that says goodbye is not, for nothing is
read off a socket after it.

`readings` are the amounts that the handler has read since the socket was opened, or
since a `stopAll` last came to its end.
-/

namespace VTranser.Offscreen

/-- What became of a chunk that the worklet posted. -/
inductive ChunkFate
  | notReady
  | dropped
  | sent (socket : Nat)
  deriving DecidableEq, Repr

structure Sender where
  st : State
  bufferedAmount : Nat → Nat
  chunks : List (List Int × ChunkFate)
  readings : List Nat

/-- What happens: to the audio, to the buffers of the sockets, or else. -/
inductive SenderLabel
  | chunk (n : Nat) (payload : List Int)
  /-- The network takes bytes. -/
  | drain (k bytes : Nat)
  /-- The socket opens and gets its first texts. -/
  | socketOpen (k bytes : Nat)
  | other (l : Label)
  deriving Repr

/-- `byteLength` of an `Int16Array`. -/
def byteLength (payload : List Int) : Nat := 2 * payload.length

namespace State

/-- The socket that audio goes to, when it is ready. -/
def ready (st : State) : Option Nat :=
  if st.wsOpen && st.wsReadyToStream && st.sockets.any (fun s => st.ws = some s.1 ∧ s.2 = .opened)
  then st.ws else none

/-- The `stopAll` comes to its end when it goes on. -/
def ends (st : State) : Task → Bool
  | .stop _ _ wait _ =>
      match wait with
      | .ctx => true
      | .video => st.audioCtx.isNone
      | .ws | .recorder | .persist => false
  | .start .. | .message _ => false

/-- The socket is opened, or a `stopAll` comes to its end. -/
def renews (st : State) : Label → Bool
  | .socketOpen k => st.ws = some k
  | .resume i _ => st.tasks[i]?.any st.ends
  | _ => false

end State

namespace Sender

def init : Sender := ⟨.init, fun _ => 0, [], []⟩

/-- What the handler reads off the socket. -/
def amount (s : Sender) : Nat := (s.st.ws.map s.bufferedAmount).getD 0

/-- What becomes of a chunk now. -/
def fate (s : Sender) : ChunkFate :=
  match s.st.ready with
  | none => .notReady
  | some k => if (s.st.shouldDropPcmByBackpressure s.amount).2 then .dropped else .sent k

def setAmount (k bytes : Nat) (s : Sender) : Sender :=
  { s with bufferedAmount := fun j => if j = k then bytes else s.bufferedAmount j }

/-- `ws.send` -/
def deliver (payload : List Int) (s : Sender) : Sender :=
  match s.fate with
  | .sent k => s.setAmount k (s.bufferedAmount k + byteLength payload)
  | _ => s

def chunk (payload : List Int) (st : State) (s : Sender) : Sender :=
  { s.deliver payload with
    st := st
    chunks := s.chunks ++ [(payload, s.fate)]
    readings := if s.fate = .notReady then s.readings else s.readings ++ [s.amount] }

/-- A step that the handler has no part in. -/
def goOn (l : Label) (st : State) (s : Sender) : Sender :=
  { s with
    st := st
    readings := if s.st.renews l then [] else s.readings }

def step (s : Sender) : SenderLabel → Option Sender
  | .chunk n payload =>
      (s.st.step (.chunk n (byteLength payload) s.amount)).map fun st => s.chunk payload st
  | .drain k bytes => some (s.setAmount k (s.bufferedAmount k - bytes))
  | .socketOpen k bytes =>
      (s.st.step (.socketOpen k)).map fun st => (s.goOn (.socketOpen k) st).setAmount k bytes
  | .other (.chunk ..) | .other (.socketOpen _) => none
  | .other l => (s.st.step l).map fun st => s.goOn l st

end Sender

end VTranser.Offscreen

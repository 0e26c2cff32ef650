import VTranser.Lib.FairLock
import VTranser.Translator.Handler

/-!
# The sends of a connection

All coroutines of a connection send through `send_obj`, which holds `send_lock` while the
socket takes the message. A send that finds the lock free is written at once. Another waits,
and in the meantime the other coroutines go on; so a message may be written long after its
sender called for it, and after messages from the client that came since.

`Handler` says what a coroutine does between two waits and in which order they call for
their sends. Here a call goes through the lock, and its sender goes on only when its send is
over. There are sends that leave nothing in the state of the handler: the `hello`, the errors
and the `status` of the reader. They hold the lock as all others do. A status may come after
any message that the reader has dealt with; the clock of the source lets it come less often.
-/

namespace VTranser.Translator

/-- Who sends. The releases are one sender each, and come through the lock in the order in
which they are listed. -/
inductive Sender
  | reader | release | commitWorker | draftWorker
  deriving DecidableEq, Repr

inductive Notice
  | hello | error | status
  deriving DecidableEq, Repr

inductive Message
  | out (o : SentOut)
  | notice (n : Notice)
  deriving DecidableEq, Repr

def Message.out? : Message → Option SentOut
  | .out o => some o
  | .notice _ => none

/-- `aside` are those who send a notice. The lock lists what was written, each message with
the epoch of its writing. -/
structure Connection (σ : Type) where
  handler : Handler σ
  aside : List (Sender × Notice)
  lock : FairLock Sender Message Nat

namespace Handler.Label

def sender : Handler.Label → Sender
  | .receive .. | .readerResume _ => .reader
  | .release .. | .releaseResume .. => .release
  | .commitTake | .commitTranslated _ | .commitFailed | .commitResume => .commitWorker
  | .draftTake | .draftTranslated _ | .draftFailed | .draftResume => .draftWorker

/-- It is the end of a send. -/
def isResume : Handler.Label → Bool
  | .readerResume _ | .releaseResume .. | .commitResume | .draftResume => true
  | _ => false

/-- A release that has sent after another is not written before it. -/
def inTurn : Handler.Label → Bool
  | .releaseResume i _ => i == 0
  | _ => true

end Handler.Label

namespace Connection

variable {σ : Type}

/-- A coroutine goes on, and `notices` if it sends a notice then; or a notice is over; or the
lock goes to the next. -/
inductive Label
  | go (l : Handler.Label) (notices : Bool)
  | notified (s : Sender)
  | grant
  deriving DecidableEq, Repr

/-- The reader begins with a `hello`. -/
def init (seg : σ) : Connection σ where
  handler := .init seg
  aside := [(.reader, .hello)]
  lock := FairLock.init.call .reader (.notice .hello) 0

def call (s : Sender) (m : Message) (c : Connection σ) : Connection σ :=
  { c with lock := c.lock.call s m c.handler.epoch }

def notify (s : Sender) (n : Notice) (c : Connection σ) : Connection σ :=
  call s (.notice n) { c with aside := (s, n) :: c.aside }

/-- Whose send is over goes on, and whoever waits for none. -/
def mayGo (c : Connection σ) (l : Handler.Label) : Bool :=
  (c.aside.lookup l.sender).isNone && (!l.isResume || c.lock.holder == some l.sender) && l.inTurn

/-- The notice that a coroutine may send after a step. -/
def notice (h : Handler σ) : Handler.Label → Option Notice
  | .commitFailed | .draftFailed => some .error
  | .receive .. | .readerResume _ => if h.reader.isNone then some .status else none
  | _ => none

/-- The handler has gone on to `h`; its new sends are called for. -/
def goOn (l : Handler.Label) (notices : Bool) (h : Handler σ) (c : Connection σ) : Connection σ :=
  let new := h.sent.drop c.handler.sent.length
  let lock := if l.isResume then c.lock.release else c.lock
  let c := new.foldl (fun c o => c.call l.sender (.out o)) { c with handler := h, lock }
  if notices then
    match notice h l with
    | some n => c.notify l.sender n
    | none => c
  else c

/-- A notice is over. After the `hello` comes the error, when there is no translator. -/
def noticeOver (cfg : HandlerConfig σ) (s : Sender) (n : Notice) (c : Connection σ) :
    Connection σ :=
  let c := { c with aside := c.aside.filter fun a => a.1 ≠ s, lock := c.lock.release }
  if n = .hello ∧ cfg.mtUnavailable then c.notify s .error else c

def step (cfg : HandlerConfig σ) (c : Connection σ) : Label → Option (Connection σ)
  | .go l notices =>
      if c.mayGo l then (Handler.step cfg c.handler l).map fun h => c.goOn l notices h else none
  | .notified s =>
      if c.lock.holder = some s then (c.aside.lookup s).map fun n => c.noticeOver cfg s n
      else none
  | .grant => (c.lock.grant c.handler.epoch).map fun lock => { c with lock }

end Connection

end VTranser.Translator

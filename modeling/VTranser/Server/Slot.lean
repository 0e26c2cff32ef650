import VTranser.Lib.Tasks
import VTranser.Text

/-!
# The slot for one client

One client at a time has the server: `_active_client` is its address, taken by
its handler before anything else and given back at the very end. Both happen
under `_client_lock`, which a handler that finds the server busy keeps while it
sends its answer and closes the connection.

What a handler does in between is described by where it waits and where it can
wait next; any of it may end by an exception. The settings decide which ways
there are, and here all of them are. A free lock goes to any of those that wait
for it.
-/

namespace VTranser.Server

open Tasks

/-- Where the body of `handler` waits. -/
inductive BodyWait
  /-- `_authenticate`: the answer that all is well, the first message, and the
  two waits of `_auth_fail`. -/
  | authOk | authRecv | authFailSend | authFailClose
  /-- `_init_files_sync` on its thread. -/
  | initFiles
  /-- The answer to a recorder that could not be made. -/
  | initFailSend | initFailClose
  | hello
  /-- The loop over the messages. -/
  | recv | ack | queuePut | idleSend
  /-- The inner `finally`. -/
  | putFinal | putEnd | joinWorker | putStop | joinWriter
  deriving DecidableEq, Repr

namespace BodyWait

/-- After the client is known: the files, the recorder, the first message. -/
def setup : List (Option BodyWait) := [some initFiles, some initFailSend, some hello, none]

def closing : List (Option BodyWait) := [some putFinal, some putEnd]

/-- Where the body can wait first, or that it ends before. -/
def entry : List (Option BodyWait) := [some authOk, some authRecv, some authFailSend] ++ setup

/-- Where the body can wait next, or that it ends. -/
def next : BodyWait → List (Option BodyWait)
  | authOk => setup
  | authRecv => [some authOk, some authFailSend, none]
  | authFailSend => [some authFailClose]
  | authFailClose => [none]
  | initFiles => [some initFailSend, some hello, none]
  | initFailSend => [some initFailClose]
  | initFailClose => [none]
  | hello => [some recv]
  | recv => [some recv, some ack, some queuePut, some idleSend] ++ closing
  | ack => [some recv, some ack, some queuePut] ++ closing
  | queuePut => some recv :: closing
  | idleSend => closing
  | putFinal => [some putEnd]
  | putEnd => [some joinWorker]
  | joinWorker => [some putStop, none]
  | putStop => [some joinWriter]
  | joinWriter => [none]

end BodyWait

/-- Where a handler waits. -/
inductive HandlerWait
  /-- It has not begun, or waits for the lock to take the slot. -/
  | take
  /-- It has the lock and sends `BUSY`, or closes the connection then. -/
  | busySend | busyClose
  | body (wait : BodyWait)
  /-- It waits for the lock to give the slot back. -/
  | release
  deriving DecidableEq, Repr

/-- A handler that runs, with its `sess_id`. -/
structure HandlerTask where
  sessId : PyStr
  wait : HandlerWait
  deriving DecidableEq, Repr

/-- The globals of the server and the handlers that run. -/
structure SlotState where
  clientLock : Bool
  activeClient : Option PyStr
  handlers : List HandlerTask
  deriving DecidableEq, Repr

inductive SlotEvent
  /-- A client connects. -/
  | connect (sessId : PyStr)
  /-- The `i`-th handler goes on, the `way`-th of the ways it can go. -/
  | goOn (i way : Nat)
  deriving DecidableEq, Repr

namespace SlotState

def init : SlotState := ⟨false, none, []⟩

/-- The outer `finally`. -/
def leave (s : SlotState) (i : Nat) (t : HandlerTask) : SlotState :=
  if s.clientLock then { s with handlers := goOn s.handlers i (some { t with wait := .release }) }
  else
    { s with
      activeClient := if s.activeClient = some t.sessId then none else s.activeClient
      handlers := goOn s.handlers i none }

/-- The body of the handler waits again, or ends. -/
def goBody (s : SlotState) (i : Nat) (t : HandlerTask) : Option BodyWait → SlotState
  | some wait => { s with handlers := goOn s.handlers i (some { t with wait := .body wait }) }
  | none => s.leave i t

def handler (s : SlotState) (i : Nat) (t : HandlerTask) (way : Nat) : SlotState :=
  match t.wait with
  | .take =>
      if s.clientLock then s
      else if s.activeClient.isSome then
        { s with
          clientLock := true
          handlers := goOn s.handlers i (some { t with wait := .busySend }) }
      else
        match BodyWait.entry[way]? with
        | some wait => { s with activeClient := some t.sessId }.goBody i t wait
        | none => s
  | .busySend => { s with handlers := goOn s.handlers i (some { t with wait := .busyClose }) }
  | .busyClose => { s with clientLock := false, handlers := goOn s.handlers i none }
  | .body wait =>
      match wait.next[way]? with
      | some wait => s.goBody i t wait
      | none => s
  | .release => s.leave i t

def step (s : SlotState) : SlotEvent → SlotState
  | .connect sessId => { s with handlers := s.handlers ++ [⟨sessId, .take⟩] }
  | .goOn i way =>
      match s.handlers[i]? with
      | some t => s.handler i t way
      | none => s

def run (es : List SlotEvent) : SlotState := es.foldl step init

end SlotState

end VTranser.Server

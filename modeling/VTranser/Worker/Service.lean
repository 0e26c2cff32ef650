import VTranser.Lib.Tasks
import VTranser.Worker.Persist

/-!
# The service worker

It starts and stops the capture, passes the transcript on to the tab, to the
translator and to the object that keeps it, and holds all its state in globals:
`current`, `wantTranslateVI`, `transWs` and what belongs to it, and
`transcriptPersist`.

Every message runs in a handler of its own, and what a handler does after an
`await` is a task. Where a handler waits more than once and does not look at the
globals in between, the waits are one. The checks before a start has its tab,
the texts for the panel and what only goes into a log are left out.
-/

namespace VTranser.ServiceWorker

open Tasks

/-- `current`, without the addresses. -/
structure Current where
  tabId : Option Nat
  startedAt : Bool
  starting : Bool
  panelOpen : Bool
  deriving DecidableEq, Repr

/-- A stable text as it is kept and as it is sent. -/
structure Stable where
  full : JsStr
  seq : Int
  tMs : Int
  deriving DecidableEq, Repr

def Stable.empty : Stable := ⟨[], 0, 0⟩

/-- A message `__TRANSCRIPT_STABLE__`. -/
structure StableMsg where
  full : JsStr
  seq : Option Int
  tMs : Option Int
  deriving DecidableEq, Repr

/-- What is kept of it. -/
def StableMsg.toStable (msg : StableMsg) : Stable := ⟨msg.full, msg.seq.getD 0, msg.tMs.getD 0⟩

/-- What is sent to the translator. -/
inductive TransMsg
  | reset
  | baseline (s : Stable)
  | stable (s : Stable)
  deriving DecidableEq, Repr

/-- The globals of the translator. `sockets` are those that are not closed, with
whether they are open, and `timers` the timers that have not fired; `sent` is
what was sent, with the socket. -/
structure Translator where
  transWs : Option Nat
  sockets : List (Nat × Bool)
  made : Nat
  transReconnectTimer : Option Nat
  timers : List Nat
  timersMade : Nat
  transNeedHardResetOnOpen : Bool
  lastEnStable : Stable
  lastSentStableSeq : Int
  sent : List (Nat × TransMsg)

namespace Translator

def init : Translator where
  transWs := none
  sockets := []
  made := 0
  transReconnectTimer := none
  timers := []
  timersMade := 0
  transNeedHardResetOnOpen := false
  lastEnStable := .empty
  lastSentStableSeq := -1
  sent := []

/-- `disconnectTranslator` -/
def disconnect (hard : Bool) (tr : Translator) : Translator :=
  let tr := { tr with
    timers := tr.timers.filter fun k => tr.transReconnectTimer ≠ some k
    transReconnectTimer := none
    sockets := tr.sockets.filter fun (s : Nat × Bool) => tr.transWs ≠ some s.1
    transWs := none }
  if hard then { tr with lastSentStableSeq := -1, lastEnStable := .empty } else tr

/-- `setTimeout(connectTranslator, ...)` -/
def schedule (tr : Translator) : Translator :=
  { tr with
    timers := tr.timersMade :: tr.timers
    transReconnectTimer := some tr.timersMade
    timersMade := tr.timersMade + 1 }

/-- The socket of the global, if it is open. -/
def openWs (tr : Translator) : Option Nat := tr.transWs.filter fun k => (k, true) ∈ tr.sockets

def transSend (msg : TransMsg) (tr : Translator) : Translator :=
  match tr.openWs with
  | some k => { tr with sent := tr.sent ++ [(k, msg)] }
  | none => tr

def transSendBaselineIfAny (tr : Translator) : Translator :=
  if tr.lastEnStable.full.isEmpty then tr else tr.transSend (.baseline tr.lastEnStable)

/-- `feedTranslatorStable` when the socket is wanted and open. -/
def feed (s : Stable) (tr : Translator) : Translator :=
  if 0 < s.seq then
    if s.seq ≤ tr.lastSentStableSeq then tr
    else { tr with lastSentStableSeq := s.seq }.transSend (.stable s)
  else tr.transSend (.stable s)

def newSocket (tr : Translator) : Translator :=
  { tr with
    transWs := some tr.made
    sockets := (tr.made, false) :: tr.sockets
    made := tr.made + 1 }

def onopen (k : Nat) (tr : Translator) : Translator :=
  let tr := { tr with sockets := tr.sockets.map fun (s : Nat × Bool) => if s.1 = k then (k, true) else s }
  if tr.transNeedHardResetOnOpen then
    { (tr.transSend .reset).transSendBaselineIfAny with transNeedHardResetOnOpen := false }
  else tr.transSendBaselineIfAny

end Translator

/-- What comes after `stopCapture`: nothing, the rest of
`resetRuntimeAfterFailure`, of the handler for a closed tab, or of a start. -/
inductive After
  | done
  | failure
  | tabClosed
  | start (tab : Nat)
  deriving DecidableEq, Repr

/-- What `stopCapture` waits for: the message `__OVERLAY_RESET__` to the tab; the
removal of the overlay and the offscreen document; `transcriptPersist.stop`. A
start that has failed first waits for `transcriptPersist.stop` on its own. -/
inductive StopWait
  | reset (tab : Nat)
  | removed
  | persist
  | caught
  deriving DecidableEq, Repr

/-- What a start waits for. -/
inductive StartWait
  | inject | access | oldPersist | user | tab | streamId | tabAttempt | displayAttempt | captured
  | mode
  deriving DecidableEq, Repr

inductive PanelWait
  | inject | mode | server
  deriving DecidableEq, Repr

/-- A handler that waits. A cleanup knows how many things were installed when it
began, a start what it has installed itself; a relay knows the session its text
is of and the highest number that came before. -/
inductive Task
  | start (tab own : Nat) (wait : StartWait)
  | cleanup (began : Nat) (wait : StopWait) (after : After)
  | relay (session : Nat) (prev : Int) (msg : StableMsg)
  | connect
  | modes (prev : Bool) (tab : Nat)
  | modesOn
  | openPanel (tab : Nat) (wait : PanelWait)
  | closePanel (tab : Nat) (removed : Bool)
  deriving DecidableEq, Repr

/-- What happens to the overlay of a tab. -/
inductive OverlayEvent
  | inject | teardown
  deriving DecidableEq, Repr

/-- The globals, the handlers that wait, and what records a run: the overlays,
the number of installations (of a `transcriptPersist`, with that number, or of a
tab in `current`), which of them the tab and the kept text are of, and the
highest number of a stable text since. -/
structure State where
  current : Option Current
  wantTranslateVI : Bool
  tr : Translator
  transcriptPersist : Option (Nat × TranscriptPersist.Persist)
  tasks : List Task
  overlay : List (Nat × OverlayEvent)
  installs : Nat
  session : Nat
  lastEnOf : Nat
  highest : Int

def State.init : State where
  current := none
  wantTranslateVI := false
  tr := .init
  transcriptPersist := none
  tasks := []
  overlay := []
  installs := 0
  session := 0
  lastEnOf := 0
  highest := 0

/-- The states of the offscreen document that the worker looks at; the failures
are `server-busy`, `server-error` and `error`. -/
inductive OffscreenStatus
  | running | stopped | failure | other
  deriving DecidableEq, Repr

/-- The answer to what a handler waits for; for the id of a stream `failed` also
stands for none. -/
inductive Reply
  | ok | failed
  deriving DecidableEq, Repr

inductive Label
  | panelStart (tab : Nat)
  | panelStop
  | logout
  | tabClosed (tab : Nat)
  | status (s : OffscreenStatus)
  | stable (session : Nat) (msg : StableMsg)
  | modes (vi : Bool)
  | panelToggle (tab : Nat)
  | iconClicked (tab : Nat)
  | timer (k : Nat)
  | socketOpen (k : Nat)
  | socketClose (k : Nat)
  | resume (i : Nat) (r : Reply)
  deriving DecidableEq, Repr

namespace State

def addTask (task : Task) (st : State) : State := { st with tasks := st.tasks ++ [task] }

/-! ## `current` -/

/-- `current?.tabId && (current?.startedAt || current?.starting)` -/
def isOn (st : State) : Bool :=
  match st.current with
  | some c => c.tabId.isSome && (c.startedAt || c.starting)
  | none => false

def shouldTranslateNow (st : State) : Bool := st.wantTranslateVI && st.isOn

def setCurrentRunning (st : State) : State :=
  { st with current := st.current.map fun c => { c with starting := false, startedAt := true } }

def setCurrentStopped (st : State) : State :=
  { st with current := st.current.map fun c => { c with starting := false, startedAt := false } }

def setCurrentStarting (tab : Nat) (st : State) : State :=
  { st with
    current := some { st.current.getD ⟨none, false, false, true⟩ with
      tabId := some tab, starting := true, startedAt := false }
    installs := st.installs + 1
    session := st.installs + 1
    highest := 0 }

/-! ## The translator -/

def disconnectTranslator (hard : Bool) (st : State) : State :=
  { st with tr := st.tr.disconnect hard }

/-- `connectTranslator` up to its first `await`. -/
def connectTranslator (st : State) : State :=
  if st.shouldTranslateNow then st.addTask .connect else st

def maybeUpdateTranslator (forceStop : Bool) (st : State) : State :=
  if forceStop || !st.shouldTranslateNow then st.disconnectTranslator true
  else if st.tr.transWs.isNone then st.connectTranslator
  else st

def scheduleTranslatorReconnect (st : State) : State :=
  if st.shouldTranslateNow then { st with tr := st.tr.schedule } else st

/-- `connectTranslator` goes on. -/
def resumeConnect (r : Reply) (st : State) : State :=
  let st := st.disconnectTranslator false
  if r = .ok then { st with tr := st.tr.newSocket } else st.scheduleTranslatorReconnect

/-! ## The transcript -/

/-- A stable text has been passed on to the overlay. -/
def resumeRelay (session : Nat) (msg : StableMsg) (st : State) : State :=
  let st := { st with tr := { st.tr with lastEnStable := msg.toStable }, lastEnOf := session }
  let st :=
    if st.shouldTranslateNow && st.tr.openWs.isSome then
      { st with tr := st.tr.feed msg.toStable }
    else st
  { st with
    transcriptPersist := st.transcriptPersist.map fun (k, p) =>
      (k, p.handleStable msg.full msg.seq) }

/-! ## `stopCapture` -/

/-- `stopCapture` up to its first `await`. -/
def stopCapture (began : Nat) (after : After) (st : State) : State × Task :=
  (st.setCurrentStopped,
    match st.current.bind (·.tabId) with
    | some tab => .cleanup began (.reset tab) after
    | none => .cleanup began .removed after)

/-- `stopCapture` in a handler that begins. -/
def stopCaptureNow (after : After) (st : State) : State :=
  let (st', task) := st.stopCapture st.installs after
  st'.addTask task

/-- `transcriptPersist.stop` sets its flag; what it does then, the object does. -/
def stopPersist (st : State) : State :=
  { st with
    transcriptPersist := st.transcriptPersist.map fun (k, p) => (k, { p with stopped := true }) }

def goOnAfter (after : After) (st : State) : State × Option Task :=
  match after with
  | .done => (st, none)
  | .failure => (st.setCurrentStopped.disconnectTranslator true, none)
  | .tabClosed => ({ st.disconnectTranslator true with current := none }, none)
  | .start tab => (st, some (.start tab 0 .inject))

/-- A cleanup goes on. -/
def resumeCleanup (began : Nat) (after : After) (st : State) : StopWait → State × Option Task
  | .reset tab =>
      ({ st with overlay := st.overlay ++ [(tab, .teardown)] },
        some (.cleanup began .removed after))
  | .removed =>
      let st := st.disconnectTranslator true
      if st.transcriptPersist.isSome then (st.stopPersist, some (.cleanup began .persist after))
      else st.goOnAfter after
  | .persist => { st with transcriptPersist := none }.goOnAfter after
  | .caught =>
      let (st', task) := { st with transcriptPersist := none }.stopCapture began after
      (st', some task)

/-! ## `__PANEL_START__` -/

/-- The handler has its tab, and somebody is logged in. -/
def panelStart (tab : Nat) (st : State) : State :=
  if st.current.any fun c => c.startedAt && c.tabId ≠ some tab then st.stopCaptureNow (.start tab)
  else st.addTask (.start tab 0 .inject)

/-- The `catch` of a start. -/
def failStart (st : State) : State × Option Task :=
  if st.transcriptPersist.isSome then
    (st.stopPersist, some (.cleanup st.installs .caught .failure))
  else
    let (st', task) := st.stopCapture st.installs .failure
    (st', some task)

def installPersist (tab : Nat) (st : State) : State × Option Task :=
  ({ st with
    transcriptPersist := some (st.installs + 1, .init)
    installs := st.installs + 1 }, some (.start tab (st.installs + 1) .tab))

/-- The capture runs. -/
def captured (tab own : Nat) (st : State) : State × Option Task :=
  (st.maybeUpdateTranslator false, some (.start tab own .captured))

/-- A start goes on. -/
def resumeStart (tab own : Nat) (r : Reply) (st : State) : StartWait → State × Option Task
  | .inject =>
      if r = .ok then
        ({ st with overlay := st.overlay ++ [(tab, .inject)] }, some (.start tab own .access))
      else st.failStart
  | .access =>
      if r = .ok then
        if st.transcriptPersist.isSome then (st.stopPersist, some (.start tab own .oldPersist))
        else (st, some (.start tab own .user))
      else st.failStart
  | .oldPersist => (st, some (.start tab own .user))
  | .user => st.installPersist tab
  | .tab =>
      if r = .ok then (st.setCurrentStarting tab, some (.start tab own .streamId))
      else st.failStart
  | .streamId =>
      (st, some (.start tab own (if r = .ok then .tabAttempt else .displayAttempt)))
  | .tabAttempt =>
      if r = .ok then st.captured tab own else (st, some (.start tab own .displayAttempt))
  | .displayAttempt => if r = .ok then st.captured tab own else st.failStart
  | .captured =>
      ({ st with current := some (st.current.getD ⟨none, false, false, false⟩) },
        some (.start tab own .mode))
  | .mode => (st, none)

/-! ## The other handlers -/

/-- `__TRANSCRIPT_MODES__` after the tab has been told. -/
def afterModes (prev : Bool) (tab : Option Nat) (st : State) : State × Option Task :=
  if !prev && st.wantTranslateVI then
    match tab with
    | some _ => (st, some .modesOn)
    | none =>
        ({ st with tr := { st.tr with transNeedHardResetOnOpen := true } }.maybeUpdateTranslator
          false, none)
  else if prev && !st.wantTranslateVI then (st.maybeUpdateTranslator true, none)
  else (st, none)

def modes (vi : Bool) (st : State) : State :=
  let prev := st.wantTranslateVI
  let st := { st with wantTranslateVI := vi }
  match st.current.bind (·.tabId) with
  | some tab => st.addTask (.modes prev tab)
  | none => (st.afterModes prev none).1

/-- `__PANEL_TOGGLE__` -/
def panelToggle (tab : Nat) (st : State) : State :=
  if st.current.all fun c => c.tabId ≠ some tab || !c.panelOpen then
    st.addTask (.openPanel tab .inject)
  else st.addTask (.closePanel tab false)

/-- `openPanel` goes on. Without `current` it throws, and the handler's `catch`
stops the capture. -/
def resumeOpenPanel (tab : Nat) (r : Reply) (st : State) : PanelWait → State × Option Task
  | .inject =>
      (if r = .ok then { st with overlay := st.overlay ++ [(tab, .inject)] } else st,
        some (.openPanel tab .mode))
  | .mode =>
      ({ st with
        current := some { st.current.getD ⟨none, false, false, true⟩ with
          tabId := some tab, panelOpen := true } }, some (.openPanel tab .server))
  | .server =>
      if st.current.isSome then (st, none)
      else
        let (st', task) := st.stopCapture st.installs .failure
        (st', some task)

/-- `closePanel` goes on. -/
def resumeClosePanel (tab : Nat) (removed : Bool) (st : State) : State × Option Task :=
  if removed then
    ({ st with
      current := st.current.map fun c =>
        if c.tabId = some tab then { c with panelOpen := false } else c }, none)
  else
    ({ st with overlay := st.overlay ++ [(tab, .teardown)] }, some (.closePanel tab true))

def iconClicked (tab : Nat) (st : State) : State :=
  { st with
    current := some { st.current.getD ⟨none, false, false, false⟩ with tabId := some tab } }

def status (st : State) : OffscreenStatus → State
  | .running => st.setCurrentRunning
  | .stopped => st.setCurrentStopped
  | .failure => st.stopCaptureNow .failure
  | .other => st

/-- A stable text is dropped when nothing is captured. -/
def stable (session : Nat) (msg : StableMsg) (st : State) : State :=
  if st.isOn then
    { st with highest := max st.highest msg.toStable.seq }.addTask
      (.relay session st.highest msg)
  else st

/-! ## Steps -/

def resume (r : Reply) (st : State) : Task → State × Option Task
  | .start tab own wait => st.resumeStart tab own r wait
  | .cleanup began wait after => st.resumeCleanup began after wait
  | .relay session _ msg => (st.resumeRelay session msg, none)
  | .connect => (st.resumeConnect r, none)
  | .modes prev tab => st.afterModes prev (some tab)
  | .modesOn =>
      ({ st with tr := { st.tr with transNeedHardResetOnOpen := true } }.maybeUpdateTranslator
        false, none)
  | .openPanel tab wait => st.resumeOpenPanel tab r wait
  | .closePanel tab removed => st.resumeClosePanel tab removed

def step (st : State) : Label → Option State
  | .panelStart tab => some (st.panelStart tab)
  | .panelStop => some (st.stopCaptureNow .done)
  | .logout =>
      some (if st.current.any fun c => c.startedAt || c.starting then st.stopCaptureNow .done
        else st)
  | .tabClosed tab =>
      some (if st.current.bind (·.tabId) = some tab then st.stopCaptureNow .tabClosed else st)
  | .status s => some (st.status s)
  | .stable session msg => some (st.stable session msg)
  | .modes vi => some (st.modes vi)
  | .panelToggle tab => some (st.panelToggle tab)
  | .iconClicked tab => some (st.iconClicked tab)
  | .timer k =>
      if k ∈ st.tr.timers then
        some { st with tr := { st.tr with timers := st.tr.timers.filter (· ≠ k) } }.connectTranslator
      else none
  | .socketOpen k =>
      if (k, false) ∈ st.tr.sockets then some { st with tr := st.tr.onopen k } else none
  | .socketClose k =>
      if st.tr.sockets.any (·.1 = k) then
        some { st with
          tr := { st.tr with sockets := st.tr.sockets.filter (·.1 ≠ k) } }.scheduleTranslatorReconnect
      else none
  | .resume i r =>
      st.tasks[i]?.map fun task =>
        let (st', next) := st.resume r task
        { st' with tasks := goOn st'.tasks i next }

end State

end VTranser.ServiceWorker

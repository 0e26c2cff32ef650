import VTranser.Sentences

/-!
# The in-page panel

The panel in the page shows the transcript as rows, one for each sentence, and what it
is told by the service worker and the offscreen document. A click on the start button
asks three others before the capture begins, and what they answer comes in steps of
their own.

The panel stays open here. `sessionText`, `mark` and `base` are for the results: the
last text of the capture session, how many rows there were when it began and what the
counter was; no function of the panel reads them. The times in front of the rows and
the alerts are left out.
-/

namespace VTranser.InPage

def systemBusyText : JsStr := jsText "Hệ thống đang bận, vui lòng thử lại sau."

/-- What is under the text of a row. -/
inductive Meta
  | system
  | live
  deriving DecidableEq, Repr

structure Row where
  text : JsStr
  info : Meta
  deriving DecidableEq, Repr

/-- What a click waits for. -/
inductive Task
  /-- `isAuthed` -/
  | authAsked
  /-- `markNeedAuth`, before the alert -/
  | needMarked
  /-- `storeSet` of the settings -/
  | settingsStored
  /-- the answer to `__PANEL_START__` -/
  | startAsked
  /-- `markNeedAuth`, after the service worker said that one has to be signed in -/
  | requiredMarked (error : JsStr)
  /-- the answer to `__OVERLAY_PING__` of `mount` -/
  | pinged
  deriving DecidableEq, Repr

structure State where
  rows : List Row
  loggedSentCount : Nat
  isActive : Bool
  isStarting : Bool
  tasks : List Task
  sessionText : JsStr
  mark : Nat
  base : Nat

/-- After `mount`. -/
def State.init : State := ⟨[], 0, false, false, [.pinged], [], 0, 0⟩

/-- What a task is told. `failed` is an error of the runtime. -/
inductive Reply
  | done
  | failed
  /-- whether a profile is stored, and whether the server's address may be used -/
  | authed (ok serverOk : Bool)
  | started
  | refused (authRequired : Bool) (error : JsStr)
  | overlay (active starting : Bool)
  deriving DecidableEq, Repr

/-- The state of `__OFFSCREEN_STATUS__`. -/
inductive Status
  | starting
  | wsConnecting
  | running
  | stopped
  | serverBusy
  | serverError
  | error
  | other
  deriving DecidableEq, Repr

inductive Label
  /-- A capture session begins; the panel is not told. -/
  | session
  | mount
  | startClick
  | stopClick
  | resume (i : Nat) (reply : Reply)
  | opened (active starting : Bool)
  | notify (isError : Bool) (text : JsStr)
  | status (s : Status)
  | stable (full : JsStr)
  deriving DecidableEq, Repr

/-! ## The parts of the panel -/

def addRow (text : JsStr) (info : Meta) (st : State) : State :=
  { st with rows := st.rows ++ [⟨text, info⟩] }

def addSystem (text : JsStr) (st : State) : State := addRow text .system st

def setActive (on starting : Bool) (st : State) : State :=
  { st with isActive := on, isStarting := starting }

/-- How many sentences of a text are rows: all but the last. -/
def targetCount (full : JsStr) : Nat := (Panel.splitSentencesAndTail full).1.length - 1

/-- The sentences of a text from the `from'`-th on that are rows. -/
def newRows (from' : Nat) (full : JsStr) : List Row :=
  ((((Panel.splitSentencesAndTail full).1.take (targetCount full)).drop from').map jsTrim
    |>.filter fun s => !s.isEmpty).map fun s => ⟨s, .live⟩

/-- `onMessage` of `__TRANSCRIPT_STABLE__` -/
def onStable (full : JsStr) (st : State) : State :=
  if full.isEmpty then st
  else if st.loggedSentCount < targetCount full then
    { st with
      rows := st.rows ++ newRows st.loggedSentCount full
      loggedSentCount := targetCount full }
  else st

/-- `onMessage` of `__OFFSCREEN_STATUS__` -/
def onStatus (s : Status) (st : State) : State :=
  match s with
  | .starting | .wsConnecting => setActive false true st
  | .running => setActive true false st
  | .stopped => addSystem (jsText "⏹ Đã dừng") (setActive false false st)
  | .serverBusy | .serverError | .error =>
      addSystem (jsText "⚠️ " ++ systemBusyText) (setActive false false st)
  | .other => st

/-- `onMessage` of `__PANEL_NOTIFY__` -/
def onNotify (isError : Bool) (text : JsStr) (st : State) : State :=
  let text := if isError then systemBusyText else text
  if text.isEmpty then st else addSystem (jsText "❌ " ++ text) st

/-- A click goes on with what it is told, up to its next wait. -/
def resume (task : Task) (reply : Reply) (st : State) : State × Option Task :=
  match task, reply with
  | .authAsked, .authed true serverOk => (st, if serverOk then some .settingsStored else none)
  | .authAsked, _ => (st, some .needMarked)
  | .needMarked, _ =>
      (addSystem (jsText "🔒 Bạn cần đăng nhập để sử dụng. Hãy mở Side Panel (icon extension) " ++
        jsText "và đăng nhập.") st, none)
  | .settingsStored, _ =>
      (addSystem (jsText "Đang kết nối...") (setActive false true st), some .startAsked)
  | .startAsked, .started => (addSystem (jsText "✅ Start requested") st, none)
  | .startAsked, .refused true error =>
      (setActive false false st, some (.requiredMarked (orText error (jsText "AUTH_REQUIRED"))))
  | .startAsked, _ => (addSystem (jsText "❌ " ++ systemBusyText) (setActive false false st), none)
  | .requiredMarked error, _ => (addSystem (jsText "❌ " ++ error) st, none)
  | .pinged, .overlay active starting => (setActive active starting st, none)
  | .pinged, _ => (setActive false false st, none)

/-! ## Steps -/

/-- Within a session the texts only grow. -/
def step (st : State) : Label → Option State
  | .session =>
      some { st with sessionText := [], mark := st.rows.length, base := st.loggedSentCount }
  | .mount => some st
  | .startClick =>
      some (if st.isActive || st.isStarting then st
        else { st with tasks := st.tasks ++ [.authAsked] })
  | .stopClick =>
      some (if !st.isActive && !st.isStarting then st else addSystem (jsText "Đang dừng...") st)
  | .resume i reply =>
      st.tasks[i]?.map fun task =>
        let (st', next) := resume task reply st
        { st' with tasks := match next with
          | some task => st.tasks.set i task
          | none => st.tasks.eraseIdx i }
  | .opened active starting => some (setActive active starting st)
  | .notify isError text => some (onNotify isError text st)
  | .status s => some (onStatus s st)
  | .stable full =>
      if st.sessionText <+: full then some { onStable full st with sessionText := full } else none

end VTranser.InPage

import VTranser.Lib.Cut
import VTranser.Lib.Json
import VTranser.Text

/-!
# The answer to a chat message

An answer comes as server-sent events, in chunks that are cut where the network likes.
What has come is kept until the blank line behind an event is there. The text of an event
is looked at as JSON first, and taken as it stands if it is none.

The chunks here are texts: the decoder is in stream mode, and keeps the bytes of a
character that is not complete.
-/

namespace VTranser.Panel

open Cut

/-! ## The text of an event -/

inductive SseKind
  | delta
  | done
  | error
  | metaData
  deriving DecidableEq, Repr

structure SseOut where
  kind : SseKind
  text : JsStr
  deriving DecidableEq, Repr

/-- `toLowerCase`, as far as `done`, `end` and `error` can tell: none but `A` to `Z` have
a letter of theirs as lower case. -/
def lowerName (s : JsStr) : JsStr := s.map fun u => if 0x41 ≤ u ∧ u ≤ 0x5A then u + 0x20 else u

/-- What follows the object with a `session_id` that a text begins with, if something
does. `idxOf` is the length of the text where `indexOf` is `-1`. -/
def sessionRest (s : JsStr) : Option JsStr :=
  if s.head? = some 0x7B ∧ jsText "\"session_id\"" <:+: s then
    let close := s.idxOf 0x7D
    if 0 < close ∧ close + 1 < s.length then some (jsTrim (s.drop (close + 1))) else none
  else none

/-- The first of the keys under which an object has a text that is not empty. -/
def jsonText (v : Json.Value) : JsStr :=
  let keys := ["text", "delta", "token", "content", "answer"]
  let texts := keys.filterMap fun key =>
    match v.get? (jsText key) with
    | some (.str t) => some t
    | _ => none
  (texts.find? fun t => !t.isEmpty).getD []

/-- `extractDeltaText(eventName, dataStr)`. Whether an object without a text has a
`session_id` makes no difference: what is left to answer is `meta` in either case. -/
def extractDeltaText (eventName dataStr : JsStr) : SseOut :=
  let ev := lowerName (orText eventName (jsText "message"))
  if ev = jsText "done" ∨ ev = jsText "end" then ⟨.done, []⟩
  else if ev = jsText "error" then ⟨.error, dataStr⟩
  else
    let s := jsTrim dataStr
    match sessionRest s with
    | some rest => if rest.isEmpty then ⟨.metaData, []⟩ else ⟨.delta, rest⟩
    | none =>
        match Json.parse s with
        | some obj =>
            let t := jsonText obj
            if t.isEmpty then ⟨.metaData, []⟩ else ⟨.delta, t⟩
        | none => if s.isEmpty then ⟨.metaData, []⟩ else ⟨.delta, dataStr⟩

/-! ## Events -/

/-- `raw.split(/\r?\n/)` -/
def splitLines : JsStr → List JsStr
  | [] => [[]]
  | 0x0D :: 0x0A :: s => [] :: splitLines s
  | u :: s => if u = 0x0A then [] :: splitLines s else (splitLines s).modifyHead (u :: ·)

structure SseEvent where
  event : JsStr
  dataStr : JsStr
  deriving DecidableEq, Repr

def readLine (e : SseEvent) (line : JsStr) : SseEvent :=
  if line.isEmpty then e
  else if (jsText ":").isPrefixOf line then e
  else if (jsText "event:").isPrefixOf line then { e with event := jsTrim (line.drop 6) }
  else if (jsText "data:").isPrefixOf line then
    { e with dataStr := e.dataStr ++ (if e.dataStr.isEmpty then [] else [0x0A]) ++
        jsTrim (line.drop 5) }
  else e

def readEvent (raw : JsStr) : SseEvent := (splitLines raw).foldl readLine ⟨jsText "message", []⟩

/-- A call of `onDelta` or of `onDone`. -/
inductive SseCall
  | delta (text : JsStr)
  | done
  deriving DecidableEq, Repr

structure SseState where
  buf : JsStr
  gotAny : Bool
  calls : List SseCall
  deriving DecidableEq, Repr

/-- What is said of a `delta` with a text. -/
def SseState.deliver (s : SseState) (out : SseOut) : SseState :=
  if out.kind = .delta ∧ ¬ out.text.isEmpty then
    { s with gotAny := true, calls := s.calls ++ [.delta out.text] }
  else s

def handleEvent (s : SseState) (raw : JsStr) : SseState :=
  let e := readEvent raw
  if e.dataStr.isEmpty then s
  else
    let out := extractDeltaText e.event e.dataStr
    if out.kind = .done then { s with calls := s.calls ++ [.done] } else s.deliver out

/-- The next event that is complete, and what is behind it. -/
def nextEvent (buf : JsStr) : Option (JsStr × JsStr) :=
  (cutAt [0x0A, 0x0A] buf).or (cutAt [0x0D, 0x0A, 0x0D, 0x0A] buf)

theorem nextEvent_length {buf raw rest : JsStr} (h : nextEvent buf = some (raw, rest)) :
    rest.length < buf.length := by
  rcases Option.or_eq_some_iff.mp h with hcut | ⟨-, hcut⟩
  all_goals
    rw [cutAt_eq hcut]
    simp only [List.length_append, List.length_cons]
    omega

/-- The inner loop: every event that is complete. -/
def drain (s : SseState) : SseState :=
  match _h : nextEvent s.buf with
  | none => s
  | some (raw, rest) => drain { handleEvent s raw with buf := rest }
termination_by s.buf.length
decreasing_by exact nextEvent_length (by assumption)

/-- A text that is long and has no field of an event is taken as it stands. -/
def flush (s : SseState) : SseState :=
  if 4096 < s.buf.length ∧ ¬ jsText "data:" <:+: s.buf ∧ ¬ jsText "event:" <:+: s.buf then
    SseState.deliver { s with buf := [] } (extractDeltaText (jsText "delta") (jsTrim s.buf))
  else s

/-- A chunk that is read. -/
def readChunk (s : SseState) (chunk : JsStr) : SseState :=
  flush (drain { s with buf := s.buf ++ chunk })

/-! ## The request -/

/-- A body that is read: its chunks, and the error that ends it, if one does. -/
structure SseBody where
  chunks : List JsStr
  error : Option JsStr
  deriving DecidableEq, Repr

structure SseResponse where
  ok : Bool
  status : Nat
  body : Option SseBody
  deriving DecidableEq, Repr

inductive SseOutcome
  | returned
  | threw (message : JsStr)
  deriving DecidableEq, Repr

def SseState.init : SseState := { buf := [], gotAny := false, calls := [] }

/-- `streamSSE`, from the answer to its request on. -/
def streamSSE (res : SseResponse) : List SseCall × SseOutcome :=
  let refused := ([], .threw (jsText ("SSE HTTP " ++ toString res.status)))
  match res.ok, res.body with
  | true, some body =>
      let s := body.chunks.foldl readChunk .init
      match body.error with
      | some message => (s.calls, .threw message)
      | none =>
          if s.gotAny then (s.calls, .returned)
          else (s.calls, .threw (jsText "SSE connected but no data"))
  | _, _ => refused

/-- The texts that `onDelta` gets. -/
def deltas (calls : List SseCall) : List JsStr :=
  calls.filterMap fun
    | .delta text => some text
    | .done => none

end VTranser.Panel

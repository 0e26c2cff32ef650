import VTranser.Overlay.English
import VTranser.Translator.Handler

/-!
# The Vietnamese text of the overlay

Commits and deltas are queued as operations on the committed text and applied at
the next animation frame; a draft is kept beside it and shown only while it
prolongs it. All kinds of message pass one guard. It keeps the epoch, the
request, the English number and one number for commits and one for drafts, and
a message that falls behind in one of them goes no further; what it changed up
to there stays changed.
-/

namespace VTranser.Overlay

/-- What `viAcceptMeta` finds; a number that a message does not carry is `none`. -/
structure ViMeta where
  epoch : Option Int
  reqId : Option Int
  enSeq : Option Int
  seq : Option Int

inductive ViKind
  | op | stable | draft
  deriving DecidableEq, Repr

structure Vietnamese where
  commitText : JsStr
  draftText : JsStr
  draftEnabled : Bool
  scheduled : Bool
  ops : List Op
  lastCommitSeq : Int
  lastDraftSeq : Int
  lastEnSeq : Int
  epoch : Int
  lastReqId : Int

def Vietnamese.init : Vietnamese := ⟨[], [], false, false, [], -1, -1, -1, 0, -1⟩

/-! ## The guard -/

/-- A newer epoch is adopted, and all other numbers start again. -/
def guardEpoch (epoch : Option Int) (st : Vietnamese) : Vietnamese × Bool :=
  match epoch with
  | none => (st, true)
  | some e =>
      if e < st.epoch then (st, false)
      else if st.epoch < e then
        ({ st with
            epoch := e, lastReqId := -1, lastCommitSeq := -1, lastDraftSeq := -1,
            lastEnSeq := -1 }, true)
      else (st, true)

def guardReqId (reqId : Option Int) (st : Vietnamese) : Vietnamese × Bool :=
  match reqId with
  | none => (st, true)
  | some r => if r < st.lastReqId then (st, false) else ({ st with lastReqId := r }, true)

def guardEnSeq (enSeq : Option Int) (st : Vietnamese) : Vietnamese × Bool :=
  match enSeq with
  | none => (st, true)
  | some es => if es < st.lastEnSeq then (st, false) else ({ st with lastEnSeq := es }, true)

/-- A stable text may have the number of the last commit. -/
def guardSeq (seq : Option Int) (kind : ViKind) (st : Vietnamese) : Vietnamese × Bool :=
  match seq with
  | none => (st, true)
  | some s =>
      if kind = .draft then
        if s ≤ st.lastDraftSeq then (st, false) else ({ st with lastDraftSeq := s }, true)
      else
        let stale := if kind = .stable then s < st.lastCommitSeq else s ≤ st.lastCommitSeq
        if stale then (st, false) else ({ st with lastCommitSeq := max st.lastCommitSeq s }, true)

/-- The next check, unless one has failed. -/
def andCheck (r : Vietnamese × Bool) (check : Vietnamese → Vietnamese × Bool) :
    Vietnamese × Bool :=
  if r.2 then check r.1 else r

def viGuardAndUpdate (info : ViMeta) (kind : ViKind) (st : Vietnamese) : Vietnamese × Bool :=
  andCheck
    (andCheck (andCheck (guardEpoch info.epoch st) (guardReqId info.reqId)) (guardEnSeq info.enSeq))
    (guardSeq info.seq kind)

/-! ## Operations -/

def enqueueOpVI (delN : Int) (ins : JsStr) (info : ViMeta) (st : Vietnamese) : Vietnamese :=
  let (st, ok) := viGuardAndUpdate info .op st
  if ok then { st with ops := st.ops ++ [⟨toInt32 delN, ins⟩], scheduled := true } else st

/-- The limit test on `VI_STATE_MAX_CHARS`. -/
def boundVI (maxChars : Int) (text : JsStr) : JsStr := boundEN maxChars text

/-- A draft that does not prolong the committed text goes. -/
def dropDiverged (st : Vietnamese) : Vietnamese :=
  if st.commitText.isPrefixOf st.draftText then st else { st with draftText := [] }

def flushVI (viStateMaxChars : Int) (st : Vietnamese) : Vietnamese :=
  if st.ops.isEmpty then { st with scheduled := false }
  else
    dropDiverged { st with
      commitText := boundVI viStateMaxChars (st.ops.foldl applyOneOp st.commitText)
      ops := [], scheduled := false }

def applyStableVI (viStateMaxChars : Int) (full : JsStr) (info : ViMeta) (st : Vietnamese) :
    Vietnamese :=
  let stable := boundVI viStateMaxChars full
  let (st, ok) := viGuardAndUpdate info .stable st
  if ok then
    let st := if st.scheduled then flushVI viStateMaxChars st else st
    if stable = st.commitText then st else dropDiverged { st with commitText := stable }
  else st

def applyDraftVI (full : JsStr) (info : ViMeta) (st : Vietnamese) : Vietnamese :=
  if st.draftEnabled then
    let (st, ok) := viGuardAndUpdate info .draft st
    if ok && st.commitText.isPrefixOf full then { st with draftText := full } else st
  else st

/-- The `__TRANS_VI_RESET__` branch. -/
def resetVI (viStateMaxChars : Int) (st : Vietnamese) : Vietnamese :=
  let st := if st.scheduled then flushVI viStateMaxChars st else st
  { st with
    commitText := [], draftText := [], ops := [], lastCommitSeq := -1, lastDraftSeq := -1,
    lastEnSeq := -1, lastReqId := -1, epoch := toInt32 st.epoch + 1 }

/-- The `__TRANS_VI_CFG__` branch. -/
def configVI (draftEnabled : Bool) (st : Vietnamese) : Vietnamese :=
  { st with draftEnabled, draftText := if draftEnabled then st.draftText else [] }

/-- The branches for the messages of the translator. It sends no epoch, and
neither commits nor deltas carry a request. -/
def handleVi (msg : Translator.Out) (st : Vietnamese) : Vietnamese :=
  match msg with
  | .viCommit append seq enSeq => enqueueOpVI 0 append.toJs ⟨none, none, some enSeq, some seq⟩ st
  | .viDelta append seq enSeq => enqueueOpVI 0 append.toJs ⟨none, none, some enSeq, some seq⟩ st
  | .viDraft text seq enSeq reqId =>
      applyDraftVI text.toJs ⟨none, some reqId, enSeq, some seq⟩ st

end VTranser.Overlay

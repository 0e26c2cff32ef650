import VTranser.Sentences
import VTranser.Server.Patch

/-!
# The transcript files

The callbacks of the recognizer run on its own threads; what they have for the
transcript files is put on the queue by the event loop, later. One task takes
the items from the queue and writes: the whole text to one file, and to the feed
the sentences that are new, each a line. The last sentence of a snapshot is kept
back, for it may still change; the `final` item, which the handler puts on the
queue when a session closes, writes it and the unfinished tail as well.

The session and the current feed get the same lines and are one file here. The
queue is never full, files take what is written to them, and none of the waits
at the end of a session runs out.
-/

namespace VTranser.Server

/-- The settings of the writer, with those of the callbacks. -/
structure TxtConfig extends Config where
  txtSaveLineTs : Bool
  txtSaveMinLatestIntervalMs : Int
  txtSaveFlushTailOnEnd : Bool
  txtSaveMaxCharsLatest : Int

/-- The settings when only `TXT_SAVE_ENABLE` is configured. -/
def defaultTxt : TxtConfig where
  stabEnable := true
  patchMinIntervalMs := 66
  txtEnable := true
  txtSaveDraft := false
  txtSaveMinDraftIntervalMs := 200
  txtSaveLineTs := false
  txtSaveMinLatestIntervalMs := 150
  txtSaveFlushTailOnEnd := true
  txtSaveMaxCharsLatest := 0

/-- An item of `txt_q`. -/
inductive QueueItem
  | txt (item : TxtItem)
  | final (full : PyStr) (tMs : Int)
  | stop
  deriving DecidableEq, Repr

/-- A line of the feed, with its time when lines have one. -/
structure FeedLine where
  stamp : Option Int
  text : PyStr
  deriving DecidableEq, Repr

inductive TxtWrite
  | latest (text : PyStr)
  | feed (lines : List FeedLine)
  | draft (text : PyStr)
  deriving DecidableEq, Repr

/-- `_txt_append_lines`: the lines that are not empty. -/
def appendLines (lines : List FeedLine) : List FeedLine :=
  (lines.map fun l => { l with text := l.text.rdropWhile fun c => c = '\r' || c = '\n' }).filter
    fun l => l.stamp.isSome || !l.text.isEmpty

def TxtWrite.lines : TxtWrite → List FeedLine
  | .feed lines => appendLines lines
  | _ => []

/-- The local variables of `_txt_writer`. -/
structure TxtWriter where
  writtenSentCount : Nat
  lastLatestWriteMs : Int
  lastDraftWriteMs : Int
  lastSeenDraft : PyStr
  deriving DecidableEq, Repr

namespace TxtWriter

variable (cfg : TxtConfig)

def init : TxtWriter := ⟨0, 0, 0, []⟩

/-- The text for the `latest` file: the end of it, if it is too long. -/
def latestOut (full : PyStr) : PyStr :=
  if 0 < cfg.txtSaveMaxCharsLatest ∧ cfg.txtSaveMaxCharsLatest < full.length then
    full.drop (full.length - cfg.txtSaveMaxCharsLatest.toNat)
  else full

def line (tMs : Int) (s : PyStr) : FeedLine := ⟨if cfg.txtSaveLineTs then some tMs else none, s⟩

/-- The lines of the sentences. -/
def sentLines (tMs : Int) (sents : List PyStr) : List FeedLine :=
  ((sents.map pyStrip).filter fun s => !s.isEmpty).map (line cfg tMs)

/-- What is done for a snapshot or the final text. -/
def writeFull (isFinal : Bool) (full : PyStr) (tMs now : Int) (w : TxtWriter) :
    TxtWriter × List TxtWrite :=
  let full := normSpaces full
  if full.isEmpty then (w, [])
  else
    let doLatest := max 0 cfg.txtSaveMinLatestIntervalMs ≤ now - w.lastLatestWriteMs
    let w := if doLatest then { w with lastLatestWriteMs := now } else w
    let latest := if doLatest then [.latest (latestOut cfg full)] else []
    let (sents, tail) := splitSentencesAndTail full
    let flush := isFinal && cfg.txtSaveFlushTailOnEnd
    let target := if flush then sents.length else sents.length - 1
    let fresh := (sents.take target).drop w.writtenSentCount
    let commit := if w.writtenSentCount < target then
        (if (sentLines cfg tMs fresh).isEmpty then [] else [.feed (sentLines cfg tMs fresh)])
      else []
    let w := if w.writtenSentCount < target then { w with writtenSentCount := target } else w
    let last := if flush && !(pyStrip tail).isEmpty then [.feed [line cfg tMs (pyStrip tail)]]
      else []
    (w, latest ++ commit ++ last)

/-- What is done for a draft. -/
def writeDraft (text : PyStr) (now : Int) (w : TxtWriter) : TxtWriter × List TxtWrite :=
  if cfg.txtSaveDraft then
    let draft := normSpaces text
    if draft.isEmpty || draft = w.lastSeenDraft ||
        decide (now - w.lastDraftWriteMs < max 0 cfg.txtSaveMinDraftIntervalMs) then (w, [])
    else ({ w with lastDraftWriteMs := now, lastSeenDraft := draft }, [.draft draft])
  else (w, [])

/-- One round of the loop of `_txt_writer`, for an item that does not end it. -/
def write (now : Int) (w : TxtWriter) : QueueItem → TxtWriter × List TxtWrite
  | .txt (.stable full tMs) => writeFull cfg false full (if tMs = 0 then now else tMs) now w
  | .final full tMs => writeFull cfg true full (if tMs = 0 then now else tMs) now w
  | .txt (.draft text _) => writeDraft cfg text now w
  | .stop => (w, [])

end TxtWriter

/-! ## A session -/

/-- How far a session is: its handler reads on, has put the final item on the
queue, has put the stop item there; or the writer has stopped. -/
inductive TxtStage
  | reading | closing | stopping | stopped
  deriving DecidableEq, Repr

/-- A session: the state of its callbacks, what they asked the event loop to put
on the queue, the queue, and what the writer wrote. -/
structure TxtSession where
  st : State
  posted : List TxtItem
  queue : List QueueItem
  writer : TxtWriter
  writes : List TxtWrite
  stage : TxtStage

def TxtSession.init (stabilizer : TranscriptStabilizer) : TxtSession :=
  ⟨.init stabilizer, [], [], .init, [], .reading⟩

/-- What the feed file has got. -/
def TxtSession.feed (s : TxtSession) : List FeedLine := s.writes.flatMap TxtWrite.lines

inductive TxtEvent
  /-- The recognizer calls back with a text that may change. -/
  | update (clock : Clock) (text : PyStr)
  /-- The recognizer calls back with a stable text. -/
  | stable (clock : Clock) (text : PyStr)
  /-- The event loop puts an item on the queue for a callback. -/
  | put
  /-- The client is gone: the `finally` of the handler begins. -/
  | close (now : Int)
  /-- The feed worker and the recognizer have stopped. -/
  | stop
  /-- The writer takes an item. -/
  | write (now : Int)

namespace TxtSession

variable (cfg : TxtConfig)

/-- `stable_snapshot or last_emitted` -/
def finalText (s : TxtSession) : PyStr :=
  if s.st.stableSnapshot.isEmpty then s.st.lastEmitted else s.st.stableSnapshot

/-- The writer takes an item from the queue. -/
def take (now : Int) (s : TxtSession) : TxtSession :=
  if s.stage = .stopped then s
  else
    match s.queue with
    | [] => s
    | .stop :: queue => { s with queue := queue, stage := .stopped }
    | item :: queue =>
        let (w, writes) := s.writer.write cfg now item
        { s with queue := queue, writer := w, writes := s.writes ++ writes }

def step (s : TxtSession) : TxtEvent → TxtSession
  | .update clock text =>
      let (st, _, items) := patchFromModelText cfg.toConfig clock text s.st
      { s with st := st, posted := s.posted ++ items }
  | .stable clock text =>
      let (st, _, items) := onStableCb cfg.toConfig clock text s.st
      { s with st := st, posted := s.posted ++ items }
  | .put =>
      match s.posted with
      | [] => s
      | item :: posted => { s with posted := posted, queue := s.queue ++ [.txt item] }
  | .close now =>
      if s.stage = .reading then
        { s with
          stage := .closing
          queue := s.queue ++
            if cfg.txtEnable && !s.finalText.isEmpty then [.final s.finalText now] else [] }
      else s
  | .stop =>
      if s.stage = .closing then
        { s with stage := .stopping, queue := s.queue ++ if cfg.txtEnable then [.stop] else [] }
      else s
  | .write now => take cfg now s

def run (s : TxtSession) (es : List TxtEvent) : TxtSession := es.foldl (step cfg) s

end TxtSession

end VTranser.Server

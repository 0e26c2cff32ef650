import VTranser.Translator.Strict

/-!
# One connection of the translator

A connection is a handful of coroutines over shared state: the reader of the
socket, the commit worker, the draft worker, and a job for every tail release.
A coroutine runs undisturbed until it waits: for a message, for a queue, for
the machine translation, for a clock, or for a send to finish. So one step is
what one coroutine does between two waits, and which one goes next is the label.

A send is a call of `send_obj`, and `sent` lists the calls in their order. When a
message is written is for `send_lock` to say (`Connection`): here its sender just
waits, and `Cont` is what it does when it goes on. Whatever the translation, the
clocks and the client answer is in the label. The segmenter of the mode that is
not strict is a parameter, and so is the splitting off of late words that feeds it.

Some fields only record. `epoch` counts the resets and baselines; a segment
carries the epoch in which it was enqueued, a message also the one in which its
sender called for it; `passed` lists what strict mode enqueued, with the text it
read it from.
-/

namespace VTranser.Translator

/-- The segmenter and the helpers of the mode that is not strict. -/
structure Segmenter (σ : Type) where
  reset : σ → σ
  baseline : σ → PyStr → σ
  updateStable : σ → PyStr → Option Int → Int → σ × List PyStr × PyStr
  delayWords : PyStr → Bool → PyStr
  draftOk : PyStr → Bool

structure HandlerConfig (σ : Type) where
  seg : Segmenter σ
  strict : StrictConfig
  strictStableSentenceOnly : Bool
  sendViDeltaCompat : Bool
  enableViDraft : Bool
  lagReleaseOnDraft : Bool
  lagFlushOnForce : Bool
  lagDraftMinWords : Nat
  draftSendEveryMs : Int
  mtUnavailable : Bool

/-- The settings when nothing is configured, with a segmenter that finds nothing:
strict mode never asks it. -/
def defaultHandler : HandlerConfig Unit where
  seg := ⟨id, fun s _ => s, fun s _ _ _ => (s, [], []), fun t _ => t, fun _ => true⟩
  strict := defaultStrict
  strictStableSentenceOnly := true
  sendViDeltaCompat := true
  enableViDraft := false
  lagReleaseOnDraft := false
  lagFlushOnForce := false
  lagDraftMinWords := 2
  draftSendEveryMs := 180
  mtUnavailable := false

/-! ## State -/

/-- `StreamState`, without its counters for the log. -/
structure StreamState (σ : Type) where
  seg : σ
  viFull : PyStr
  viSeq : Nat
  viDraft : PyStr
  viDraftSeq : Nat
  lastDraftEn : PyStr
  lastDraftSendMs : Int
  lastEnSeq : Int
  enSeqLocal : Int
  draftReqId : Nat
  rawFull : PyStr
  rawEffSeq : Int
  lastRxMono : Int
  releaseToken : Nat
  pendingCommits : List (Int × PyStr)
  pendingSentence : PyStr
  pendingSentenceSeq : Int
  strict : StrictState

def StreamState.init {σ : Type} (seg : σ) : StreamState σ where
  seg := seg
  viFull := []
  viSeq := 0
  viDraft := []
  viDraftSeq := 0
  lastDraftEn := []
  lastDraftSendMs := 0
  lastEnSeq := -1
  enSeqLocal := 0
  draftReqId := 0
  rawFull := []
  rawEffSeq := -1
  lastRxMono := 0
  releaseToken := 0
  pendingCommits := []
  pendingSentence := []
  pendingSentenceSeq := -1
  strict := .init

/-- A segment in the commit queue. -/
structure Segment where
  enSeq : Int
  seg : PyStr
  epoch : Nat
  deriving DecidableEq, Repr

structure DraftItem where
  enSeq : Int
  text : PyStr
  reqId : Nat
  deriving DecidableEq, Repr

/-- A message to the client. -/
inductive Out
  | viCommit (append : PyStr) (seq : Nat) (enSeq : Int)
  | viDelta (append : PyStr) (seq : Nat) (enSeq : Int)
  | viDraft (text : PyStr) (seq : Nat) (enSeq : Option Int) (reqId : Nat)
  deriving DecidableEq, Repr

/-- A message with the epochs of its text and of the call of `send_obj`. A delta
also carries the number of the commit it accompanies. -/
structure SentOut where
  out : Out
  textEpoch : Nat
  epoch : Nat
  commitSeq : Nat
  deriving DecidableEq, Repr

/-- What a sender does when its send is over. -/
inductive Cont
  | done
  | schedule (fullNorm : PyStr) (effSeq : Int)
  | lagRest (commitSegs : List PyStr) (draftEn fullNorm : PyStr) (effSeq : Int)
      (forceRelease scheduleRelease : Bool)
  deriving DecidableEq, Repr

/-- A tail release that sleeps. -/
structure Job where
  tok : Nat
  rxMark : Int
  rawSnapshot : PyStr
  effSeq : Int
  deriving DecidableEq, Repr

inductive CommitWorker
  | idle
  | translating (batch : List Segment)
  | commitSent (append : PyStr) (seg : Segment) (seq : Nat) (rest : List (Segment × PyStr))
  | deltaSent (rest : List (Segment × PyStr))
  deriving DecidableEq, Repr

inductive DraftWorker
  | idle
  | translating (item : DraftItem)
  | sending
  deriving DecidableEq, Repr

structure Handler (σ : Type) where
  stream : StreamState σ
  commitQueue : List Segment
  draftQueue : Option DraftItem
  reader : Option Cont
  jobs : List Job
  releases : List Cont
  commitWorker : CommitWorker
  draftWorker : DraftWorker
  sent : List SentOut
  passed : List (PyStr × Released)
  epoch : Nat

def Handler.init {σ : Type} (seg : σ) : Handler σ where
  stream := .init seg
  commitQueue := []
  draftQueue := none
  reader := none
  jobs := []
  releases := []
  commitWorker := .idle
  draftWorker := .idle
  sent := []
  passed := []
  epoch := 0

/-- A message from the client, its fields found by the extraction functions. -/
inductive MsgType
  | reset | baseline | stable | patch | other
  deriving DecidableEq, Repr

structure InMsg where
  mtype : MsgType
  seq : Option Int
  full : PyStr
  delta : PyStr
  tMs : Option Int
  deriving DecidableEq, Repr

structure Clocks where
  mono : Int
  wallMs : Int
  deriving DecidableEq, Repr

section

variable {σ : Type}

/-! ## Drafts and the commit queue -/

namespace Handler

/-- The call of `send_obj`. -/
def send (out : Out) (textEpoch commitSeq : Nat) (h : Handler σ) : Handler σ :=
  { h with sent := h.sent ++ [⟨out, textEpoch, h.epoch, commitSeq⟩] }

/-- The state change of `send_draft_clear`, and whether it waits for a send. -/
def sendDraftClear (cfg : HandlerConfig σ) (enSeq : Option Int) (reqId : Nat) (h : Handler σ) :
    Handler σ × Bool :=
  if cfg.enableViDraft then
    let stream := { h.stream with viDraft := [], viDraftSeq := h.stream.viDraftSeq + 1 }
    (send (.viDraft [] stream.viDraftSeq enSeq reqId) h.epoch 0 { h with stream }, true)
  else ({ h with stream := { h.stream with viDraft := [] } }, false)

/-- `invalidate_and_clear_draft` -/
def invalidateAndClearDraft (cfg : HandlerConfig σ) (enSeq : Option Int) (h : Handler σ) :
    Handler σ × Bool :=
  let rid := h.stream.draftReqId + 1
  sendDraftClear cfg enSeq rid
    { h with
      stream := { h.stream with draftReqId := rid, lastDraftEn := [], lastDraftSendMs := 0 }
      draftQueue := none }

/-- `maxsize` of the commit queue. -/
def commitQueueSize : Nat := 64

/-- `_enqueue_commit_segment`: when the queue is full, its oldest goes. -/
def enqueueCommitSegment (cfg : HandlerConfig σ) (h : Handler σ) (item : Int × PyStr) : Handler σ :=
  if item.2.isEmpty || isPunctOnly cfg.strict.text item.2 then h
  else
    let entry : Segment := ⟨item.1, item.2, h.epoch⟩
    if h.commitQueue.length < commitQueueSize then
      { h with commitQueue := h.commitQueue ++ [entry] }
    else { h with commitQueue := h.commitQueue.tail ++ [entry] }

/-! ## The mode that is not strict -/

/-- `_lag_collect_commit` -/
def lagCollectCommit (cfg : HandlerConfig σ) (effSeq : Int) (st : StreamState σ) (seg : PyStr) :
    StreamState σ :=
  let s := normSpaces cfg.strict.text seg
  if s.isEmpty || isPunctOnly cfg.strict.text s then st
  else
    let hasPending := !st.pendingSentence.isEmpty
    let firstSeq := if hasPending && decide (0 ≤ st.pendingSentenceSeq) then st.pendingSentenceSeq
      else effSeq
    let merged := if hasPending then joinTextParts st.pendingSentence s else s
    let (sents, tail) := splitCompleteSentencesText cfg.strict.text merged
    if sents.isEmpty then
      { st with
        pendingSentence := merged
        pendingSentenceSeq := if st.pendingSentenceSeq < 0 then effSeq else st.pendingSentenceSeq }
    else
      { st with
        pendingCommits := st.pendingCommits ++ sents.zipIdx.filterMap fun (sent, i) =>
          if sent.isEmpty || isPunctOnly cfg.strict.text sent then none
          else some (if i = 0 then firstSeq else effSeq, sent)
        pendingSentence := tail
        pendingSentenceSeq := if tail.isEmpty then -1 else effSeq }

/-- `_draft_has_lookahead` -/
def draftHasLookahead (cfg : HandlerConfig σ) (text : PyStr) : Bool :=
  let d := normSpaces cfg.strict.text text
  !d.isEmpty && !(isPunctOnly cfg.strict.text d || !hasAlnum cfg.strict.text d) &&
    decide (max 1 cfg.lagDraftMinWords ≤ wordCount d)

/-- The first part of `_lag_dispatch_ready`: a forced release takes the tail. -/
def lagFlushTail (cfg : HandlerConfig σ) (effSeq : Int) (st : StreamState σ) : StreamState σ :=
  let tail := normSpaces cfg.strict.text st.pendingSentence
  let commits := if tail.isEmpty || isPunctOnly cfg.strict.text tail then st.pendingCommits
    else st.pendingCommits ++
      [(if 0 ≤ st.pendingSentenceSeq then st.pendingSentenceSeq else effSeq, tail)]
  { st with pendingCommits := commits, pendingSentence := [], pendingSentenceSeq := -1 }

/-- How many pending commits `_lag_dispatch_ready` lets go. -/
def lagReleaseCount (cfg : HandlerConfig σ) (draftEn : PyStr) (forceRelease : Bool)
    (pending : Nat) : Nat :=
  if cfg.strictStableSentenceOnly || forceRelease then pending
  else
    let count := pending - cfg.strict.sentenceLag
    if count = 0 ∧ 0 < cfg.strict.sentenceLag ∧ cfg.lagReleaseOnDraft = true ∧
        max 1 cfg.strict.sentenceLag ≤ pending ∧ draftHasLookahead cfg draftEn = true then 1
    else count

/-- `_lag_dispatch_ready` -/
def lagDispatchReady (cfg : HandlerConfig σ) (draftEn : PyStr) (effSeq : Int)
    (forceRelease : Bool) (h : Handler σ) : Handler σ :=
  let stream := if forceRelease && cfg.lagFlushOnForce then lagFlushTail cfg effSeq h.stream
    else h.stream
  let count := lagReleaseCount cfg draftEn forceRelease stream.pendingCommits.length
  (stream.pendingCommits.take count).foldl (enqueueCommitSegment cfg)
    { h with stream := { stream with pendingCommits := stream.pendingCommits.drop count } }

/-- The draft part of `_process_en_update`. -/
def offerDraft (cfg : HandlerConfig σ) (draftEn : PyStr) (effSeq wallMs : Int) (h : Handler σ) :
    Handler σ :=
  let draftEn := pyStrip draftEn
  let st := h.stream
  let since := wallMs - st.lastDraftSendMs
  let put (st : StreamState σ) (payload : PyStr) : Handler σ :=
    let rid := st.draftReqId + 1
    { h with stream := { st with draftReqId := rid }, draftQueue := some ⟨effSeq, payload, rid⟩ }
  let clearDue := !st.viDraft.isEmpty && decide (max 250 cfg.draftSendEveryMs ≤ since)
  if cfg.enableViDraft then
    if draftEn ≠ st.lastDraftEn then
      if max 0 cfg.draftSendEveryMs ≤ since then
        put { st with lastDraftEn := draftEn, lastDraftSendMs := wallMs }
          (if cfg.seg.draftOk draftEn && !isPunctOnly cfg.strict.text draftEn then draftEn else [])
      else h
    else if draftEn.isEmpty && clearDue then put { st with lastDraftSendMs := wallMs } []
    else h
  else
    let st := { st with lastDraftEn := [] }
    if clearDue then put { st with lastDraftSendMs := wallMs } [] else { h with stream := st }

/-! ## An update -/

/-- `_schedule_tail_release` -/
def scheduleTailRelease (fullNorm : PyStr) (effSeq : Int) (h : Handler σ) : Handler σ :=
  let tok := h.stream.releaseToken + 1
  { h with
    stream := { h.stream with releaseToken := tok }
    jobs := h.jobs ++ [⟨tok, h.stream.lastRxMono, fullNorm, effSeq⟩] }

/-- What a coroutine does when its send is over. -/
def resume (cfg : HandlerConfig σ) (wallMs : Int) (k : Cont) (h : Handler σ) : Handler σ :=
  match k with
  | .done => h
  | .schedule fullNorm effSeq => scheduleTailRelease fullNorm effSeq h
  | .lagRest commitSegs draftEn fullNorm effSeq forceRelease scheduleRelease =>
      let h := { h with stream := commitSegs.foldl (lagCollectCommit cfg effSeq) h.stream }
      let h := lagDispatchReady cfg draftEn effSeq forceRelease h
      let h := offerDraft cfg draftEn effSeq wallMs h
      if scheduleRelease then scheduleTailRelease fullNorm effSeq h else h

/-- Go on at once, or after the send. -/
def orWait (cfg : HandlerConfig σ) (wallMs : Int) (k : Cont) (r : Handler σ × Bool) :
    Handler σ × Option Cont :=
  if r.2 then (r.1, some k) else (resume cfg wallMs k r.1, none)

/-- The strict half of `_process_en_update` up to its first wait. -/
def strictUpdate (cfg : HandlerConfig σ) (fullNorm : PyStr) (effSeq : Int) (forceRelease : Bool)
    (h : Handler σ) : Handler σ :=
  let (strict, released) :=
    strictCollectAndDispatch cfg.strict fullNorm effSeq forceRelease h.stream.strict
  let h := { h with
    stream := { h.stream with strict }
    passed := h.passed ++ released.map fun r => (fullNorm, r) }
  (released.map fun r => (r.enSeq, r.seg)).foldl (enqueueCommitSegment cfg) h

/-- `_process_en_update` -/
def processEnUpdate (cfg : HandlerConfig σ) (fullNorm : PyStr) (effSeq : Int) (tMs : Option Int)
    (forceRelease scheduleRelease : Bool) (wallMs : Int) (h : Handler σ) :
    Handler σ × Option Cont :=
  if cfg.strictStableSentenceOnly then
    let h := strictUpdate cfg fullNorm effSeq forceRelease h
    let k := if scheduleRelease then .schedule fullNorm effSeq else .done
    if cfg.enableViDraft then
      orWait cfg wallMs k (invalidateAndClearDraft cfg (some effSeq) h)
    else (resume cfg wallMs k h, none)
  else
    let (seg, commitSegs, draftEn) :=
      cfg.seg.updateStable h.stream.seg (cfg.seg.delayWords fullNorm forceRelease) tMs wallMs
    let h := { h with stream := { h.stream with seg } }
    let k := .lagRest commitSegs draftEn fullNorm effSeq forceRelease scheduleRelease
    if commitSegs.isEmpty then (resume cfg wallMs k h, none)
    else orWait cfg wallMs k (invalidateAndClearDraft cfg (some effSeq) h)

/-! ## The reader -/

/-- `next_effective_en_seq` -/
def nextEffectiveEnSeq (seq : Option Int) (st : StreamState σ) : StreamState σ × Int :=
  match seq with
  | some s => ({ st with lastEnSeq := max st.lastEnSeq s }, s)
  | none =>
      let eff := st.enSeqLocal + 1
      ({ st with enSeqLocal := eff, lastEnSeq := max st.lastEnSeq eff }, eff)

/-- The `reset` branch. -/
def receiveReset (cfg : HandlerConfig σ) (msg : InMsg) (clocks : Clocks) (h : Handler σ) :
    Handler σ × Option Cont :=
  let stream := { StreamState.init (cfg.seg.reset h.stream.seg) with
    lastRxMono := clocks.mono, releaseToken := 1 }
  orWait cfg clocks.wallMs .done
    (invalidateAndClearDraft cfg msg.seq { h with stream, epoch := h.epoch + 1 })

/-- The `baseline` branch. -/
def receiveBaseline (cfg : HandlerConfig σ) (msg : InMsg) (clocks : Clocks) (h : Handler σ) :
    Handler σ × Option Cont :=
  let full := normSpaces cfg.strict.text msg.full
  let (stream, effSeq) := nextEffectiveEnSeq msg.seq { h.stream with rawFull := full }
  let stream := { stream with
    rawEffSeq := effSeq
    lastRxMono := clocks.mono
    seg := cfg.seg.baseline stream.seg (cfg.seg.delayWords full false)
    pendingCommits := []
    pendingSentence := []
    pendingSentenceSeq := -1
    strict := .init }
  orWait cfg clocks.wallMs (.schedule full effSeq)
    (invalidateAndClearDraft cfg (some effSeq) { h with stream, epoch := h.epoch + 1 })

/-- The text of a `stable` or `patch` message. -/
def updateText (msg : InMsg) (rawFull : PyStr) : PyStr :=
  if (pyStrip msg.full).isEmpty && !msg.delta.isEmpty then rawFull ++ msg.delta else msg.full

/-- The `stable` and `patch` branch. -/
def receiveUpdate (cfg : HandlerConfig σ) (msg : InMsg) (clocks : Clocks) (h : Handler σ) :
    Handler σ × Option Cont :=
  if msg.seq.any (· ≤ h.stream.lastEnSeq) then (h, none)
  else
    let (stream, effSeq) := nextEffectiveEnSeq msg.seq h.stream
    let full := normSpaces cfg.strict.text (updateText msg stream.rawFull)
    let stream := { stream with rawFull := full, rawEffSeq := effSeq, lastRxMono := clocks.mono }
    processEnUpdate cfg full effSeq msg.tMs false true clocks.wallMs { h with stream }

def receive (cfg : HandlerConfig σ) (msg : InMsg) (clocks : Clocks) (h : Handler σ) :
    Handler σ × Option Cont :=
  match msg.mtype with
  | .reset => receiveReset cfg msg clocks h
  | .baseline => receiveBaseline cfg msg clocks h
  | .stable | .patch => receiveUpdate cfg msg clocks h
  | .other => (h, none)

/-- A tail release that wakes up: it acts only if nothing came in between. -/
def release (cfg : HandlerConfig σ) (job : Job) (clocks : Clocks) (h : Handler σ) :
    Handler σ × Option Cont :=
  if job.tok ≠ h.stream.releaseToken ∨ h.stream.lastRxMono ≠ job.rxMark ∨
      h.stream.rawFull ≠ job.rawSnapshot then (h, none)
  else processEnUpdate cfg job.rawSnapshot job.effSeq none true false clocks.wallMs h

/-! ## The workers -/

/-- What `commit_worker` takes from the queue, and what it leaves: one segment
in strict mode, up to four otherwise. -/
def takeBatch (cfg : HandlerConfig σ) (queue : List Segment) : List Segment × List Segment :=
  let n := if cfg.strictStableSentenceOnly then 1 else 4
  (queue.take n, queue.drop n)

/-- The segments of a batch that are translated. -/
def pairs (cfg : HandlerConfig σ) (batch : List Segment) : List Segment :=
  (batch.map fun s => { s with seg := normSpaces cfg.strict.text s.seg }).filter fun s =>
    !(s.seg.isEmpty || isPunctOnly cfg.strict.text s.seg)

/-- The loop of `commit_worker` over what was translated, up to its next send. -/
def emitCommits : List (Segment × PyStr) → Handler σ → Handler σ
  | [], h => { h with commitWorker := .idle }
  | (seg, vi) :: rest, h =>
      let app := joinVi h.stream.viFull vi
      if app.isEmpty then emitCommits rest h
      else
        let seq := h.stream.viSeq + 1
        send (.viCommit app seq seg.enSeq) seg.epoch seq
          { h with
            stream := { h.stream with viFull := h.stream.viFull ++ app, viSeq := seq }
            commitWorker := .commitSent app seg seq rest }

/-- The commit worker goes on: it takes a batch, or its translation or send is over. -/
def commitTake (cfg : HandlerConfig σ) (h : Handler σ) : Handler σ :=
  let (batch, queue) := takeBatch cfg h.commitQueue
  let batch := pairs cfg batch
  { h with
    commitQueue := queue
    commitWorker := if batch.isEmpty || cfg.mtUnavailable then .idle else .translating batch }

/-- After a send of the commit worker. The delta takes the number that the state
has by then. -/
def commitResume (cfg : HandlerConfig σ) (h : Handler σ) : Handler σ :=
  match h.commitWorker with
  | .commitSent app seg seq rest =>
      if cfg.sendViDeltaCompat then
        send (.viDelta app h.stream.viSeq seg.enSeq) seg.epoch seq
          { h with commitWorker := .deltaSent rest }
      else emitCommits rest h
  | .deltaSent rest => emitCommits rest h
  | .idle | .translating _ => h

/-- `draft_worker` with an item from its queue. -/
def draftTake (cfg : HandlerConfig σ) (item : DraftItem) (h : Handler σ) : Handler σ :=
  let text := pyStrip item.text
  if item.reqId ≠ h.stream.draftReqId then h
  else if cfg.mtUnavailable || text.isEmpty || !cfg.seg.draftOk text ||
      isPunctOnly cfg.strict.text text then
    let (h, waits) := sendDraftClear cfg (some item.enSeq) item.reqId h
    { h with draftWorker := if waits then .sending else .idle }
  else { h with draftWorker := .translating { item with text } }

/-- `draft_worker` with a translation, empty if there is none worth showing. -/
def draftTranslated (cfg : HandlerConfig σ) (item : DraftItem) (vi : PyStr) (h : Handler σ) :
    Handler σ :=
  if item.reqId ≠ h.stream.draftReqId then { h with draftWorker := .idle }
  else if vi.isEmpty then
    let (h, waits) := sendDraftClear cfg (some item.enSeq) item.reqId h
    { h with draftWorker := if waits then .sending else .idle }
  else
    let stream := { h.stream with viDraft := vi, viDraftSeq := h.stream.viDraftSeq + 1 }
    send (.viDraft vi stream.viDraftSeq (some item.enSeq) item.reqId) h.epoch 0
      { h with stream, draftWorker := .sending }

/-! ## Steps -/

/-- Which coroutine goes on, and what its environment answers. -/
inductive Label
  | receive (msg : InMsg) (clocks : Clocks)
  | readerResume (wallMs : Int)
  | release (i : Nat) (clocks : Clocks)
  | releaseResume (i : Nat) (wallMs : Int)
  | commitTake
  | commitTranslated (vis : List PyStr)
  | commitFailed
  | commitResume
  | draftTake
  | draftTranslated (vi : PyStr)
  | draftFailed
  | draftResume
  deriving DecidableEq, Repr

def step (cfg : HandlerConfig σ) (h : Handler σ) : Label → Option (Handler σ)
  | .receive msg clocks =>
      match h.reader with
      | none =>
          let (h, k) := receive cfg msg clocks h
          some { h with reader := k }
      | some _ => none
  | .readerResume wallMs =>
      h.reader.map fun k => resume cfg wallMs k { h with reader := none }
  | .release i clocks =>
      h.jobs[i]?.map fun job =>
        let (h, k) := release cfg job clocks { h with jobs := h.jobs.eraseIdx i }
        { h with releases := h.releases ++ k.toList }
  | .releaseResume i wallMs =>
      h.releases[i]?.map fun k =>
        resume cfg wallMs k { h with releases := h.releases.eraseIdx i }
  | .commitTake =>
      if h.commitWorker = .idle ∧ h.commitQueue ≠ [] then some (commitTake cfg h) else none
  | .commitTranslated vis =>
      match h.commitWorker with
      | .translating batch => some (emitCommits (batch.zip vis) h)
      | _ => none
  | .commitFailed =>
      match h.commitWorker with
      | .translating _ => some { h with commitWorker := .idle }
      | _ => none
  | .commitResume =>
      match h.commitWorker with
      | .commitSent .. | .deltaSent _ => some (commitResume cfg h)
      | _ => none
  | .draftTake =>
      match h.draftWorker, h.draftQueue with
      | .idle, some item => some (draftTake cfg item { h with draftQueue := none })
      | _, _ => none
  | .draftTranslated vi =>
      match h.draftWorker with
      | .translating item => some (draftTranslated cfg item vi h)
      | _ => none
  | .draftFailed =>
      match h.draftWorker with
      | .translating _ => some { h with draftWorker := .idle }
      | _ => none
  | .draftResume =>
      match h.draftWorker with
      | .sending => some { h with draftWorker := .idle }
      | _ => none

end Handler
end

end VTranser.Translator

import VTranser.Lib.EndPatch
import VTranser.Lib.Loop
import VTranser.Translator.Delay

/-!
# The segmenter

When the translator is not in strict mode, the segmenter cuts what has come of a
text into segments and commits them: at punctuation, after a pause, when a limit
is reached, or with the beat. It keeps the text it last saw, and what of it is
not committed yet.

Clocks are in the arguments. A loop of the source runs on fuel, and what it makes
of a text has no value when the fuel was not enough. The counters and the texts
for the log are left out, and so is when the punctuation gate was reset: the gate
does not look at it before it sets it.
-/

namespace VTranser.Translator

open EndPatch Loop

/-- The settings of the segmenter. `maxChars45` and `maxChars55` are these parts
in a hundred of `maxChars`, `truncLen` is what a text is cut down to by
`AUTO_BASELINE_TRUNC_RATIO`; the source computes them in floating point. -/
structure SegConfig where
  text : TextConfig
  lower : PyStr → PyStr
  pauseMs : Int
  beatMs : Int
  minWords : Nat
  maxWords : Nat
  maxChars : Nat
  maxChars45 : Nat
  maxChars55 : Nat
  draftMaxChars : Nat
  enableBeatCommit : Bool
  beatStableCount : Nat
  beatCommitMinWords : Nat
  beatCommitMinChars : Nat
  stableOverlapMaxChars : Nat
  stableOverlapMinChars : Nat
  hardRewriteTailChars : Nat
  punctStableCount : Nat
  punctMaxWaitMs : Int
  autoBaselineOnTrunc : Bool
  truncLen : Nat → Nat
  autoBaselineMinOldLen : Nat
  autoBaselineOnEllipsis : Bool
  reanchorEnable : Bool
  reanchorMinCommitted : Nat
  reanchorMaxTailChars : Nat
  reanchorMinTailChars : Nat
  reanchorAdvanceMax : Nat

/-- The settings when nothing is configured, with the letters of English. -/
def defaultSeg : SegConfig where
  text := ⟨Char.isAlphanum, false⟩
  lower := lower
  pauseMs := 520
  beatMs := 420
  minWords := 3
  maxWords := 12
  maxChars := 140
  maxChars45 := 63
  maxChars55 := 77
  draftMaxChars := 140
  enableBeatCommit := true
  beatStableCount := 2
  beatCommitMinWords := 5
  beatCommitMinChars := 20
  stableOverlapMaxChars := 220
  stableOverlapMinChars := 10
  hardRewriteTailChars := 220
  punctStableCount := 1
  punctMaxWaitMs := 520
  autoBaselineOnTrunc := true
  truncLen n := n * 65 / 100
  autoBaselineMinOldLen := 180
  autoBaselineOnEllipsis := true
  reanchorEnable := true
  reanchorMinCommitted := 60
  reanchorMaxTailChars := 160
  reanchorMinTailChars := 40
  reanchorAdvanceMax := 64

/-! ## Places in a text -/

def isSpace (c : Char) : Bool := onChar pySpace c

/-- `_PUNCT_CHARS` -/
def punctChars : List Char := ['.', ',', '!', '?', '…', ';', ':']

/-- `_first_punct_boundary` -/
def firstPunctBoundary (s : PyStr) : Option Nat :=
  (s.findIdx? (punctEnd.contains ·)).map fun i =>
    i + 1 + ((s.drop (i + 1)).takeWhile isSpace).length

/-- The longest end of `old`, of at most `maxChars`, that `new` begins with:
`_suffix_prefix_overlap` -/
def suffixPrefixOverlap (old new : PyStr) (maxChars : Nat) : Nat :=
  let maxK := min maxChars (min old.length new.length)
  (((List.range maxK).reverse.map (· + 1)).find? fun k =>
    old.drop (old.length - k) = new.take k).getD 0

/-- `_last_space_before` -/
def lastSpaceBefore (s : PyStr) (idx : Nat) : Option Nat :=
  (List.range (min idx s.length)).reverse.find? fun i => (s[i]?).any isSpace

/-- `_next_space_after` -/
def nextSpaceAfter (s : PyStr) (idx maxForward : Nat) : Option Nat :=
  (((s.drop idx).take (maxForward + 1)).findIdx? isSpace).map (idx + ·)

/-- `_cut_rel_by_words` -/
def cutRelByWords (s : PyStr) (maxWords : Nat) : Option Nat :=
  if maxWords = 0 then none
  else if (spans s).length ≤ maxWords then some s.length
  else ((spans s)[maxWords - 1]?).map (·.2)

/-- `_cut_rel_by_chars`, always called with `SEG_MAX_CHARS`. -/
def cutRelByChars (cfg : SegConfig) (s : PyStr) : Option Nat :=
  if cfg.maxChars = 0 then none
  else if s.length ≤ cfg.maxChars then some s.length
  else
    match (lastSpaceBefore s cfg.maxChars).filter (max 6 cfg.maxChars55 ≤ ·) with
    | some b => some b
    | none =>
        match nextSpaceAfter s cfg.maxChars 32 with
        | some f => some f
        | none => some cfg.maxChars

/-- The nearer of the two cuts; one that is not there is the end of the text. -/
def cutByLimits (cfg : SegConfig) (s : PyStr) : Nat :=
  let orEnd (cut : Option Nat) : Nat := (cut.filter (0 < ·)).getD s.length
  min (orEnd (cutRelByWords s cfg.maxWords)) (orEnd (cutRelByChars cfg s))

/-- A cut inside a word moves to a blank before or after it. -/
def offWord (cfg : SegConfig) (s : PyStr) (cut : Nat) : Nat :=
  if cut < s.length && 0 < cut && (s[cut]?).any (!isSpace ·) && (s[cut - 1]?).any (!isSpace ·) then
    match (lastSpaceBefore s cut).filter (max 6 cfg.maxChars45 ≤ ·) with
    | some b => b
    | none => (nextSpaceAfter s cut 24).getD cut
  else cut

/-- `_safe_prefix_by_limits`, with the limits of the segments. -/
def safePrefixByLimits (cfg : SegConfig) (buf : PyStr) : PyStr :=
  let t := lstrip buf
  if t.isEmpty then []
  else
    let cut := cutByLimits cfg t
    let cut := if cut = 0 then (if 0 < cfg.maxChars then min t.length cfg.maxChars else t.length)
      else cut
    pyStrip (t.take (offWord cfg t cut))

/-- `_safe_draft_text` -/
def safeDraftText (buf : PyStr) (maxChars : Nat) : PyStr :=
  let endsSafely (b : PyStr) : Bool := b.getLast?.any fun c => isSpace c || punctChars.contains c
  let toSpace (b : PyStr) : PyStr :=
    match (lastSpaceBefore b b.length).filter (0 < ·) with
    | some cut => pyStrip (b.take cut)
    | none => []
  let b := pyStrip buf
  let b :=
    if maxChars < b.length then
      let b := rstrip (b.take maxChars)
      if !b.isEmpty && !endsSafely b then toSpace b else b
    else b
  if b.isEmpty then [] else if endsSafely b then pyStrip b else toSpace b

/-- `_advance_to_boundary` -/
def advanceToBoundary (cfg : SegConfig) (s : PyStr) (idx : Nat) : Nat :=
  if s.isEmpty then idx
  else
    let idx := min idx s.length
    if idx = 0 || idx = s.length then idx
    else if (s[idx - 1]?).any cfg.text.isalnum && (s[idx]?).any cfg.text.isalnum then
      match ((s.drop idx).take cfg.reanchorAdvanceMax).findIdx? fun c =>
          isSpace c || punctChars.contains c with
      | some k =>
          let j := idx + k + 1
          j + ((s.drop j).takeWhile isSpace).length
      | none => idx
    else idx

/-! ## State -/

/-- The fields of `Segmenter`, without what only counts for the log. -/
structure SegState where
  baseFull : PyStr
  buf : PyStr
  bufStart : Nat
  lastRxMono : Int
  lastEmitMono : Int
  lastRxTms : Option Int
  lastEmitTms : Option Int
  lastSafeForGate : PyStr
  safeSameCnt : Nat
  punctGateText : PyStr
  punctGateCnt : Nat
  punctGateSince : Int
  deriving DecidableEq, Repr

def SegState.init (now : Int) : SegState :=
  ⟨[], [], 0, now, now, none, none, [], 0, [], 0, now⟩

/-- How long ago something was, by the times of the texts where both have one. -/
def msSince (tMs lastTms : Option Int) (now last : Int) : Int :=
  match tMs, lastTms with
  | some t, some tLast => t - tLast
  | _, _ => now - last

namespace SegState

/-- `_set_buf_from_full` -/
def setBufFromFull (full : PyStr) (start : Nat) (s : SegState) : SegState :=
  let start := min start full.length
  let sub := full.drop start
  let buf := lstrip sub
  { s with bufStart := min (start + (sub.length - buf.length)) full.length, buf }

/-- `_set_tail_window_from_full` -/
def setTailWindowFromFull (cfg : SegConfig) (full : PyStr) (minStart : Nat) (s : SegState) :
    SegState :=
  let n := full.length
  let start := if cfg.hardRewriteTailChars = 0 || n ≤ cfg.hardRewriteTailChars then 0
    else n - cfg.hardRewriteTailChars
  s.setBufFromFull full (advanceToBoundary cfg full (max start minStart))

/-- `_append_to_buf` -/
def appendToBuf (delta : PyStr) (s : SegState) : SegState :=
  if delta.isEmpty then s
  else if s.buf.isEmpty then
    let d := lstrip delta
    { s with bufStart := s.bufStart + (delta.length - d.length), buf := d }
  else { s with buf := s.buf ++ delta }

def resetSafe (s : SegState) : SegState := { s with lastSafeForGate := [], safeSameCnt := 0 }

/-- `_reset_punct_gate` -/
def resetPunctGate (s : SegState) : SegState := { s with punctGateText := [], punctGateCnt := 0 }

/-- The buffer is empty, and all of the text is behind it. -/
def exhaust (s : SegState) : SegState := { s with buf := [], bufStart := s.baseFull.length }

/-- `_split_at_cut`: what is cut off; the rest stays in the buffer. -/
def splitAtCut (cut : Nat) (s : SegState) : PyStr × SegState :=
  let cut := min cut s.buf.length
  let tail := s.buf.drop cut
  let tail2 := lstrip tail
  (pyStrip (s.buf.take cut),
    { s with buf := tail2, bufStart := s.bufStart + (cut + (tail.length - tail2.length)) })

/-- `last_emit_mono` and `last_emit_tms` -/
def emit (now : Int) (tMs : Option Int) (s : SegState) : SegState :=
  { s with lastEmitMono := now, lastEmitTms := tMs.or s.lastEmitTms }

/-- `_punct_gate_allow` -/
def punctGateAllow (cfg : SegConfig) (head : PyStr) (now : Int) (s : SegState) : Bool × SegState :=
  if cfg.punctStableCount ≤ 1 then (true, s)
  else
    let s :=
      if head = s.punctGateText && !head.isEmpty then { s with punctGateCnt := s.punctGateCnt + 1 }
      else { s with punctGateText := head, punctGateCnt := 1, punctGateSince := now }
    (cfg.punctStableCount ≤ s.punctGateCnt || max 0 cfg.punctMaxWaitMs ≤ now - s.punctGateSince, s)

end SegState

/-! ## Segments -/

/-- `_LEADING_PUNCT_NOISE`: `[\s\.,;:!?…]` -/
def isNoise (c : Char) : Bool := isSpace c || punctChars.contains c

/-- `_strip_leading_noise` -/
def stripLeadingNoise (s : PyStr) : PyStr := pyStrip ((pyStrip s).dropWhile isNoise)

/-- Where the next chunk of a text ends that is too long. -/
def chunkCut (cfg : SegConfig) (allowShort : Bool) (cur : PyStr) : Nat :=
  let cut := max 1 (min (cutByLimits cfg cur) cur.length)
  let need := max 1 cfg.minWords
  if !allowShort && wordCount (cur.take cut) < need then
    match (cutRelByWords cur need).filter fun c =>
        0 < c && c ≤ cur.length && c ≤ cfg.maxChars with
    | some cutNeed => max cut cutNeed
    | none => cut
  else cut

/-- A round of the loop of `_chunk_by_limits`; the state is what has come out and
what is left. -/
def chunkRound (cfg : SegConfig) (allowShort : Bool) :
    List PyStr × PyStr → Option (Round (List PyStr × PyStr))
  | (out, cur) =>
      if cur.isEmpty then some (.done (out, cur))
      else
        let cur := stripLeadingNoise cur
        if wordCount cur = 0 then some (.done (out, cur))
        else if wordCount cur ≤ cfg.maxWords && cur.length ≤ cfg.maxChars then
          some (.done (out ++ [pyStrip cur], cur))
        else
          let cut := chunkCut cfg allowShort cur
          let head := stripLeadingNoise (cur.take cut)
          let tail := pyStrip (cur.drop cut)
          let least := if allowShort then 1 else max 1 cfg.minWords
          let out :=
            if !head.isEmpty && !isPunctOnly cfg.text head && least ≤ wordCount head then
              out ++ [head]
            else out
          if tail.isEmpty || tail = cur then some (.done (out, tail))
          else some (.again (out, tail))

/-- `_chunk_by_limits` -/
def chunkByLimits (cfg : SegConfig) (text : PyStr) (allowShort : Bool) : Option (List PyStr) :=
  let t := stripLeadingNoise (normSpaces cfg.text text)
  if t.isEmpty || isPunctOnly cfg.text t then some []
  else
    (loop (chunkRound cfg allowShort) (t.length + 1) ([], t)).map fun r =>
      r.1.filter fun x => !x.isEmpty && !isPunctOnly cfg.text x

/-- `_cut_index_for_buf_limits` -/
def cutIndexForBufLimits (cfg : SegConfig) (buf : PyStr) : Option Nat :=
  let t := lstrip buf
  if t.isEmpty then none
  else if wordCount t ≤ cfg.maxWords && t.length ≤ cfg.maxChars then some buf.length
  else
    let cutRel := max 1 (min (cutByLimits cfg t) t.length)
    some (buf.length - t.length + offWord cfg t cutRel)

/-! ## A text that does not begin with the last -/

/-- `_auto_baseline_should_trigger` -/
def autoBaselineShouldTrigger (cfg : SegConfig) (old new : PyStr) : Bool :=
  if old.isEmpty || new.isEmpty then false
  else if cfg.autoBaselineOnEllipsis && (new.contains '…' || "...".toList.isSuffixOf new) then true
  else cfg.autoBaselineOnTrunc && cfg.autoBaselineMinOldLen ≤ old.length &&
    new.length < cfg.truncLen old.length

/-- `_word_spans_clean`: the words and where they end. -/
def wordSpansClean (cfg : SegConfig) (text : PyStr) : List (PyStr × Nat) :=
  ((spans text).map fun span => (cfg.lower (stripAll (slice text span)), span.2)).filter
    fun w => !w.1.isEmpty

/-- The last place where `t` occurs in `s`: `str.rfind` -/
def rfind (s t : PyStr) : Option Nat :=
  (List.range (s.length + 1)).reverse.find? fun i => t.isPrefixOf (s.drop i)

/-- `s[-k:]` -/
def lastOf {α : Type} (s : List α) (k : Nat) : List α :=
  if k = 0 then s else s.drop (s.length - k)

/-- The lengths of tail that `_reanchor_by_committed_tail` tries. -/
def candLens (cfg : SegConfig) (committedOld : PyStr) : List Nat :=
  let maxTail := min cfg.reanchorMaxTailChars (min committedOld.length cfg.stableOverlapMaxChars)
  let minTail := min cfg.reanchorMinTailChars maxTail
  (([maxTail, 140, 120, 100, 80, 60, 50, 40].map (min maxTail)).filter (minTail ≤ ·)).eraseDups

/-- `_reanchor_by_committed_tail`; only the end of what was found is used. -/
def reanchorByCommittedTail (cfg : SegConfig) (committedOld newFull : PyStr) : Option Nat :=
  let committedOld := pyStrip committedOld
  let newFull := pyStrip newFull
  if !cfg.reanchorEnable || committedOld.length < cfg.reanchorMinCommitted ||
      newFull.length < cfg.reanchorMinTailChars then none
  else
    let exactly := (candLens cfg committedOld).findSome? fun k =>
      (rfind newFull (lastOf committedOld k)).map fun pos =>
        advanceToBoundary cfg newFull (pos + (lastOf committedOld k).length)
    let old := wordSpansClean cfg committedOld
    let new := wordSpansClean cfg newFull
    let byWords := [16, 14, 12, 10, 8, 7, 6].findSome? fun n =>
      if old.length < n || new.length < n then none
      else
        ((List.range (new.length - n + 1)).reverse.find? fun i =>
            ((new.drop i).take n).map (·.1) = (lastOf old n).map (·.1)).bind fun i =>
          (new[i + n - 1]?).map fun w => advanceToBoundary cfg newFull w.2
    exactly.or byWords

/-- A rolling window: the text begins with the end of what was seen before. -/
def rollingStart (cfg : SegConfig) (old full : PyStr) : Option Nat :=
  let ov := suffixPrefixOverlap old full cfg.stableOverlapMaxChars
  let last := if ov = 0 then full.getLast? else full[ov - 1]?
  if cfg.stableOverlapMinChars ≤ ov && last.any fun c => isSpace c || punctChars.contains c then
    some ov
  else none

namespace SegState

/-- The branches of `update_stable` for a text that does not begin with the last. -/
def rewrite (cfg : SegConfig) (full : PyStr) (s : SegState) : SegState :=
  let old := s.baseFull
  let bsOld := min s.bufStart old.length
  let s := { s with baseFull := full }
  let window := s.setTailWindowFromFull cfg full bsOld
  if autoBaselineShouldTrigger cfg old full then window.resetSafe.resetPunctGate
  else if s.bufStart ≤ lcpLen old full then (s.setBufFromFull full s.bufStart).resetPunctGate
  else
    match reanchorByCommittedTail cfg (old.take bsOld) full with
    | some newBs =>
        (s.setBufFromFull full
          (advanceToBoundary cfg full (max newBs bsOld))).resetSafe.resetPunctGate
    | none =>
        match (rollingStart cfg old full).or (rollingStart cfg (old.take bsOld) full) with
        | some ov =>
            (s.setBufFromFull full (advanceToBoundary cfg full (max ov bsOld))).resetPunctGate
        | none => window.resetPunctGate

/-- How a text takes the place of the last. -/
def receive (cfg : SegConfig) (full : PyStr) (s : SegState) : SegState :=
  if s.baseFull.isEmpty then { s with baseFull := full }.setBufFromFull full 0
  else if s.baseFull.isPrefixOf full then
    { s with baseFull := full }.appendToBuf (full.drop s.baseFull.length)
  else s.rewrite cfg full

/-! ## Commits -/

/-- A round of the punctuation flush; the state is what is committed, and the segmenter. -/
def punctRound (cfg : SegConfig) (now : Int) (tMs : Option Int) :
    List PyStr × SegState → Option (Round (List PyStr × SegState))
  | (commit, s) =>
      match firstPunctBoundary s.buf with
      | none => some (.done (commit, s))
      | some pidx =>
          let head := stripLeadingNoise (pyStrip (s.buf.take pidx))
          let gate := if head.isEmpty then (true, s) else s.punctGateAllow cfg head now
          if !gate.1 then some (.done (commit, gate.2))
          else
            let chunks :=
              if head.isEmpty || isPunctOnly cfg.text head then some []
              else chunkByLimits cfg head true
            chunks.map fun chunks =>
              let s := ((gate.2.splitAtCut pidx).2.emit now tMs).resetPunctGate
              if (pyStrip s.buf).isEmpty then .done (commit ++ chunks, s.exhaust)
              else .again (commit ++ chunks, s)

/-- The punctuation flush. -/
def punctFlush (cfg : SegConfig) (now : Int) (tMs : Option Int) (s : SegState) :
    Option (List PyStr × SegState) :=
  loop (punctRound cfg now tMs) (s.buf.length + 1) ([], s)

/-- The pause flush. -/
def pauseFlush (cfg : SegConfig) (now : Int) (tMs : Option Int) (gapMs : Int) (s : SegState) :
    Option (List PyStr × SegState) :=
  if cfg.pauseMs ≤ gapMs && max 1 cfg.minWords ≤ wordCount s.buf then
    match (cutIndexForBufLimits cfg s.buf).filter (0 < ·) with
    | none => some ([], s)
    | some cut =>
        let head := stripLeadingNoise (s.splitAtCut cut).1
        if !head.isEmpty && !isPunctOnly cfg.text head && max 1 cfg.minWords ≤ wordCount head then
          (chunkByLimits cfg head false).map fun chunks =>
            if chunks.isEmpty then ([], s) else (chunks, (s.splitAtCut cut).2.emit now tMs)
        else some ([], s)
  else some ([], s)

/-- A round of the flush at the limits. -/
def maxRound (cfg : SegConfig) (now : Int) (tMs : Option Int) :
    List PyStr × SegState → Option (Round (List PyStr × SegState))
  | (commit, s) =>
      if wordCount s.buf = 0 then some (.done (commit, s.exhaust))
      else if wordCount s.buf < cfg.maxWords && (pyStrip s.buf).length < cfg.maxChars then
        some (.done (commit, s))
      else
        match (cutIndexForBufLimits cfg s.buf).filter (0 < ·) with
        | none => some (.done (commit, s))
        | some cut =>
            let head := stripLeadingNoise (s.splitAtCut cut).1
            let chunks :=
              if !head.isEmpty && !isPunctOnly cfg.text head then chunkByLimits cfg head true
              else some []
            chunks.map fun chunks =>
              let s := (s.splitAtCut cut).2.emit now tMs
              if s.buf.isEmpty then .done (commit ++ chunks, s) else .again (commit ++ chunks, s)

/-- The flush at the limits. -/
def maxFlush (cfg : SegConfig) (now : Int) (tMs : Option Int) (s : SegState) :
    Option (List PyStr × SegState) :=
  loop (maxRound cfg now tMs) (s.buf.length + 1) ([], s)

/-- How often the safe prefix has now been the same. -/
def countSafe (safe : PyStr) (s : SegState) : SegState :=
  if !safe.isEmpty && safe = s.lastSafeForGate then { s with safeSameCnt := s.safeSameCnt + 1 }
  else { s with lastSafeForGate := safe, safeSameCnt := if safe.isEmpty then 0 else 1 }

/-- The commit with the beat. -/
def beatCommit (cfg : SegConfig) (now : Int) (tMs : Option Int) (s : SegState) :
    Option (List PyStr × SegState) :=
  if !cfg.enableBeatCommit then some ([], s)
  else
    let sinceEmitMs := msSince tMs s.lastEmitTms now s.lastEmitMono
    let safe := stripLeadingNoise (safePrefixByLimits cfg s.buf)
    let s := s.countSafe safe
    if cfg.beatMs ≤ sinceEmitMs && max 1 cfg.beatStableCount ≤ s.safeSameCnt && !safe.isEmpty &&
        !isPunctOnly cfg.text safe && max 1 cfg.beatCommitMinWords ≤ wordCount safe &&
        max 1 cfg.beatCommitMinChars ≤ safe.length && safe.isPrefixOf (lstrip s.buf) then
      let cut := s.buf.length - (lstrip s.buf).length + safe.length
      (chunkByLimits cfg (stripLeadingNoise (s.splitAtCut cut).1) true).map fun chunks =>
        if chunks.isEmpty then ([], s.resetSafe)
        else (chunks, ((s.splitAtCut cut).2.emit now tMs).resetSafe)
    else some ([], s)

/-- The flushes of `update_stable`, one after the other: the commits and the draft. -/
def flush (cfg : SegConfig) (tMs : Option Int) (now gapMs : Int) (s : SegState) :
    Option (SegState × List PyStr × PyStr) := do
  let (commit₁, s) ← s.punctFlush cfg now tMs
  if wordCount s.buf = 0 then some ({ s with buf := [] }.resetSafe, commit₁, [])
  else
    let (commit₂, s) ← s.pauseFlush cfg now tMs gapMs
    if wordCount s.buf = 0 then some (s.exhaust.resetSafe, commit₁ ++ commit₂, [])
    else
      let (commit₃, s) ← s.maxFlush cfg now tMs
      if wordCount s.buf = 0 then some (s.exhaust.resetSafe, commit₁ ++ commit₂ ++ commit₃, [])
      else
        let (commit₄, s) ← s.beatCommit cfg now tMs
        let draft := stripLeadingNoise (safeDraftText s.buf cfg.draftMaxChars)
        some (s, commit₁ ++ commit₂ ++ commit₃ ++ commit₄,
          if isPunctOnly cfg.text draft then [] else draft)

/-- `update_stable`: the commits and the draft. -/
def updateStable (cfg : SegConfig) (full : PyStr) (tMs : Option Int) (now : Int) (s : SegState) :
    Option (SegState × List PyStr × PyStr) :=
  let full := normSpaces cfg.text full
  let gapMs := msSince tMs s.lastRxTms now s.lastRxMono
  let s := { s with lastRxMono := now, lastRxTms := tMs.or s.lastRxTms }.receive cfg full
  if (pyStrip s.buf).isEmpty then some (s.exhaust.resetSafe.resetPunctGate, [], [])
  else s.flush cfg tMs now gapMs

/-- `reset` -/
def reset (now : Int) : SegState := .init now

/-- `baseline` -/
def baseline (cfg : SegConfig) (full : PyStr) (now : Int) : SegState :=
  let full := normSpaces cfg.text full
  { SegState.init now with baseFull := full, buf := [], bufStart := full.length }

end SegState

end VTranser.Translator

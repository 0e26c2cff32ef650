import VTranser.Translator.Handler
import VTranser.Translator.Segmenter

/-!
# Drafts with the segmenter of the source

Which drafts are worth translating, and the handler of the mode that is not strict with the
segmenter and the held-back words of the source plugged in.

The handler tells the segmenter of a reset or a baseline without a clock, so these take the
clock of the last text here.
-/

namespace VTranser.Translator

/-- `_ELLIPSIS_END.search(s)` of a stripped text -/
def ellipsisEnd (s : PyStr) : Bool := ['.', '.', '.'].isSuffixOf s || ['…'].isSuffixOf s

/-- `_draft_ok_for_translate` -/
def draftOkForTranslate (cfg : DelayConfig) (draftMinWords : Nat) (s : PyStr) : Bool :=
  let s := pyStrip s
  match s.getLast? with
  | none => false
  | some endCh =>
      let wc := wordCount s
      if wc = 0 then false
      else if ellipsisEnd s then decide (max 1 draftMinWords ≤ wc)
      else if !punctEnd.contains endCh && draftTrailStopwords.contains (tailLastLexeme cfg s) then
        false
      else
        decide (max 1 draftMinWords ≤ wc) ||
          (decide (2 ≤ wc) && decide (8 ≤ s.length) && punctEnd.contains endCh)

/-- `Segmenter` and the functions around it, with nothing configured. -/
def sourceSegmenter : Segmenter SegState where
  reset s := .reset s.lastRxMono
  baseline s full := .baseline defaultSeg full s.lastRxMono
  updateStable s full tMs now := (s.updateStable defaultSeg full tMs now).getD (s, [], [])
  delayWords := applyDelayWords defaultDelay
  draftOk := draftOkForTranslate defaultDelay 3

/-- `STRICT_STABLE_SENTENCE_ONLY` off and `ENABLE_VI_DRAFT` on, nothing else configured. -/
def draftHandler : HandlerConfig SegState where
  seg := sourceSegmenter
  strict := defaultStrict
  strictStableSentenceOnly := false
  sendViDeltaCompat := true
  enableViDraft := true
  lagReleaseOnDraft := false
  lagFlushOnForce := false
  lagDraftMinWords := 2
  draftSendEveryMs := 180
  mtUnavailable := false

end VTranser.Translator

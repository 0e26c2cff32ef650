import Mathlib.Data.List.SplitBy
import Mathlib.Algebra.Order.Field.Rat
import VTranser.Lib.Loop
import VTranser.Sentences

/-!
# Subtitle lines

A text is laid out in lines no wider than the inside of a bubble. Its sentences and
its tail wait in a queue; a line takes from the front what fits, at most so many
sentences, and what is left of the last one goes back to the front. Where not even a
part of a sentence fits, the line gets its first code unit.

Widths are measured by the browser: of the measure, only what any has is known.
-/

namespace VTranser.Overlay

/-- A measure of texts: nothing has no width, and more text has no less. -/
structure TextWidth where
  px : JsStr → ℚ
  px_nil : px [] = 0
  px_append : ∀ s t, px s ≤ px (s ++ t)

/-- What a text is laid out in: the inner width of the bubble, the measure, and the
test `used < MAX_SENTENCES_PER_LINE`, which is for any number the user has set. -/
structure LineBox where
  maxPx : ℚ
  width : TextWidth
  below : Nat → Bool
  maxPx_nonneg : 0 ≤ maxPx

/-- `innerMaxPx` -/
def innerMaxPx (frameW padL padR : ℚ) : ℚ := max 0 (frameW - padL - padR)

/-- The inside of a bubble. -/
def LineBox.ofBubble (frameW padL padR : ℚ) (width : TextWidth) (below : Nat → Bool) :
    LineBox where
  maxPx := innerMaxPx frameW padL padR
  width := width
  below := below
  maxPx_nonneg := le_max_left _ _

/-- `split(/(\s+)/)`: words and blanks in turn. The empty ones, which the loop passes
over and `join` does not see, are not among them. -/
def layoutTokens (s : JsStr) : List JsStr :=
  s.splitBy fun u v => onUnit jsSpace u == onUnit jsSpace v

/-- The search for the longest part of a token that fits; `hi` is one more than in the
source. -/
def bestPrefix (width : TextWidth) (remPx : ℚ) (tok : JsStr) (lo hi best : Nat) : Nat :=
  if h : lo < hi then
    let mid := (lo + (hi - 1)) / 2
    let cand := tok.take mid
    if cand.isEmpty then bestPrefix width remPx tok (mid + 1) hi best
    else if width.px cand ≤ remPx then bestPrefix width remPx tok (mid + 1) hi mid
    else bestPrefix width remPx tok lo mid best
  else best
termination_by hi - lo

/-- The loop of `fitPrefixByWidth` over the tokens. -/
def fitLoop (width : TextWidth) (remPx : ℚ) : JsStr → List JsStr → JsStr × JsStr
  | fit, [] => (fit, [])
  | fit, tok :: tokens =>
      if width.px (fit ++ tok) ≤ remPx then fitLoop width remPx (fit ++ tok) tokens
      else if fit.isEmpty then
        let best := bestPrefix width remPx tok 0 (tok.length + 1) 0
        (tok.take best, tok.drop best ++ tokens.flatten)
      else (fit, tok ++ tokens.flatten)

/-- `fitPrefixByWidth`: the part of a sentence that fits, and the rest. -/
def fitPrefixByWidth (width : TextWidth) (sentence : JsStr) (remPx : ℚ) : JsStr × JsStr :=
  if remPx ≤ 0 then ([], sentence) else fitLoop width remPx [] (layoutTokens sentence)

/-- `if (rest) queue.unshift(rest)` -/
def unshift (rest : JsStr) (queue : List JsStr) : List JsStr :=
  if rest.isEmpty then queue else rest :: queue

/-- The lines that are done, and what is still to be laid out. -/
structure Layout where
  queue : List JsStr
  lines : List JsStr
  deriving DecidableEq, Repr

namespace LineBox

variable (box : LineBox)

/-- The inner loop: the line, and what is left in the queue. -/
def fillLine (line : JsStr) (used guard : Nat) : List JsStr → JsStr × List JsStr
  | [] => (line, [])
  | sentence :: queue =>
      if box.below used && guard < 10000 then
        if box.width.px (line ++ sentence) ≤ box.maxPx then
          fillLine (line ++ sentence) (used + 1) (guard + 1) queue
        else
          let remPx := box.maxPx - box.width.px line
          if remPx ≤ 0 then (line, sentence :: queue)
          else
            let (fit, rest) := fitPrefixByWidth box.width sentence remPx
            if fit.isEmpty then (line, sentence :: queue) else (line ++ fit, unshift rest queue)
      else (line, sentence :: queue)

/-- A round of the outer loop, for a queue that is not empty. -/
def layoutRound (l : Layout) : Layout :=
  let (line, queue) := box.fillLine [] 0 0 l.queue
  if line.isEmpty then
    match queue with
    | [] => l
    | s :: queue =>
        let (fit, rest) := fitPrefixByWidth box.width s box.maxPx
        { queue := unshift rest queue
          lines := l.lines ++ [if fit.isEmpty then s.take 1 else fit] }
  else { queue := queue, lines := l.lines ++ [line] }

/-- The queue before the first round. -/
def startLayout (text : JsStr) : Layout where
  queue := (splitSentencesAndTail text).1 ++ unshift (splitSentencesAndTail text).2 []
  lines := []

/-- `buildLines`, in at most `fuel` rounds. -/
def buildLines (fuel : Nat) (text : JsStr) : Option (List JsStr) :=
  (Loop.loop (fun l : Layout => some (if l.queue.isEmpty then .done l else .again (box.layoutRound l)))
    fuel (startLayout text)).map Layout.lines

end LineBox

end VTranser.Overlay

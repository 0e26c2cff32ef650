import VTranser.Lib.Fifo

/-!
# The audio buffer of the feed worker

Resampled audio waits in `bufq` as the arrays that came, `buf_samples` counts
it, and `pending_segments` has the times at which it was enqueued. The feed
worker appends, drops the oldest when there is too much, and gives the recorder
frame after frame.

A sample of an array that `np.empty` made and nothing wrote is `none`.
-/

namespace VTranser.Server

structure AudioBuffer (α τ : Type*) where
  bufq : List (List α)
  bufSamples : Int
  pendingSegments : List (Nat × τ)
  fedEnqWatermarkTs : Option τ
  deriving DecidableEq

namespace AudioBuffer

variable {α τ : Type*}

def init : AudioBuffer α τ := ⟨[], 0, [], none⟩

/-- `_bufq_append` -/
def bufqAppend (b : AudioBuffer α τ) (arr : List α) (enqTs : τ) : AudioBuffer α τ :=
  if arr.isEmpty then b
  else
    { b with
      bufq := b.bufq ++ [arr]
      bufSamples := b.bufSamples + arr.length
      pendingSegments := b.pendingSegments ++ [(arr.length, enqTs)] }

/-- The loop of `_bufq_consume_samples`: what is written to `out`, and what is left. -/
def consumeLoop : Nat → List (List α) → Int → List α × List (List α) × Int
  | _, [], bufSamples => ([], [], bufSamples)
  | n, head :: bufq, bufSamples =>
      if n = 0 then ([], head :: bufq, bufSamples)
      else
        let take := min n head.length
        if take = head.length then
          let (out, bufq', bufSamples') := consumeLoop (n - take) bufq (bufSamples - take)
          (head.take take ++ out, bufq', bufSamples')
        else (head.take take, head.drop take :: bufq, bufSamples - take)

/-- `_bufq_consume_samples` -/
def bufqConsumeSamples (b : AudioBuffer α τ) (n : Nat) : List (Option α) × AudioBuffer α τ :=
  let (out, bufq, bufSamples) := consumeLoop n b.bufq b.bufSamples
  (out.map some ++ List.replicate (n - out.length) none, { b with bufq, bufSamples })

/-- The loop of `_consume_segments`: the segments that are left, and `last_ts`. -/
def consumeSegmentsLoop : Nat → List (Nat × τ) → Option τ → List (Nat × τ) × Option τ
  | _, [], last => ([], last)
  | remain, (segLen, segTs) :: segs, last =>
      if remain = 0 then ((segLen, segTs) :: segs, last)
      else if segLen ≤ remain then consumeSegmentsLoop (remain - segLen) segs (some segTs)
      else ((segLen - remain, segTs) :: segs, some segTs)

/-- `_consume_segments` -/
def consumeSegments (b : AudioBuffer α τ) (samplesToConsume : Nat) : AudioBuffer α τ :=
  let (segs, last) := consumeSegmentsLoop samplesToConsume b.pendingSegments none
  { b with pendingSegments := segs, fedEnqWatermarkTs := last.or b.fedEnqWatermarkTs }

/-- The loop of `_buf_drop_oldest_to_ms`. The arrays are beside the rest of the
buffer, as far as they are still there. -/
def dropLoop : Nat → List (List α) → AudioBuffer α τ → AudioBuffer α τ
  | _, [], b => { b with bufq := [] }
  | drop, head :: bufq, b =>
      if drop = 0 then { b with bufq := head :: bufq }
      else
        let take := min drop head.length
        let b' := { b with bufSamples := b.bufSamples - take }.consumeSegments take
        if take = head.length then dropLoop (drop - take) bufq b'
        else { b' with bufq := head.drop take :: bufq }

/-- `_buf_drop_oldest_to_ms`, for the number of samples in so many milliseconds. -/
def bufDropOldestTo (b : AudioBuffer α τ) (targetSamples : Nat) : AudioBuffer α τ :=
  if b.bufSamples ≤ targetSamples then b
  else dropLoop (b.bufSamples - targetSamples).toNat b.bufq b

end AudioBuffer

/-- What the feed worker does to the buffer, one step at a time. -/
inductive FeedOp (α τ : Type*)
  | append (arr : List α) (enqTs : τ)
  | dropOldest (targetSamples : Nat)
  | feed

/-- The buffer, and the frames the recorder got. -/
structure Feed (α τ : Type*) where
  buf : AudioBuffer α τ
  frames : List (List (Option α))
  deriving DecidableEq

namespace Feed

variable {α τ : Type*}

def init : Feed α τ := ⟨.init, []⟩

/-- One round of the loop that feeds frames, if there is enough for a frame. -/
def feedFrame (hop : Nat) (f : Feed α τ) : Feed α τ :=
  if hop ≤ f.buf.bufSamples then
    let (frame, buf) := f.buf.bufqConsumeSamples hop
    { buf := buf.consumeSegments hop, frames := f.frames ++ [frame] }
  else f

def step (hop : Nat) (f : Feed α τ) : FeedOp α τ → Feed α τ
  | .append arr enqTs => { f with buf := f.buf.bufqAppend arr enqTs }
  | .dropOldest targetSamples => { f with buf := f.buf.bufDropOldestTo targetSamples }
  | .feed => f.feedFrame hop

def run (hop : Nat) (ops : List (FeedOp α τ)) : Feed α τ := ops.foldl (step hop) init

end Feed

end VTranser.Server

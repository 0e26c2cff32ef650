import VTranser.Server.AudioBuffer

/-!
# The buffer is one queue of samples

The arrays, the counter and the segments are three views of one queue of samples,
each marked with the time it was enqueued. A function that takes samples off the
front cuts all three at the same place, wherever that is in an array or in a
segment.
-/

namespace VTranser.Server

variable {α τ : Type*}

namespace AudioBuffer

/-! ## The loops -/

theorem consumeLoop_spec (n : Nat) (bufq : List (List α)) (bufSamples : Int) :
    (consumeLoop n bufq bufSamples).1 = bufq.flatten.take n ∧
      (consumeLoop n bufq bufSamples).2.1.flatten = bufq.flatten.drop n ∧
      (consumeLoop n bufq bufSamples).2.2 = bufSamples - min n bufq.flatten.length := by
  induction bufq generalizing n bufSamples with
  | nil => simp [consumeLoop]
  | cons head bufq ih =>
      simp only [consumeLoop]
      split
      · next hn => simp [hn]
      · split
        · next hn hall =>
            have hle : head.length ≤ n := by omega
            obtain ⟨hout, hleft, hcount⟩ := ih (n - min n head.length) (bufSamples - ↑(min n head.length))
            rw [hall] at hout hleft hcount ⊢
            refine ⟨?_, ?_, ?_⟩
            · rw [List.flatten_cons, List.take_append, List.take_of_length_le hle, hout,
                List.take_of_length_le (Nat.le_refl _)]
            · rw [hleft, List.flatten_cons, List.drop_append, List.drop_eq_nil_of_le hle,
                List.nil_append]
            · rw [hcount, List.flatten_cons, List.length_append]
              omega
        · next hn hpart =>
            have hlt : n < head.length := by omega
            have hle : n ≤ head.length := by omega
            have hmin : min n head.length = n := by omega
            rw [hmin]
            refine ⟨?_, ?_, ?_⟩
            · rw [List.flatten_cons, List.take_append_of_le_length hle]
            · rw [List.flatten_cons, List.flatten_cons, List.drop_append_of_le_length hle]
            · show bufSamples - ↑n = _
              rw [List.flatten_cons, List.length_append]
              omega

theorem consumeSegmentsLoop_spec {segs : List (Nat × τ)} (hpos : ∀ seg ∈ segs, 0 < seg.1)
    (n : Nat) (last : Option τ) :
    marks (consumeSegmentsLoop n segs last).1 = (marks segs).drop n ∧
      (consumeSegmentsLoop n segs last).2 = (((marks segs).take n).getLast?).or last ∧
      ∀ seg ∈ (consumeSegmentsLoop n segs last).1, 0 < seg.1 := by
  induction segs generalizing n last with
  | nil => simp [consumeSegmentsLoop]
  | cons seg segs ih =>
      obtain ⟨segLen, segTs⟩ := seg
      have hlen : 0 < segLen := hpos (segLen, segTs) (by simp)
      simp only [consumeSegmentsLoop]
      split
      · next hn => simpa [hn] using hpos
      · split
        · next hn hle =>
            obtain ⟨hleft, hlast, hpos'⟩ :=
              ih (fun seg hseg => hpos seg (by simp [hseg])) (n - segLen) (some segTs)
            refine ⟨?_, ?_, hpos'⟩
            · rw [hleft, marks_drop_cons hle]
            · rw [hlast, getLast?_take_runs hlen hle]
              cases ((marks segs).take (n - segLen)).getLast? <;> rfl
        · next hn hlt =>
            refine ⟨marks_cut (by omega) segTs segs, ?_, ?_⟩
            · rw [getLast?_take_run (by omega) (by omega)]
              rfl
            · intro seg hseg
              rcases List.mem_cons.mp hseg with rfl | hseg
              · show 0 < segLen - n
                omega
              · exact hpos seg (by simp [hseg])

/-! ## The queue behind the buffer -/

/-- The buffer holds the samples that wait in the queue, and knows the time of the
sample that left last. -/
structure Holds (b : AudioBuffer α τ) (q : Fifo α τ) : Prop where
  samples : b.bufq.flatten = q.waiting.map Prod.fst
  segments : marks b.pendingSegments = q.waiting.map Prod.snd
  count : b.bufSamples = q.waiting.length
  pos : ∀ seg ∈ b.pendingSegments, 0 < seg.1
  watermark : b.fedEnqWatermarkTs = q.lastMark

variable {b : AudioBuffer α τ} {q : Fifo α τ}

theorem holds_init : Holds (init : AudioBuffer α τ) Fifo.empty := by
  constructor <;> simp [init, Fifo.empty, Fifo.lastMark]

theorem Holds.length_flatten (h : Holds b q) : b.bufq.flatten.length = q.waiting.length := by
  rw [h.samples, List.length_map]

theorem Holds.append (h : Holds b q) (arr : List α) (enqTs : τ) :
    Holds (b.bufqAppend arr enqTs) (q.append arr enqTs) := by
  rw [bufqAppend]
  split
  · next hempty =>
      have hnil : arr = [] := by simpa using hempty
      simpa [Fifo.append, hnil] using h
  · next hne =>
      have hlen : 0 < arr.length := List.length_pos_iff.mpr (by simpa using hne)
      constructor
      · simp [Fifo.append, h.samples, Function.comp_def]
      · simp [Fifo.append, h.segments, Function.comp_def]
      · simp [Fifo.append, h.count]
      · intro seg hseg
        rcases List.mem_append.mp hseg with hseg | hseg
        · exact h.pos seg hseg
        · rw [List.mem_singleton.mp hseg]
          exact hlen
      · exact h.watermark

/-- Taking `n` samples off all three. -/
theorem Holds.leave (h : Holds b q) (fate : Fate) {n : Nat} (hn : n ≤ q.waiting.length)
    {bufq : List (List α)} (hbufq : bufq.flatten = b.bufq.flatten.drop n) {bufSamples : Int}
    (hcount : bufSamples = b.bufSamples - n) :
    Holds ({ b with bufq, bufSamples }.consumeSegments n) (q.take fate n) := by
  obtain ⟨hleft, hlast, hpos⟩ := consumeSegmentsLoop_spec h.pos n none
  constructor
  · show bufq.flatten = (q.waiting.drop n).map Prod.fst
    rw [hbufq, h.samples, List.map_drop]
  · show marks (consumeSegmentsLoop n b.pendingSegments none).1 = (q.waiting.drop n).map Prod.snd
    rw [hleft, h.segments, List.map_drop]
  · show bufSamples = (q.waiting.drop n).length
    rw [hcount, h.count, List.length_drop]
    omega
  · exact hpos
  · show (consumeSegmentsLoop n b.pendingSegments none).2.or b.fedEnqWatermarkTs = _
    rw [hlast, h.segments, h.watermark, Fifo.lastMark_take, Option.or_none]

theorem Holds.dropLoop {n : Nat} {bufq : List (List α)} (hn : n ≤ q.waiting.length)
    (h : Holds { b with bufq } q) : Holds (dropLoop n bufq b) (q.take .dropped n) := by
  induction bufq generalizing b q n with
  | nil =>
      have hzero : q.waiting.length = 0 := by rw [← h.length_flatten]; rfl
      have hn0 : n = 0 := by omega
      simpa [AudioBuffer.dropLoop, Fifo.take, hn0] using h
  | cons head bufq ih =>
      simp only [AudioBuffer.dropLoop]
      split
      · next hn0 => simpa [Fifo.take, hn0] using h
      · split
        · next hn0 hall =>
            have hwait := h.length_flatten
            rw [List.flatten_cons, List.length_append] at hwait
            have hfits : head.length ≤ q.waiting.length := by omega
            have hflat : bufq.flatten = (head :: bufq).flatten.drop head.length := by
              rw [List.flatten_cons, List.drop_left]
            have hleave := h.leave .dropped hfits hflat rfl
            have hrest : n - head.length ≤ (q.take .dropped head.length).waiting.length := by
              show n - head.length ≤ (q.waiting.drop head.length).length
              rw [List.length_drop]
              omega
            have htake : (q.take .dropped head.length).take .dropped (n - head.length) =
                q.take .dropped n := by
              rw [Fifo.take_take, Nat.add_sub_cancel' (by omega)]
            rw [hall, ← htake]
            exact ih hrest hleave
        · next hn0 hpart =>
            have hmin : min n head.length = n := by omega
            rw [hmin]
            have hflat : (head.drop n :: bufq).flatten = (head :: bufq).flatten.drop n := by
              rw [List.flatten_cons, List.flatten_cons, List.drop_append_of_le_length (by omega)]
            exact h.leave .dropped hn hflat rfl

theorem Holds.drop (h : Holds b q) (targetSamples : Nat) :
    Holds (b.bufDropOldestTo targetSamples)
      (q.take .dropped (q.waiting.length - targetSamples)) := by
  have hcount := h.count
  rw [bufDropOldestTo]
  split
  · next hle =>
      have hzero : q.waiting.length - targetSamples = 0 := by omega
      simpa [Fifo.take, hzero] using h
  · next hlt =>
      have hn : (b.bufSamples - targetSamples).toNat = q.waiting.length - targetSamples := by omega
      rw [hn]
      exact Holds.dropLoop (by omega) h

/-- The frame is what was in front, and was written from end to end. -/
theorem Holds.frame (h : Holds b q) {hop : Nat} (hhop : hop ≤ q.waiting.length) :
    (b.bufqConsumeSamples hop).1 = ((q.waiting.take hop).map Prod.fst).map some := by
  obtain ⟨hout, -, -⟩ := consumeLoop_spec hop b.bufq b.bufSamples
  have hlen : hop - (consumeLoop hop b.bufq b.bufSamples).1.length = 0 := by
    rw [hout, List.length_take, h.length_flatten]
    omega
  simp only [bufqConsumeSamples]
  rw [hlen, hout, h.samples, List.replicate_zero, List.append_nil]
  simp only [List.map_take]

theorem Holds.consume (h : Holds b q) {hop : Nat} (hhop : hop ≤ q.waiting.length) :
    Holds ((b.bufqConsumeSamples hop).2.consumeSegments hop) (q.take .used hop) := by
  obtain ⟨-, hleft, hcount⟩ := consumeLoop_spec hop b.bufq b.bufSamples
  refine h.leave .used hhop hleft ?_
  rw [hcount, h.length_flatten, Nat.min_eq_left hhop]

theorem Holds.counts (h : Holds b q) :
    b.bufSamples = (b.bufq.map List.length).sum ∧
      b.bufSamples = (b.pendingSegments.map Prod.fst).sum := by
  constructor
  · rw [h.count, ← List.length_flatten, h.length_flatten]
  · rw [h.count, ← length_marks, h.segments, List.length_map]

end AudioBuffer

/-! ## What the buffer is for -/

/-- The same steps on the queue. -/
def queueStep (hop : Nat) (q : Fifo α τ) : FeedOp α τ → Fifo α τ
  | .append arr enqTs => q.append arr enqTs
  | .dropOldest targetSamples => q.take .dropped (q.waiting.length - targetSamples)
  | .feed => if hop ≤ q.waiting.length then q.take .used hop else q

def queueRun (hop : Nat) (ops : List (FeedOp α τ)) : Fifo α τ :=
  ops.foldl (queueStep hop) .empty

/-- The samples of one step, with their time. -/
def FeedOp.appended : FeedOp α τ → List (α × τ)
  | .append arr enqTs => arr.map fun x => (x, enqTs)
  | _ => []

/-- The buffer holds the queue, and the recorder got what was used. -/
structure Feed.Follows (f : Feed α τ) (q : Fifo α τ) : Prop where
  buf : f.buf.Holds q
  frames : f.frames.flatten = q.used.map some

theorem Feed.Follows.step {f : Feed α τ} {q : Fifo α τ} (h : f.Follows q) (hop : Nat)
    (op : FeedOp α τ) : (f.step hop op).Follows (queueStep hop q op) := by
  have hcount := h.buf.count
  cases op with
  | append arr enqTs => exact ⟨h.buf.append arr enqTs, h.frames⟩
  | dropOldest targetSamples =>
      refine ⟨h.buf.drop targetSamples, ?_⟩
      rw [queueStep, Fifo.used_take_dropped]
      exact h.frames
  | feed =>
      simp only [Feed.step, Feed.feedFrame, queueStep]
      by_cases hhop : hop ≤ q.waiting.length
      · rw [if_pos (by omega), if_pos hhop]
        refine ⟨h.buf.consume hhop, ?_⟩
        show (f.frames ++ [(f.buf.bufqConsumeSamples hop).1]).flatten = _
        rw [List.flatten_append, h.frames, h.buf.frame hhop, Fifo.used_take_used]
        simp
      · rw [if_neg (by omega), if_neg hhop]
        exact h

theorem all_queueStep (hop : Nat) (q : Fifo α τ) (op : FeedOp α τ) :
    (queueStep hop q op).all = q.all ++ op.appended := by
  cases op with
  | append arr enqTs => simp [queueStep, FeedOp.appended]
  | dropOldest targetSamples => simp [queueStep, FeedOp.appended]
  | feed =>
      simp only [queueStep]
      split <;> simp [FeedOp.appended]

theorem all_queueRun (hop : Nat) (ops : List (FeedOp α τ)) :
    (queueRun hop ops).all = ops.flatMap FeedOp.appended := by
  have hfold : ∀ q : Fifo α τ,
      (ops.foldl (queueStep hop) q).all = q.all ++ ops.flatMap FeedOp.appended := by
    induction ops with
    | nil => simp
    | cons op ops ih =>
        intro q
        rw [List.foldl_cons, ih, all_queueStep, List.flatMap_cons, List.append_assoc]
  exact hfold .empty

theorem Feed.follows_run (hop : Nat) (ops : List (FeedOp α τ)) :
    (Feed.run hop ops).Follows (queueRun hop ops) := by
  have hfold : ∀ (f : Feed α τ) (q : Fifo α τ), f.Follows q →
      (ops.foldl (Feed.step hop) f).Follows (ops.foldl (queueStep hop) q) := by
    induction ops with
    | nil => exact fun f q h => h
    | cons op ops ih => exact fun f q h => ih _ _ (h.step hop op)
  exact hfold _ _ ⟨AudioBuffer.holds_init, rfl⟩

/-- After any steps of the feed worker: the counter is the size of the arrays and
the length of the segments; what was appended is what has left the buffer, oldest
first, and what waits in it; the recorder got what has left and was not dropped, each
sample written; and the watermark is the time of the sample that left last. -/
theorem audio_buffer_fifo (hop : Nat) (ops : List (FeedOp α τ)) :
    let f := Feed.run hop ops
    let q := queueRun hop ops
    f.buf.bufSamples = (f.buf.bufq.map List.length).sum ∧
      f.buf.bufSamples = (f.buf.pendingSegments.map Prod.fst).sum ∧
      ops.flatMap FeedOp.appended = q.gone.map Prod.snd ++ q.waiting ∧
      f.buf.bufq.flatten = q.waiting.map Prod.fst ∧
      f.frames.flatten = ((q.gone.filter fun x => x.1 = .used).map fun x => x.2.1).map some ∧
      f.buf.fedEnqWatermarkTs = q.gone.getLast?.map fun x => x.2.2 := by
  intro f q
  have h : f.Follows q := Feed.follows_run hop ops
  obtain ⟨harrays, hsegs⟩ := h.buf.counts
  exact ⟨harrays, hsegs, (all_queueRun hop ops).symm, h.buf.samples, h.frames,
    h.buf.watermark⟩

end VTranser.Server

import Mathlib.Data.List.Induction
import VTranser.Worklet

/-!
# What goes in comes out

The chunks that were sent, followed by the buffer, are the blocks that came, and the
count since the last loudness message is the number of chunks, modulo how often there
is one. Both are kept by a round of the loop, whatever the lengths of the blocks.
-/

namespace VTranser.Worklet

variable {α : Type*} {num : Numbers α}

/-- The block of a call, if it has one. -/
def block (inputs : List (List (List α))) : List α :=
  match inputs with
  | (ch :: _) :: _ => ch
  | _ => []

/-- The messages of a chunk: the loudness goes before every `every`-th. -/
def posted (num : Numbers α) (every : Nat) (chunk : List α) (i : Nat) : List (Message α) :=
  (if every ∣ i then [meter num chunk] else []) ++ [pcm num chunk]

/-- The messages of chunks that are numbered from one. -/
def allPosted (num : Numbers α) (every : Nat) (chunks : List (List α)) : List (Message α) :=
  (chunks.zipIdx 1).flatMap fun c => posted num every c.1 c.2

def Message.isMeter : Message α → Bool
  | .meter .. => true
  | .pcmInt16 _ => false

theorem allPosted_concat (every : Nat) (chunks : List (List α)) (chunk : List α) :
    allPosted num every (chunks ++ [chunk]) =
      allPosted num every chunks ++ posted num every chunk (chunks.length + 1) := by
  simp [allPosted, List.zipIdx_append, Nat.add_comm]

/-- There is one message about the loudness for each `every` chunks. -/
theorem countP_isMeter_allPosted (every : Nat) (chunks : List (List α)) :
    (allPosted num every chunks).countP Message.isMeter = chunks.length / every := by
  induction chunks using List.reverseRecOn with
  | nil => simp [allPosted]
  | append_singleton chunks chunk ih =>
      have hpcm : [pcm num chunk].countP Message.isMeter = 0 := rfl
      rw [allPosted_concat, List.countP_append, ih, posted, List.countP_append, hpcm,
        List.length_append, List.length_singleton, Nat.succ_div]
      split
      · rfl
      · rfl

namespace Processor

variable {p : Processor α} {size every : Nat} {chunks : List (List α)} {came : List α}

/-- The chunks that were sent and the buffer are what came. -/
structure Carries (num : Numbers α) (size every : Nat) (chunks : List (List α)) (came : List α)
    (p : Processor α) : Prop where
  chunkSize : p.chunkSize = size
  meterEvery : p.meterEveryNChunks = every
  full : ∀ c ∈ chunks, c.length = size
  samples : chunks.flatten ++ p.buffer = came
  sent : p.sent = allPosted num every chunks
  since : p.chunksSinceMeter = chunks.length % every

theorem Carries.init (opts : Options) :
    Carries num (ofOptions opts : Processor α).chunkSize
      (ofOptions opts : Processor α).meterEveryNChunks [] [] (ofOptions opts) :=
  ⟨rfl, rfl, nofun, rfl, rfl, (Nat.zero_mod _).symm⟩

/-- The count since the last loudness says when the next one is due. -/
theorem Carries.due_iff (h : Carries num size every chunks came p) :
    p.meterEveryNChunks ≤ p.chunksSinceMeter + 1 ↔ every ∣ chunks.length + 1 := by
  have hpos : 0 < every := h.meterEvery ▸ p.meter_pos
  have hlt := Nat.mod_lt chunks.length hpos
  rw [h.meterEvery, h.since, Nat.dvd_iff_mod_eq_zero, ← Nat.mod_add_mod]
  constructor
  · intro hle
    have hall : chunks.length % every + 1 = every := by omega
    rw [hall, Nat.mod_self]
  · intro hzero
    by_contra hnot
    rw [Nat.mod_eq_of_lt (by omega)] at hzero
    omega

theorem Carries.emitChunk (h : Carries num size every chunks came p)
    (hfull : p.chunkSize ≤ p.buffer.length) :
    Carries num size every (chunks ++ [p.buffer.take p.chunkSize]) came (p.emitChunk num) where
  chunkSize := h.chunkSize
  meterEvery := h.meterEvery
  full c hc := by
    rcases List.mem_append.mp hc with hc | hc
    · exact h.full c hc
    · rw [List.mem_singleton.mp hc, List.length_take, Nat.min_eq_left hfull, h.chunkSize]
  samples := by
    show (chunks ++ [p.buffer.take p.chunkSize]).flatten ++ p.buffer.drop p.chunkSize = came
    rw [List.flatten_append, List.flatten_singleton, List.append_assoc, List.take_append_drop,
      h.samples]
  sent := by
    show p.sent ++ _ ++ _ = _
    rw [allPosted_concat, posted, h.sent, List.append_assoc]
    simp only [h.due_iff]
  since := by
    show (if p.meterEveryNChunks ≤ p.chunksSinceMeter + 1 then 0 else p.chunksSinceMeter + 1) = _
    rw [List.length_append, List.length_singleton]
    split
    · next hdue => exact (Nat.mod_eq_zero_of_dvd (h.due_iff.mp hdue)).symm
    · next hdue =>
        have hless : p.chunksSinceMeter + 1 < every := by
          rw [← h.meterEvery]
          omega
        rw [← Nat.mod_add_mod, ← h.since, Nat.mod_eq_of_lt hless]

/-- The loop goes on until what is left does not fill a chunk. -/
theorem Carries.emitChunks (h : Carries num size every chunks came p) :
    ∃ chunks', Carries num size every chunks' came (p.emitChunks num) ∧
      (p.emitChunks num).buffer.length < size := by
  induction p using Processor.emitChunks.induct num generalizing chunks with
  | case1 p hfull ih =>
      rw [Processor.emitChunks, if_pos hfull]
      exact ih (h.emitChunk hfull)
  | case2 p hless =>
      rw [Processor.emitChunks, if_neg hless]
      exact ⟨chunks, h, h.chunkSize ▸ Nat.lt_of_not_le hless⟩

/-- A call adds its block to what came. -/
theorem Carries.process (h : Carries num size every chunks came p)
    (hless : p.buffer.length < size) (inputs : List (List (List α))) :
    ∃ chunks', Carries num size every chunks' (came ++ block inputs) (p.process num inputs) ∧
      (p.process num inputs).buffer.length < size := by
  have hnone : block inputs = [] → ∃ chunks', Carries num size every chunks'
      (came ++ block inputs) p ∧ p.buffer.length < size := by
    intro hblock
    rw [hblock, List.append_nil]
    exact ⟨chunks, h, hless⟩
  rw [Processor.process.eq_def]
  split
  · next ch _ _ =>
      split
      · next hempty => exact hnone (List.isEmpty_iff.mp hempty)
      · have hmerged : Carries num size every chunks (came ++ ch)
            { p with buffer := p.buffer ++ ch } :=
          { h with samples := by rw [← h.samples, List.append_assoc] }
        exact hmerged.emitChunks
  · next hno =>
      refine hnone ?_
      rw [block.eq_def]
      split
      · next ch _ _ => exact absurd rfl (hno ch _ _)
      · rfl

theorem carries_run (num : Numbers α) (opts : Options) (calls : List (List (List (List α)))) :
    ∃ chunks, Carries num (ofOptions opts : Processor α).chunkSize
      (ofOptions opts : Processor α).meterEveryNChunks chunks (calls.flatMap block)
        (calls.foldl (Processor.process num) (ofOptions opts)) ∧
      (calls.foldl (Processor.process num) (ofOptions opts)).buffer.length <
        (ofOptions opts : Processor α).chunkSize := by
  induction calls using List.reverseRecOn with
  | nil => exact ⟨[], .init opts, (ofOptions opts : Processor α).chunkSize_pos⟩
  | append_singleton calls inputs ih =>
      obtain ⟨chunks, h, hless⟩ := ih
      rw [List.foldl_concat, List.flatMap_append, List.flatMap_singleton]
      exact h.process hless inputs

/-- In every run of `process`, whatever the blocks: the chunks that were sent have the
same size and with the buffer they are all samples that came, in order; the buffer does
not fill a chunk; and the messages are those of the chunks, with one about the loudness
for each `meterEveryNChunks` of them. -/
theorem pcm_lossless (num : Numbers α) (opts : Options) (calls : List (List (List (List α)))) :
    let new : Processor α := ofOptions opts
    let p := calls.foldl (Processor.process num) new
    ∃ chunks : List (List α), (∀ c ∈ chunks, c.length = new.chunkSize) ∧
      chunks.flatten ++ p.buffer = calls.flatMap block ∧
      p.buffer.length < new.chunkSize ∧
      p.sent = allPosted num new.meterEveryNChunks chunks ∧
      p.sent.countP Message.isMeter = chunks.length / new.meterEveryNChunks := by
  intro new p
  obtain ⟨chunks, h, hless⟩ := carries_run num opts calls
  refine ⟨chunks, h.full, h.samples, hless, h.sent, ?_⟩
  rw [h.sent, countP_isMeter_allPosted]

end Processor

end VTranser.Worklet

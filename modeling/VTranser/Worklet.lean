import Mathlib.Data.List.Basic

/-!
# The audio worklet

Audio comes in blocks of any length and goes out in chunks of one size. What does
not fill a chunk waits in `buffer` for the next block. Every so many chunks a
message about the loudness goes before the chunk.
-/

namespace VTranser.Worklet

/-- Arithmetic on samples, and what an element of an `Int16Array` makes of a number. -/
structure Numbers (α : Type*) where
  ofInt : Int → α
  lt : α → α → Bool
  add : α → α → α
  mul : α → α → α
  div : α → α → α
  abs : α → α
  sqrt : α → α
  min : α → α → α
  max : α → α → α
  toInt16 : α → Int

/-- `processorOptions`, a number that is missing being `none`. -/
structure Options where
  chunkSize : Option Nat
  meterEveryNChunks : Option Int
  deriving DecidableEq, Repr

/-- What `port.postMessage` sends. -/
inductive Message (α : Type*)
  | meter (rms peak : α)
  | pcmInt16 (payload : List Int)
  deriving DecidableEq, Repr

/-- A `PCMProcessor`, and what its port has sent. -/
structure Processor (α : Type*) where
  chunkSize : Nat
  buffer : List α
  meterEveryNChunks : Nat
  chunksSinceMeter : Nat
  sent : List (Message α)
  chunkSize_pos : 0 < chunkSize
  meter_pos : 0 < meterEveryNChunks

variable {α : Type*} (num : Numbers α)

/-- The loop over a chunk for its loudness. -/
def meter (slice : List α) : Message α :=
  let (sumSq, peak) := slice.foldl (fun (sumSq, peak) v =>
    let av := num.abs v
    (num.add sumSq (num.mul v v), if num.lt peak av then av else peak))
    (num.ofInt 0, num.ofInt 0)
  .meter (num.sqrt (num.div sumSq (num.ofInt slice.length))) peak

/-- A sample as it goes out. -/
def sampleToInt16 (v : α) : Int :=
  let s := num.max (num.ofInt (-1)) (num.min (num.ofInt 1) v)
  num.toInt16 <|
    if num.lt s (num.ofInt 0) then num.mul s (num.ofInt 0x8000) else num.mul s (num.ofInt 0x7fff)

/-- The message of a chunk. -/
def pcm (slice : List α) : Message α := .pcmInt16 (slice.map (sampleToInt16 num))

namespace Processor

/-- `new PCMProcessor`; a number that is zero counts as missing. -/
def ofOptions (opts : Options) : Processor α where
  chunkSize := match opts.chunkSize with
    | some (n + 1) => n + 1
    | _ => 2048
  buffer := []
  meterEveryNChunks := match opts.meterEveryNChunks with
    | some n => if n = 0 then 8 else (max 1 n).toNat
    | none => 8
  chunksSinceMeter := 0
  sent := []
  chunkSize_pos := by
    split
    · exact Nat.succ_pos _
    · decide
  meter_pos := by
    split
    · split
      · decide
      · omega
    · decide

/-- A round of the loop of `_emitChunks`. -/
def emitChunk (p : Processor α) : Processor α :=
  let slice := p.buffer.take p.chunkSize
  let due := p.meterEveryNChunks ≤ p.chunksSinceMeter + 1
  { p with
    buffer := p.buffer.drop p.chunkSize
    chunksSinceMeter := if due then 0 else p.chunksSinceMeter + 1
    sent := p.sent ++ (if due then [meter num slice] else []) ++ [pcm num slice] }

/-- `_emitChunks` -/
def emitChunks (p : Processor α) : Processor α :=
  if p.chunkSize ≤ p.buffer.length then emitChunks (p.emitChunk num) else p
termination_by p.buffer.length
decreasing_by
  have := p.chunkSize_pos
  show (p.buffer.drop p.chunkSize).length < p.buffer.length
  rw [List.length_drop]
  omega

/-- `process`: the inputs, their channels, and their samples. -/
def process (p : Processor α) (inputs : List (List (List α))) : Processor α :=
  match inputs with
  | (ch :: _) :: _ =>
      if ch.isEmpty then p else { p with buffer := p.buffer ++ ch }.emitChunks num
  | _ => p

end Processor

end VTranser.Worklet

import Mathlib.Algebra.Order.Ring.Int
import Mathlib.Data.List.Basic

/-!
# From bytes to samples

The feed worker makes an array of samples of the bytes of an audio item and
brings it to `TGT_SR`. Arithmetic on samples is given, with the libraries that
do it: `AudioLib` has what they compute for arguments they take, and the
definitions here say which these are. `none` is an exception.

`resample_poly` takes factors from 1 on, as large as an array of its filter can be;
there is memory for every array. An integer that is made a `float` must be smaller than
the largest one.
-/

namespace VTranser.Server

/-- The `dtype` of an audio item, when one is given. -/
inductive Dtype
  | i16 | f32
  deriving DecidableEq, Repr

/-- Arithmetic on samples, and the libraries that are installed. -/
structure AudioLib (α : Type*) where
  /-- A sample from its bytes, cleared of what is no number. -/
  i16 : UInt8 → UInt8 → α
  f32 : UInt8 → UInt8 → UInt8 → UInt8 → α
  /-- `np.mean(np.abs(f32) <= 1.5) > 0.9` -/
  mostlySmall : List α → Bool
  resampleUsesScipy : Bool
  /-- `scipy.signal.resample_poly`, and its largest factor. -/
  resamplePoly : List α → Int → Int → List α
  maxFactor : Int
  /-- `librosa.resample`, when there is no scipy. -/
  librosa : Option (List α → Int → Int → List α)
  /-- `np.interp` on the two grids. -/
  interp : List α → Int → Int → List α
  nanToNum : List α → List α
  /-- `_apply_agc_peak_cpu`, when `ENABLE_AGC` is set. -/
  agc : Option (List α → List α)

/-- The libraries on silence: a sample is just there. -/
def silentLib : AudioLib Unit where
  i16 _ _ := ()
  f32 _ _ _ _ := ()
  mostlySmall _ := true
  resampleUsesScipy := true
  resamplePoly f32 up down := List.replicate ((f32.length * up.toNat + down.toNat - 1) / down.toNat) ()
  maxFactor := 2 ^ 58
  librosa := none
  interp f32 srcSr tgtSr := List.replicate (max 1 (f32.length * tgtSr.toNat / srcSr.toNat)) ()
  nanToNum := id
  agc := none

variable {α : Type*} (lib : AudioLib α)

/-- `np.frombuffer(b, dtype=np.int16)`, as floats. -/
def frombufferI16 : List UInt8 → Option (List α)
  | [] => some []
  | [_] => none
  | b₀ :: b₁ :: bs => (frombufferI16 bs).map (lib.i16 b₀ b₁ :: ·)

/-- `np.frombuffer(b, dtype=np.float32)` -/
def frombufferF32 : List UInt8 → Option (List α)
  | [] => some []
  | b₀ :: b₁ :: b₂ :: b₃ :: bs => (frombufferF32 bs).map (lib.f32 b₀ b₁ b₂ b₃ :: ·)
  | _ => none

/-- `_bytes_to_f32_auto` -/
def bytesToF32Auto (b : List UInt8) (forceDtype : Option Dtype) : Option (List α) :=
  if b.isEmpty then some []
  else
    match forceDtype with
    | some .i16 => frombufferI16 lib b
    | some .f32 => frombufferF32 lib b
    | none =>
        if b.length % 4 = 0 then
          (frombufferF32 lib b).bind fun f32 =>
            if !f32.isEmpty && lib.mostlySmall f32 then some f32 else frombufferI16 lib b
        else frombufferI16 lib b

/-- `float(n)` does not overflow. -/
def floatFits (n : Int) : Prop := n.natAbs < 2 ^ 1024 - 2 ^ 970

instance (n : Int) : Decidable (floatFits n) :=
  inferInstanceAs (Decidable (n.natAbs < 2 ^ 1024 - 2 ^ 970))

/-- `resample_poly(f32, up, down)` -/
def resamplePoly (f32 : List α) (up down : Int) : Option (List α) :=
  if 1 ≤ up ∧ 1 ≤ down ∧ max up down ≤ lib.maxFactor then some (lib.resamplePoly f32 up down)
  else none

/-- The last branch of `_resample_cpu_to_16k`. -/
def resampleOther (tgtSr : Int) (f32 : List α) (srcSr : Int) : Option (List α) :=
  match lib.librosa with
  | none =>
      -- `r = TGT_SR / float(src_sr)`
      if srcSr ≠ 0 ∧ floatFits srcSr then some (lib.interp f32 srcSr tgtSr) else none
  | some resample =>
      if 0 < srcSr ∧ 0 < tgtSr ∧ floatFits srcSr then some (resample f32 srcSr tgtSr) else none

/-- `_resample_cpu_to_16k`, with the exception of `%` on zero. -/
def resampleCpuTo16k (tgtSr : Int) (f32 : List α) (srcSr : Int) : Option (List α) :=
  if f32.isEmpty then some f32
  else if srcSr = tgtSr then some f32
  else
    (if lib.resampleUsesScipy then
      if srcSr = 48000 ∧ tgtSr = 16000 then resamplePoly lib f32 1 3
      else if tgtSr = 0 then none
      else if srcSr.fmod tgtSr = 0 then resamplePoly lib f32 1 (srcSr.fdiv tgtSr)
      else resampleOther lib tgtSr f32 srcSr
    else resampleOther lib tgtSr f32 srcSr).map lib.nanToNum

/-- `_resample_to_16k` -/
def resampleTo16k (tgtSr : Int) (f32 : List α) (srcSr : Int) : Option (List α) :=
  if f32.isEmpty then some f32
  else
    (resampleCpuTo16k lib tgtSr f32 srcSr).map fun y =>
      match lib.agc with
      | some agc => if y.isEmpty then y else agc y
      | none => y

end VTranser.Server

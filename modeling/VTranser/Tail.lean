import VTranser.Sentences

/-!
# Trimming a long text to its end

The service worker bounds the stable texts it relays, the overlay the texts it
keeps, and both do it with the same code: cut to the last `maxChars` code units,
then move the cut right to the first sentence start within 180 units, or to the
first blank that is near.
-/

namespace VTranser

open Regex

/-- `n | 0` of an integer: its low 32 bits, read as signed. -/
def toInt32 (n : Int) : Int := n.bmod (2 ^ 32)

/-- `/[.!?…]\s+/` -/
def boundaryRe : Re UInt16 :=
  .seq (.cls (termSym UInt16.toNat)) (.plus (onUnit jsSpace))

/-- `s.indexOf(" ", start)`, when there is a blank. -/
def indexOfBlank (s : JsStr) (start : Nat) : Option Nat :=
  ((s.drop start).findIdx? (· == 0x20)).map (start + ·)

def trimTail (s : JsStr) (maxChars : Int) : JsStr :=
  let n := toInt32 maxChars
  if n ≤ 0 ∨ (s.length : Int) ≤ n then s
  else
    let start := s.length - n.toNat
    match search boundaryRe.read ((s.drop start).take 180) with
    | some (skipped, m, _) => s.drop (start + (skipped.length + m.length))
    | none =>
        match indexOfBlank s start with
        | some ws => if start < ws ∧ ws - start < 100 then s.drop (ws + 1) else s.drop start
        | none => s.drop start

/-- `tailForLayout` of the overlay. -/
def Overlay.tailForLayout (text : JsStr) (maxChars : Int) : JsStr := trimTail text maxChars

theorem trimTail_suffix (s : JsStr) (maxChars : Int) : trimTail s maxChars <:+ s := by
  simp only [trimTail]
  split
  · exact List.suffix_refl s
  · split
    · exact List.drop_suffix _ _
    · split
      · split <;> exact List.drop_suffix _ _
      · exact List.drop_suffix _ _

end VTranser

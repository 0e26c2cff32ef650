import Mathlib.Algebra.Order.Field.Rat
import Mathlib.Data.List.DropRight
import VTranser.Lib.Regex
import VTranser.Lib.Utf16
import VTranser.Lib.Words

/-!
# Texts on the two sides

The two Python programs hold texts as code points, the browser scripts as
UTF-16 code units. Their character classes are written as code point numbers
here, so that one class serves both; what differs is what each calls white
space, and where `$` matches.
-/

namespace VTranser

open Regex

/-- A text of the Python programs. -/
abbrev PyStr := List Char

/-- A text of the browser scripts. -/
abbrev JsStr := List UInt16

instance : LawfulBEq JsStr := inferInstance

/-- A text as it arrives in the browser. -/
abbrev PyStr.toJs (s : PyStr) : JsStr := Utf16.utf16 s

/-- The white space of `str.isspace`, `str.split`, `str.strip` and of `\s` in
the `re` module. -/
def pySpace (n : Nat) : Bool :=
  (0x09 ≤ n && n ≤ 0x0D) || (0x1C ≤ n && n ≤ 0x20) || (0x2000 ≤ n && n ≤ 0x200A) ||
    [0x85, 0xA0, 0x1680, 0x2028, 0x2029, 0x202F, 0x205F, 0x3000].contains n

/-- The white space of `\s` in a JavaScript pattern. -/
def jsSpace (n : Nat) : Bool :=
  (0x09 ≤ n && n ≤ 0x0D) || n == 0x20 || (0x2000 ≤ n && n ≤ 0x200A) ||
    [0xA0, 0x1680, 0x2028, 0x2029, 0x202F, 0x205F, 0x3000, 0xFEFF].contains n

/-- A code point class read on Python characters. -/
def onChar (p : Nat → Bool) (c : Char) : Bool := p c.toNat

/-- A code point class read on code units. -/
def onUnit (p : Nat → Bool) (u : UInt16) : Bool := p u.toNat

/-- The terminators `[.!?…]`. -/
def isTerm (n : Nat) : Bool := [0x2E, 0x21, 0x3F, 0x2026].contains n

/-- `$` in a JavaScript pattern without flags: the end of the text. -/
def jsEnd : Re UInt16 := .eos

/-- `$` in a Python pattern without flags: the end of the text, or just before
a newline that ends it. -/
def pyEnd : Re Char :=
  .alt .eos (.look (.seq (.cls (onChar (· == 0x0A))) .eos))

/-- `str.split()`: the maximal runs without white space. -/
def pySplit (s : PyStr) : List PyStr := Words.words (onChar pySpace) s

/-- `str.strip()`. -/
def pyStrip (s : PyStr) : PyStr :=
  (s.dropWhile (onChar pySpace)).rdropWhile (onChar pySpace)

/-- A text of the browser scripts, written down. -/
def jsText (s : String) : JsStr := PyStr.toJs s.toList

/-- `s.trim()` of a browser script. -/
def jsTrim (s : JsStr) : JsStr :=
  (s.dropWhile (onUnit jsSpace)).rdropWhile (onUnit jsSpace)

theorem jsTrim_jsTrim (s : JsStr) : jsTrim (jsTrim s) = jsTrim s := by
  -- What begins where the blanks end has none in front.
  have hdrop : ∀ t, t <+: s.dropWhile (onUnit jsSpace) → t.dropWhile (onUnit jsSpace) = t := by
    intro t hpre
    rw [List.dropWhile_eq_self_iff]
    intro hlen hspace
    rw [hpre.getElem] at hspace
    have hhead := List.dropWhile_eq_self_iff.mp (List.dropWhile_idempotent (onUnit jsSpace) s)
    exact hhead (hlen.trans_le hpre.length_le) hspace
  rw [jsTrim, jsTrim, hdrop _ (List.rdropWhile_prefix _ _), List.rdropWhile_idempotent]

/-- A text without blanks has none to trim. -/
theorem jsTrim_eq_self {s : JsStr} (h : ∀ u ∈ s, onUnit jsSpace u = false) : jsTrim s = s := by
  have hfront : s.dropWhile (onUnit jsSpace) = s := by
    rw [List.dropWhile_eq_self_iff]
    intro hlen
    simp [h _ (List.getElem_mem hlen)]
  rw [jsTrim, hfront, List.rdropWhile_eq_self_iff]
  intro hne
  simp [h _ (List.getLast_mem hne)]

/-- `a || b` on strings. -/
def orText (a b : JsStr) : JsStr := if a.isEmpty then b else a

end VTranser

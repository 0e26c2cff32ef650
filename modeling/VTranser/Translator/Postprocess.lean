import Mathlib.Data.List.SplitBy
import VTranser.Translator.Text

/-!
# Cleaning up a translation

A model that loses its way says the same words over and over. The clean-up of a
translation shortens runs of a token, and a text that begins with a few tokens
repeated often becomes these few.

`str.lower` knows all of Unicode and is a parameter.
-/

namespace VTranser.Translator

/-- `re.sub` of a run of a mark of `marks` that is longer than `most`: as many of it as
may stay. -/
def capMarks (marks : List Char) (most : Nat) (s : PyStr) : PyStr :=
  (s.splitBy (· == ·)).flatMap fun run =>
    if marks.contains (run.headD ' ') then run.take most else run

/-- `_collapse_consecutive_tokens` -/
def collapseConsecutiveTokens (strLower : PyStr → PyStr) (maxKeep : Nat) :
    List PyStr → List PyStr
  | [] => []
  | ti :: tokens =>
      let cnt := (tokens.takeWhile fun t => strLower t == strLower ti).length + 1
      List.replicate (min cnt maxKeep) ti ++
        collapseConsecutiveTokens strLower maxKeep
          (tokens.dropWhile fun t => strLower t == strLower ti)
termination_by tokens => tokens.length
decreasing_by
  have hle := List.length_dropWhile_le (fun t => strLower t == strLower ti) tokens
  rw [List.length_cons]
  omega

/-- The `while` loop of `_collapse_repeated_patterns`: how often the tokens begin with
the pattern, one after the other. -/
def patternReps (pattern tokens : List PyStr) : Nat :=
  if h : 0 < pattern.length ∧ pattern <+: tokens then
    patternReps pattern (tokens.drop pattern.length) + 1
  else 0
termination_by tokens.length
decreasing_by
  have hle := h.2.length_le
  rw [List.length_drop]
  omega

/-- The `for` loop of `_collapse_repeated_patterns`: the length of the pattern. -/
def repeatedPattern (maxPatLen minReps : Nat) (tokens : List PyStr) : Option Nat :=
  (List.range' 1 maxPatLen).find? fun p =>
    decide (p * minReps ≤ tokens.length) && decide (minReps ≤ patternReps (tokens.take p) tokens)

/-- `_collapse_repeated_patterns` -/
def collapseRepeatedPatterns (maxPatLen minReps : Nat) (tokens : List PyStr) : List PyStr :=
  if tokens.length < max 8 (minReps * 2) then tokens
  else
    match repeatedPattern maxPatLen minReps tokens with
    | some p => tokens.take p
    | none => tokens

/-- What `_postprocess_vi` makes of the tokens of a text. -/
def collapseTokens (strLower : PyStr → PyStr) (isDraft : Bool) (tokens : List PyStr) :
    List PyStr :=
  collapseRepeatedPatterns 4 4
    (collapseConsecutiveTokens strLower (if isDraft then 1 else 2) tokens)

/-- `_postprocess_vi` -/
def postprocessVi (strLower : PyStr → PyStr) (text : PyStr) (maxChars : Option Nat)
    (isDraft : Bool) : PyStr :=
  let t := pyStrip text
  if t.isEmpty then []
  else
    let t := pyStrip (subSpaces false t)
    let t := capMarks ['-'] 3 (capMarks ['…'] 1 (capMarks ['.'] 2 (capMarks ['!', '?'] 3 t)))
    let tokens := pySplit t
    let t :=
      if tokens.isEmpty then t
      else pyStrip ([' '].intercalate (collapseTokens strLower isDraft tokens))
    match maxChars with
    | some n => if n ≠ 0 ∧ n < t.length then (t.take n).rdropWhile (onChar pySpace) else t
    | none => t

end VTranser.Translator

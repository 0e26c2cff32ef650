import VTranser.Translator.Text

/-!
# Holding back the last words

When the translator is not in strict mode, the last words of a text wait until
more has come, or until it is released. How many depends on how the text ends.

`str.lower` is a table of the language and a parameter.
-/

namespace VTranser.Translator

structure DelayConfig where
  text : TextConfig
  lower : PyStr → PyStr
  adaptive : Bool
  delayWords : Nat
  wordsMin : Nat
  wordsMax : Nat
  punctDiscount : Nat
  stopwordBonus : Nat
  segMinWords : Nat

/-- The settings when nothing is configured, with the letters of English. -/
def defaultDelay : DelayConfig where
  text := ⟨Char.isAlphanum, false⟩
  lower := lower
  adaptive := true
  delayWords := 2
  wordsMin := 0
  wordsMax := 4
  punctDiscount := 2
  stopwordBonus := 1
  segMinWords := 3

/-- `str.lstrip` -/
def lstrip (s : PyStr) : PyStr := s.dropWhile (onChar pySpace)

/-- `str.rstrip` -/
def rstrip (s : PyStr) : PyStr := s.rdropWhile (onChar pySpace)

/-- `_PUNCT_END` -/
def punctEnd : List Char := ['.', '!', '?', '…', ';', ':']

/-- `_STRIP_PUNCT` -/
def stripPunct : List Char := " ,.;:!?…\"'()[]\x7b\x7d<>“”‘’".toList

/-- `_DRAFT_TRAIL_STOPWORDS` -/
def draftTrailStopwords : List PyStr :=
  ["with", "to", "of", "and", "but", "or", "so", "for", "from", "in", "on", "at", "into", "about",
    "as", "by", "than", "then", "that", "which", "who", "whom", "because", "while", "when",
    "where", "if", "though", "although", "before", "after"].map String.toList

/-- The spans of `re.finditer(r"\S+", s)`, from a position on; a span may have begun. -/
def spansFrom : Nat → Option Nat → PyStr → List (Nat × Nat)
  | _, none, [] => []
  | pos, some start, [] => [(start, pos)]
  | pos, none, c :: cs =>
      if onChar pySpace c then spansFrom (pos + 1) none cs
      else spansFrom (pos + 1) (some pos) cs
  | pos, some start, c :: cs =>
      if onChar pySpace c then (start, pos) :: spansFrom (pos + 1) none cs
      else spansFrom (pos + 1) (some start) cs

def spans (s : PyStr) : List (Nat × Nat) := spansFrom 0 none s

def slice (s : PyStr) (span : Nat × Nat) : PyStr := (s.take span.2).drop span.1

/-- Where the `need`-th of the words begins, which come last first. -/
def cutBefore (cfg : TextConfig) (s : PyStr) : Nat → List (Nat × Nat) → Option Nat
  | _, [] => none
  | need, tok :: toks =>
      if hasAlnum cfg (slice s tok) then
        if need ≤ 1 then some tok.1 else cutBefore cfg s (need - 1) toks
      else cutBefore cfg s need toks

/-- `_drop_last_n_word_tokens` -/
def dropLastNWordTokens (cfg : TextConfig) (s : PyStr) (nWords : Nat) : PyStr × PyStr :=
  if nWords = 0 then (rstrip s, [])
  else
    match cutBefore cfg s nWords (spans s).reverse with
    | none => ([], pyStrip s)
    | some cut => (rstrip (s.take cut), lstrip (s.drop cut))

/-- `str.strip(_STRIP_PUNCT)` -/
def stripAll (s : PyStr) : PyStr :=
  (s.dropWhile (stripPunct.contains ·)).rdropWhile (stripPunct.contains ·)

/-- `_tail_last_lexeme` -/
def tailLastLexeme (cfg : DelayConfig) (s : PyStr) : PyStr :=
  match (pySplit s).getLast? with
  | none => []
  | some tok => cfg.lower (stripAll tok)

/-- `_adaptive_delay_words` -/
def adaptiveDelayWords (cfg : DelayConfig) (fullNorm : PyStr) : Nat :=
  let t := pyStrip fullNorm
  match t.getLast? with
  | none => 0
  | some endCh =>
      if !cfg.adaptive then cfg.delayWords
      else if wordCount t ≤ 1 then 0
      else
        let wc := wordCount t
        let hold :=
          if punctEnd.contains endCh then cfg.delayWords - cfg.punctDiscount
          else if [',', ';', ':'].contains endCh then cfg.delayWords - 1
          else
            let tail := tailLastLexeme cfg t
            let hold := cfg.delayWords + 1 +
              if !tail.isEmpty && draftTrailStopwords.contains tail then cfg.stopwordBonus else 0
            if wc ≤ max 3 cfg.segMinWords then min hold 2 else hold
        let hold := max cfg.wordsMin (min cfg.wordsMax hold)
        min hold (wc - if punctEnd.contains endCh then 0 else 1)

/-- `_apply_delay_words` -/
def applyDelayWords (cfg : DelayConfig) (fullNorm : PyStr) (forceRelease : Bool) : PyStr :=
  let t := pyStrip fullNorm
  if t.isEmpty then []
  else if forceRelease then t
  else
    let holdWords := adaptiveDelayWords cfg t
    if holdWords = 0 then t else pyStrip (dropLastNWordTokens cfg.text t holdWords).1

end VTranser.Translator

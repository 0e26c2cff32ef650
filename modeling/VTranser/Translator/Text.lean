import VTranser.Text

/-!
# The translator's texts

Every text the translator looks at has been through `normSpaces`: single blanks
between words, none before a punctuation mark or at either end, no long run of
dots, and, when `FIX_BROKEN_WORDS` is set, a few words put together again. The
passes are the source's, each a recursion over the text.

`splitCompleteSentencesText` cuts such a text with a pattern that ends a
sentence as early as it can, so where a sentence ends does not depend on what
comes after the blank that follows it.

What counts as a letter or digit (`str.isalnum`) is a table of the language
and a parameter here.
-/

namespace VTranser.Translator

open Regex

structure TextConfig where
  isalnum : Char → Bool
  fixBrokenWords : Bool

/-! ## Normalizing -/

/-- `_WS.sub(" ", s)`; the flag says that a run of white space is going on. -/
def subSpaces : Bool → PyStr → PyStr
  | _, [] => []
  | inRun, c :: cs =>
      if onChar pySpace c then
        if inRun then subSpaces true cs else ' ' :: subSpaces true cs
      else c :: subSpaces false cs

/-- `[,.;:!?…]` -/
def noBlankBefore : List Char := [',', '.', ';', ':', '!', '?', '…']

/-- Whether the next character that is not white space takes no blank before it. -/
def punctNext (cs : PyStr) : Bool :=
  match cs.dropWhile (onChar pySpace) with
  | [] => false
  | d :: _ => noBlankBefore.contains d

/-- `_SPACE_BEFORE_PUNCT.sub(r"\1", s)` -/
def subBlankBeforePunct : PyStr → PyStr
  | [] => []
  | c :: cs =>
      if onChar pySpace c && punctNext cs then subBlankBeforePunct cs
      else c :: subBlankBeforePunct cs

/-- `_MULTI_DOTS.sub("...", s)`; the number counts the dots just before. -/
def subMultiDots : Nat → PyStr → PyStr
  | _, [] => []
  | n, c :: cs =>
      if c = '.' then
        if 3 ≤ n then subMultiDots n cs else '.' :: subMultiDots (n + 1) cs
      else c :: subMultiDots 0 cs

/-- `_BROKEN_WORD_WHITELIST` -/
def brokenWordWhitelist : List ((PyStr × PyStr) × PyStr) :=
  [(("a".toList, "mazing".toList), "amazing".toList), (("b".toList, "usy".toList), "busy".toList),
    (("ti".toList, "red".toList), "tired".toList), (("qui".toList, "et".toList), "quiet".toList),
    (("a".toList, "fternoon".toList), "afternoon".toList),
    (("to".toList, "day".toList), "today".toList)]

/-- `str.lower` on the letters the whitelist has. -/
def lower (s : PyStr) : PyStr := s.map Char.toLower

/-- `str.istitle` of a word that is one of the whitelist's up to case. -/
def isTitle : PyStr → Bool
  | [] => false
  | c :: cs => c.isUpper && cs.all Char.isLower

/-- `str.title` of a word in lower case. -/
def title : PyStr → PyStr
  | [] => []
  | c :: cs => c.toUpper :: cs

/-- The word two neighbours are the halves of. -/
def repaired (x y : PyStr) : Option PyStr :=
  (brokenWordWhitelist.lookup (lower x, lower y)).map fun rep =>
    if isTitle x then title rep else rep

/-- The loop of `_fix_broken_words_whitelist`. -/
def fixTokens : List PyStr → List PyStr
  | x :: y :: rest =>
      match repaired x y with
      | some rep => rep :: fixTokens rest
      | none => x :: fixTokens (y :: rest)
  | ts => ts

def fixBrokenWordsWhitelist (s : PyStr) : PyStr :=
  let toks := pySplit s
  if toks.length < 2 then s else [' '].intercalate (fixTokens toks)

/-- `_norm_spaces` -/
def normSpaces (cfg : TextConfig) (s : PyStr) : PyStr :=
  let s := s.map fun c => if c = '\r' then ' ' else c
  let s := s.map fun c => if c = '\n' then ' ' else c
  let s := pyStrip (subSpaces false s)
  if s.isEmpty then []
  else
    let s := subMultiDots 0 (subBlankBeforePunct s)
    if cfg.fixBrokenWords then fixBrokenWordsWhitelist s else s

/-! ## Words and punctuation -/

/-- `_has_alnum` -/
def hasAlnum (cfg : TextConfig) (s : PyStr) : Bool := s.any cfg.isalnum

/-- `_is_punct_only` -/
def isPunctOnly (cfg : TextConfig) (s : PyStr) : Bool :=
  let s := pyStrip s
  !s.isEmpty && !hasAlnum cfg s

/-- `_word_count` -/
def wordCount (s : PyStr) : Nat := (pySplit s).length

/-- `_join_vi`; the source's two cases for the last character, punctuation or
not, give the same text. -/
def joinVi (prevVi newVi : PyStr) : PyStr :=
  let newVi := pyStrip newVi
  if newVi.isEmpty then []
  else
    match prevVi.getLast? with
    | none => newVi ++ [' ']
    | some prevLast =>
        if onChar pySpace prevLast then newVi ++ [' ']
        else ' ' :: newVi ++ [' ']

/-- `_join_text_parts` -/
def joinTextParts (base piece : PyStr) : PyStr :=
  let b := pyStrip base
  let p := pyStrip piece
  if b.isEmpty then p
  else
    match p with
    | [] => b
    | c :: _ => if ".,!?;:)]\"'".toList.contains c then b ++ p else b ++ ' ' :: p

/-! ## Sentences -/

/-- `["')\]]` -/
def isClosing (n : Nat) : Bool := [0x22, 0x27, 0x29, 0x5D].contains n

/-- Group 1 of `SENTENCE_SPLIT_RE`: `.+?(?:[.!?]|…)+(?:["')\]]+)?` -/
def sentenceBody : Re Char :=
  .seq (.lazyPlus fun c => c != '\n')
    (.seq (.plus (onChar isTerm)) (.opt (.plus (onChar isClosing))))

/-- Group 2 of `SENTENCE_SPLIT_RE`: `$|\s+` -/
def sentenceSep : Re Char := .alt pyEnd (.plus (onChar pySpace))

/-- `_split_complete_sentences_text`: the complete sentences and the tail. -/
def splitCompleteSentencesText (cfg : TextConfig) (text : PyStr) : List PyStr × PyStr :=
  let t := normSpaces cfg text
  if t.isEmpty then ([], [])
  else
    let out := scan (readPair sentenceBody sentenceSep) t
    let sents := (out.1.map fun h => normSpaces cfg h.value.1).filter fun s => !s.isEmpty
    let rest := match out.1.getLast? with
      | none => t
      | some h => h.value.2 ++ out.2
    (sents, normSpaces cfg rest)

end VTranser.Translator

import VTranser.Text

/-!
# Splitting a transcript into sentences

The transcript writer of the server, the overlay and the in-page panel each cut
a text into sentences with the same loop over the same pattern: a stretch
without terminators, a run of terminators, closing quotes, and then blanks or
the end of the text. The pattern is one definition over what differs between
the languages, the white space of `\s` and the meaning of `$`.
-/

namespace VTranser

open Regex

/-- The closing quotes `["”’']`. -/
def isCloser (n : Nat) : Bool := [0x22, 0x201D, 0x2019, 0x27].contains n

section

variable {α : Type*} (code : α → Nat)

/-- A terminator symbol. -/
def termSym (c : α) : Bool := isTerm (code c)

/-- A closing quote symbol. -/
def closerSym (c : α) : Bool := isCloser (code c)

/-- `[^.!?…]*[.!?…]+(?:["”’']+)?(?:\s+|$)` -/
def sentRe (space : α → Bool) (fin : Re α) : Re α :=
  .seq (.star fun c => !termSym code c)
    (.seq (.plus (termSym code))
      (.seq (.opt (.plus (closerSym code)))
        (.alt (.plus space) fin)))

end

/-- The sentences a pattern finds, and the text after the last of them. -/
def splitWith {α : Type*} (r : Re α) (text : List α) : List (List α) × List α :=
  let out := scan r.read text
  (out.1.map Hit.value, out.2)

/-- `SENT_RE` of the server. -/
def Server.sentRe : Re Char := VTranser.sentRe Char.toNat (onChar pySpace) pyEnd

/-- `split_sentences_and_tail` of the server. -/
def Server.splitSentencesAndTail (text : PyStr) : List PyStr × PyStr :=
  splitWith Server.sentRe text

/-- `splitSentencesAndTail` of the overlay. -/
def Overlay.splitSentencesAndTail (text : JsStr) : List JsStr × JsStr :=
  splitWith (sentRe UInt16.toNat (onUnit jsSpace) jsEnd) text

/-- `splitSentencesAndTail` of the in-page panel. -/
def Panel.splitSentencesAndTail (text : JsStr) : List JsStr × JsStr :=
  splitWith (sentRe UInt16.toNat (onUnit jsSpace) jsEnd) text

end VTranser

import VTranser.Text
import VTranser.Lib.EndPatch

/-!
# Emitting a patch, whole or in micro deltas

`emitPatchInsertChunked` sends one patch of the server. With micro deltas off,
or when there is nothing to insert, it is one message. With micro deltas on,
the text is cut into token units by a pattern and the units are packed greedily
into chunks; every chunk is a message with the sequence number of the patch,
and only the first one carries the delete.

The pattern needs the Unicode tables of the `regex` package when that package
is there, and falls back to Latin letters when it is not. Both are one
definition over the two classes they differ in, `TokenClasses`.
-/

namespace VTranser.Server

open Regex EndPatch

/-- The two classes the tokenizer takes from its regular expression package. -/
structure TokenClasses where
  word : Nat → Bool
  space : Nat → Bool

/-- `[A-Za-zÀ-ÖØ-öø-ÿ0-9’'_]` and `\s`, as the `re` fallback has them. -/
def reClasses : TokenClasses where
  word n :=
    (0x41 ≤ n && n ≤ 0x5A) || (0x61 ≤ n && n ≤ 0x7A) || (0xC0 ≤ n && n ≤ 0xD6) ||
      (0xD8 ≤ n && n ≤ 0xF6) || (0xF8 ≤ n && n ≤ 0xFF) || (0x30 ≤ n && n ≤ 0x39) ||
      [0x2019, 0x27, 0x5F].contains n
  space := pySpace

/-- `[.,!?…;:]` -/
def tokenPunct (n : Nat) : Bool :=
  [0x2E, 0x2C, 0x21, 0x3F, 0x2026, 0x3B, 0x3A].contains n

/-- `["“”()–—-]` -/
def tokenMark (n : Nat) : Bool :=
  [0x22, 0x201C, 0x201D, 0x28, 0x29, 0x2013, 0x2014, 0x2D].contains n

/-- Group 1 of `_TK`. -/
def tkCore (k : TokenClasses) : Re Char :=
  .alt (.plus (onChar k.word)) (.alt (.plus (onChar tokenPunct)) (.cls (onChar tokenMark)))

/-- Group 2 of `_TK`. -/
def tkBlank (k : TokenClasses) : Re Char := .star (onChar k.space)

/-- `_token_units`: the token with its blanks, and the token alone. -/
def tokenUnits (k : TokenClasses) (s : PyStr) : List (PyStr × PyStr) :=
  (scan (readPair (tkCore k) (tkBlank k)) s).1.map fun h =>
    (h.value.1 ++ h.value.2, h.value.1)

/-- A `patch` message. -/
structure PatchMsg where
  delete : Nat
  insert : PyStr
  seq : Nat
  tMs : Int
  deriving DecidableEq, Repr

/-- The environment knobs `UI_MICRO_DELTA_*`. -/
structure UiConfig where
  microDeltaEnable : Bool
  microDeltaMaxChars : Int
  microDeltaMinSliceChars : Int

def UiConfig.maxc (cfg : UiConfig) : Int := max 8 cfg.microDeltaMaxChars

def UiConfig.minc (cfg : UiConfig) : Int := max 1 (min cfg.microDeltaMinSliceChars cfg.maxc)

/-- The locals of the packing loop. -/
structure ChunkState where
  buf : List (PyStr × PyStr)
  curLen : Nat
  first : Bool
  sent : List PatchMsg

def joinEmits (buf : List (PyStr × PyStr)) : PyStr := buf.flatMap Prod.fst

/-- One unit of the packing loop: send the buffer when this unit no longer fits
and the buffer is long enough, then go on with the unit. -/
def chunkStep (cfg : UiConfig) (deleteChars seq : Nat) (tMs : Int) (st : ChunkState)
    (u : PyStr × PyStr) : ChunkState :=
  let l := u.1.length
  if !st.buf.isEmpty && decide ((st.curLen : Int) + l > cfg.maxc) &&
      decide ((st.curLen : Int) ≥ cfg.minc) then
    { buf := [u], curLen := l, first := false,
      sent := st.sent ++ [⟨if st.first then deleteChars else 0, joinEmits st.buf, seq, tMs⟩] }
  else { st with buf := st.buf ++ [u], curLen := st.curLen + l }

/-- `_emit_patch_insert_chunked`: the messages it sends, in order. -/
def emitPatchInsertChunked (cfg : UiConfig) (k : TokenClasses) (deleteChars : Nat)
    (insertText : PyStr) (seq : Nat) (tMs : Int) : List PatchMsg :=
  if insertText.isEmpty then
    if deleteChars ≠ 0 then [⟨deleteChars, [], seq, tMs⟩] else []
  else if !cfg.microDeltaEnable then [⟨deleteChars, insertText, seq, tMs⟩]
  else
    let st := (tokenUnits k insertText).foldl (chunkStep cfg deleteChars seq tMs)
      ⟨[], 0, true, []⟩
    if st.buf.isEmpty then st.sent
    else st.sent ++ [⟨if st.first then deleteChars else 0, joinEmits st.buf, seq, tMs⟩]

/-- One patch cut into the given pieces: the delete goes with the first. -/
def cutMsgs (deleteChars seq : Nat) (tMs : Int) : List PyStr → List PatchMsg
  | [] => []
  | p :: ps => ⟨deleteChars, p, seq, tMs⟩ :: ps.map fun q => ⟨0, q, seq, tMs⟩

/-- What the messages do to a text, one after the other. -/
def applyMsgs (text : PyStr) (ms : List PatchMsg) : PyStr :=
  applyAll text (ms.map fun m => (m.delete, m.insert))

end VTranser.Server

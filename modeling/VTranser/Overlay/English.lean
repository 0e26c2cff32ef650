import VTranser.Worker.Relay

/-!
# The English text of the overlay

Patches are queued as operations and applied at the next animation frame; a
stable text is looked at when it arrives, after what is queued. The state also
keeps the highest sequence number seen of each kind, and drops what is not above
it. Texts that reach the display are left out, as nothing reads them back.
-/

namespace VTranser.Overlay

/-- An operation of `opsEN`. -/
structure Op where
  del : Int
  ins : JsStr
  deriving DecidableEq, Repr

structure English where
  fullText : JsStr
  scheduled : Bool
  ops : List Op
  lastPatchSeq : Int
  lastStableSeq : Int

def English.init : English := ⟨[], false, [], -1, -1⟩

/-- `enqueueOpEN`; a number that a message does not carry is `none`. -/
def enqueueOpEN (delN : Int) (ins : JsStr) (seq : Option Int) (st : English) : English :=
  let del := toInt32 delN
  match seq with
  | some s =>
      if s ≤ st.lastPatchSeq then st
      else { st with lastPatchSeq := s, ops := st.ops ++ [⟨del, ins⟩], scheduled := true }
  | none => { st with ops := st.ops ++ [⟨del, ins⟩], scheduled := true }

def applyOneOp (text : JsStr) (op : Op) : JsStr :=
  let out := if 0 < op.del then
      if op.del ≥ text.length then [] else text.take (text.length - op.del.toNat)
    else text
  out ++ op.ins

/-- The limit test on `EN_STATE_MAX_CHARS`. -/
def boundEN (maxChars : Int) (text : JsStr) : JsStr :=
  if 0 < maxChars ∧ (text.length : Int) > maxChars then tailForLayout text maxChars else text

def flushEN (enStateMaxChars : Int) (st : English) : English :=
  if st.ops.isEmpty then { st with scheduled := false }
  else
    { st with
      fullText := boundEN enStateMaxChars (st.ops.foldl applyOneOp st.fullText)
      ops := [], scheduled := false }

/-- Whether a stable text replaces the shown one: it is no shorter, or a prefix
of it, or shorter by more than 24. -/
def adoptsStable (stable shown : JsStr) : Bool :=
  stable.length ≥ shown.length || stable.isPrefixOf shown ||
    shown.length - stable.length > 24

def applyStableEN (enStateMaxChars : Int) (full : JsStr) (seq : Option Int) (st : English) :
    English :=
  let stable := boundEN enStateMaxChars full
  let settle (st : English) : English :=
    let st := if st.scheduled then flushEN enStateMaxChars st else st
    if stable = st.fullText then st
    else if adoptsStable stable st.fullText then { st with fullText := stable }
    else st
  match seq with
  | some s => if s ≤ st.lastStableSeq then st else settle { st with lastStableSeq := s }
  | none => settle st

/-- The `stable` branch of `handleMessage`. -/
def handleStable (enStateMaxChars : Int) (msg : Worker.StableRelay) (st : English) : English :=
  applyStableEN enStateMaxChars (msg.full.getD msg.payload.full) (some msg.payload.seq) st

end VTranser.Overlay

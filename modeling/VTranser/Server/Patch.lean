import VTranser.Server.MicroDelta

/-!
# The transcript state of the server

The recognizer calls back with a whole text each time it hears more
(`patchFromModelText`) and with a stable text when it is sure of one
(`onStableCb`). The first goes through a stabilizer, which decides what text to
show, and the difference to what was shown last goes out as an end patch; the
second replaces what was shown and goes out whole. Both move `lastEmitted`, the
text the next patch is computed against.

Clock readings are inputs. Of the warm-up only its test is one, and the interval
between patches is already in milliseconds.
-/

namespace VTranser.Server

open EndPatch

/-- `_norm_spaces` -/
def normSpaces (s : PyStr) : PyStr := [' '].intercalate (pySplit (pyStrip s))

/-- The characters of `_TRAIL_PUNCT`. -/
def trailPunct : List Char := " \t\r\n.,!?;:".toList

/-- `_strip_trailing_punct` -/
def stripTrailingPunct (s : PyStr) : PyStr := s.rdropWhile (trailPunct.contains ·)

/-- `_make_end_patch`: how much to delete, what to insert, and what is kept. -/
def makeEndPatch (old new : PyStr) : Nat × PyStr × Nat :=
  let c := lcpLen old new
  (old.length - c, new.drop c, c)

/-! ## The stabilizer -/

inductive StabilizerAction
  | append | rewrite | ignore | noop
  deriving DecidableEq, Repr

structure StabilizerDecision where
  action : StabilizerAction
  shown : PyStr
  raw : PyStr
  rollbackChars : Nat
  lcp : Nat
  pending : Option PyStr
  pendingCount : Nat

/-- The knobs of the stabilizer as its constructor keeps them: one confirmation
at least, nothing negative. -/
structure TranscriptStabilizer where
  rewriteConfirmN : Nat
  maxRollbackChars : Nat
  minRewriteIntervalMs : Nat
  ignoreShrink : Bool
  allowPunctStripAppend : Bool
  shown : PyStr
  pending : Option PyStr
  pendingCount : Nat
  lastRewriteMs : Int

namespace TranscriptStabilizer

/-- `__init__` -/
def new (rewriteConfirmN maxRollbackChars minRewriteIntervalMs : Int)
    (ignoreShrink allowPunctStripAppend : Bool) : TranscriptStabilizer where
  rewriteConfirmN := (max 1 rewriteConfirmN).toNat
  maxRollbackChars := (max 0 maxRollbackChars).toNat
  minRewriteIntervalMs := (max 0 minRewriteIntervalMs).toNat
  ignoreShrink := ignoreShrink
  allowPunctStripAppend := allowPunctStripAppend
  shown := []
  pending := none
  pendingCount := 0
  lastRewriteMs := 0

def reset (st : TranscriptStabilizer) (shown : PyStr) : TranscriptStabilizer :=
  { st with shown := normSpaces shown, pending := none, pendingCount := 0, lastRewriteMs := 0 }

/-- A decision that reports the state it leaves. -/
def decide (st : TranscriptStabilizer) (action : StabilizerAction) (raw : PyStr)
    (rollback lcp : Nat) : StabilizerDecision :=
  ⟨action, st.shown, raw, rollback, lcp, st.pending, st.pendingCount⟩

/-- The last part of `update`: a rewrite counts once it was proposed often
enough, and not too soon after the one before. -/
def rewriteCandidate (st : TranscriptStabilizer) (tms : Int) (raw : PyStr) :
    TranscriptStabilizer × StabilizerDecision :=
  let c := lcpLen st.shown raw
  let rollback := st.shown.length - c
  if rollback > st.maxRollbackChars then (st, st.decide .ignore raw rollback c)
  else if tms - st.lastRewriteMs < st.minRewriteIntervalMs then
    (st, st.decide .ignore raw rollback c)
  else
    let st := if st.pending = some raw then { st with pendingCount := st.pendingCount + 1 }
      else { st with pending := some raw, pendingCount := 1 }
    if st.pendingCount ≥ st.rewriteConfirmN then
      let st := { st with shown := raw, lastRewriteMs := tms, pending := none, pendingCount := 0 }
      (st, st.decide .rewrite raw rollback c)
    else (st, st.decide .ignore raw rollback c)

def update (st : TranscriptStabilizer) (tms : Int) (rawText : PyStr) :
    TranscriptStabilizer × StabilizerDecision :=
  let raw := normSpaces rawText
  if raw = st.shown then (st, st.decide .noop raw 0 st.shown.length)
  else if st.ignoreShrink && (raw.length < st.shown.length && raw.isPrefixOf st.shown) then
    (st, st.decide .ignore raw (st.shown.length - raw.length) raw.length)
  else if st.shown.isPrefixOf raw && st.shown.length < raw.length then
    let st := { st with shown := raw, pending := none, pendingCount := 0 }
    (st, st.decide .append raw 0 st.shown.length)
  else
    let coreShown := stripTrailingPunct st.shown
    if st.allowPunctStripAppend && (coreShown.isPrefixOf (stripTrailingPunct raw) &&
        st.shown.length < raw.length) then
      let st := { st with shown := raw, pending := none, pendingCount := 0 }
      (st, st.decide .append raw 0 coreShown.length)
    else rewriteCandidate st tms raw

end TranscriptStabilizer

/-! ## The two callbacks -/

structure Config where
  stabEnable : Bool
  patchMinIntervalMs : Int
  txtEnable : Bool
  txtSaveDraft : Bool
  txtSaveMinDraftIntervalMs : Int

/-- What goes to the transcript writer. -/
inductive TxtItem
  | draft (text : PyStr) (tMs : Int)
  | stable (full : PyStr) (tMs : Int)
  deriving DecidableEq, Repr

/-- What one call of `_make_end_patch` hands to the emitter. -/
structure Patch where
  delete : Nat
  insert : PyStr
  seq : Nat
  deriving DecidableEq, Repr

/-- A `stable` message. -/
structure StableMsg where
  full : PyStr
  seq : Nat
  tMs : Int
  deriving DecidableEq, Repr

structure State where
  lastEmitted : PyStr
  stableSnapshot : PyStr
  patchSeq : Nat
  stableSeq : Nat
  lastPatchSendMs : Int
  draftLastPushMs : Int
  draftLastText : PyStr
  stabilizer : TranscriptStabilizer

/-- The state when a client has connected. -/
def State.init (stabilizer : TranscriptStabilizer) : State :=
  ⟨[], [], 0, 0, 0, 0, [], stabilizer⟩

/-- The draft saving of `_patch_from_model_text`. -/
def saveDraft (cfg : Config) (nowMs : Int) (shown : PyStr) (st : State) :
    State × List TxtItem :=
  if cfg.txtEnable && cfg.txtSaveDraft &&
      (decide (nowMs - st.draftLastPushMs ≥ max 0 cfg.txtSaveMinDraftIntervalMs) &&
        decide (shown ≠ st.draftLastText)) then
    ({ st with draftLastPushMs := nowMs, draftLastText := shown }, [.draft shown nowMs])
  else (st, [])

/-- `_patch_from_model_text` from the point where the text to show is known. -/
def patchShown (cfg : Config) (nowMs : Int) (shown : PyStr) (st : State) :
    State × Option Patch × List TxtItem :=
  if shown = st.lastEmitted then (st, none, [])
  else if 0 < cfg.patchMinIntervalMs ∧ nowMs - st.lastPatchSendMs < cfg.patchMinIntervalMs then
    let (st, txt) := saveDraft cfg nowMs shown st
    (st, none, txt)
  else
    let (deleteChars, insertText, _) := makeEndPatch st.lastEmitted shown
    let seq := st.patchSeq + 1
    let st := { st with patchSeq := seq, lastPatchSendMs := nowMs, lastEmitted := shown }
    let (st, txt) := saveDraft cfg nowMs shown st
    (st, some ⟨deleteChars, insertText, seq⟩, txt)

/-- What a callback reads besides its argument. -/
structure Clock where
  warming : Bool
  stabMs : Int
  nowMs : Int

/-- `_patch_from_model_text` -/
def patchFromModelText (cfg : Config) (clock : Clock) (rawText : PyStr) (st : State) :
    State × Option Patch × List TxtItem :=
  if clock.warming then (st, none, [])
  else
    let raw := normSpaces rawText
    if raw.isEmpty then (st, none, [])
    else if cfg.stabEnable then
      let (stab, dec) := st.stabilizer.update clock.stabMs raw
      patchShown cfg clock.nowMs dec.shown { st with stabilizer := stab }
    else patchShown cfg clock.nowMs raw st

/-- `_on_stable_cb` -/
def onStableCb (cfg : Config) (clock : Clock) (text : PyStr) (st : State) :
    State × Option StableMsg × List TxtItem :=
  if clock.warming then (st, none, [])
  else
    let t := normSpaces text
    if t.isEmpty then (st, none, [])
    else
      let snapshot := if st.stableSnapshot.length ≤ t.length then t else st.stableSnapshot
      let seq := st.stableSeq + 1
      ({ st with
          stableSnapshot := snapshot, stableSeq := seq, lastEmitted := snapshot,
          lastPatchSendMs := clock.nowMs, stabilizer := st.stabilizer.reset snapshot },
        some ⟨snapshot, seq, clock.stabMs⟩,
        if cfg.txtEnable then [.stable snapshot clock.stabMs] else [])

end VTranser.Server

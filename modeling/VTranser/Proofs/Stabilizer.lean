import VTranser.Server.Patch

/-!
# What the stabilizer keeps to

Between two resets the text shown is left alone or becomes the text that came
in, and what it loses is short or punctuation at its end. A rewrite has been
proposed often enough since the text last changed, and long enough after the
rewrite before.

The last two are about calls that are over, so runs carry them along: which
calls came since the text last changed, and when the rewrites were. The pending
text and its counter outlive the calls that are ignored, which is why the
counter is only a lower bound of how often the text came in.
-/

namespace VTranser.Server

open EndPatch

/-- A call of `update`, with the clock it reads. -/
structure StabCall where
  tms : Int
  rawText : PyStr

/-- The normalized text of a call. -/
def StabCall.raw (c : StabCall) : PyStr := normSpaces c.rawText

namespace TranscriptStabilizer

/-! ## One call -/

/-- What one call can do, with what it says it did. -/
inductive Updated (st : TranscriptStabilizer) (tms : Int) (raw : PyStr) :
    TranscriptStabilizer → StabilizerAction → Prop
  | kept {action} (hno : action ≠ .rewrite) : Updated st tms raw st action
  | appended (hcore : stripTrailingPunct st.shown <+: raw) :
      Updated st tms raw { st with shown := raw, pending := none, pendingCount := 0 } .append
  | proposed {n} (hcount : n = if st.pending = some raw then st.pendingCount + 1 else 1) :
      Updated st tms raw { st with pending := some raw, pendingCount := n } .ignore
  | rewritten
      (hcount : st.rewriteConfirmN ≤ if st.pending = some raw then st.pendingCount + 1 else 1)
      (hloss : st.shown.length - lcpLen st.shown raw ≤ st.maxRollbackChars)
      (hclock : st.lastRewriteMs + st.minRewriteIntervalMs ≤ tms) :
      Updated st tms raw
        { st with shown := raw, lastRewriteMs := tms, pending := none, pendingCount := 0 } .rewrite

theorem rewriteCandidate_cases (st : TranscriptStabilizer) (tms : Int) (raw : PyStr) :
    Updated st tms raw (st.rewriteCandidate tms raw).1 (st.rewriteCandidate tms raw).2.action := by
  rw [rewriteCandidate]
  split
  · exact .kept (by simp [decide])
  · next hloss =>
      split
      · exact .kept (by simp [decide])
      · next hclock =>
          by_cases hpending : st.pending = some raw
          · simp only [hpending, if_true]
            split
            · next hcount =>
                exact .rewritten (by rw [if_pos hpending]; exact hcount) (by omega) (by omega)
            · have h : Updated st tms raw _ _ := .proposed rfl
              rwa [if_pos hpending] at h
          · simp only [hpending, if_false]
            split
            · next hcount =>
                exact .rewritten (by rw [if_neg hpending]; exact hcount) (by omega) (by omega)
            · have h : Updated st tms raw _ _ := .proposed rfl
              rwa [if_neg hpending] at h

theorem stripTrailingPunct_isPrefix (s : PyStr) : stripTrailingPunct s <+: s :=
  List.rdropWhile_prefix _ _

theorem update_cases (st : TranscriptStabilizer) (tms : Int) (rawText : PyStr) :
    Updated st tms (normSpaces rawText) (st.update tms rawText).1
      (st.update tms rawText).2.action := by
  rw [update]
  split
  · exact .kept (by simp [decide])
  · split
    · exact .kept (by simp [decide])
    · split
      · next hpure =>
          simp only [Bool.and_eq_true, List.isPrefixOf_iff_prefix] at hpure
          exact .appended ((stripTrailingPunct_isPrefix _).trans hpure.1)
      · simp only []
        split
        · next hcore =>
            simp only [Bool.and_eq_true, List.isPrefixOf_iff_prefix] at hcore
            exact .appended (hcore.2.1.trans (stripTrailingPunct_isPrefix _))
        · exact rewriteCandidate_cases st tms (normSpaces rawText)

/-- What `old` loses when `new` is shown instead is short, or all punctuation
and blanks. -/
def SmallLoss (maxChars : Nat) (old new : PyStr) : Prop :=
  (old.drop (lcpLen old new)).length ≤ maxChars ∨
    ∀ c ∈ old.drop (lcpLen old new), c ∈ trailPunct

theorem smallLoss_self (maxChars : Nat) (s : PyStr) : SmallLoss maxChars s s := by
  have hle := length_le_lcpLen (List.prefix_refl s) (List.prefix_refl s)
  refine .inl ?_
  rw [List.length_drop]
  omega

/-- With all but the punctuation at its end in common, only that can be lost. -/
theorem smallLoss_of_core {old new : PyStr} (h : stripTrailingPunct old <+: new)
    (maxChars : Nat) : SmallLoss maxChars old new := by
  have hle := length_le_lcpLen (stripTrailingPunct_isPrefix old) h
  have hsplit : stripTrailingPunct old ++ old.rtakeWhile (trailPunct.contains ·) = old :=
    List.rdropWhile_append_rtakeWhile
  have htail : old.drop (stripTrailingPunct old).length =
      old.rtakeWhile (trailPunct.contains ·) := by
    have hdrop : (stripTrailingPunct old ++ old.rtakeWhile (trailPunct.contains ·)).drop
        (stripTrailingPunct old).length = old.rtakeWhile (trailPunct.contains ·) := List.drop_left
    rwa [hsplit] at hdrop
  refine .inr ?_
  intro c hc
  rw [← Nat.add_sub_cancel' hle, ← List.drop_drop, htail] at hc
  have hpunct := List.mem_rtakeWhile_imp (List.mem_of_mem_drop hc)
  exact List.contains_iff_mem.mp hpunct

theorem Updated.shown {st st' : TranscriptStabilizer} {tms : Int} {raw : PyStr}
    {action : StabilizerAction} (h : Updated st tms raw st' action) :
    (st'.shown = st.shown ∨ st'.shown = raw) ∧
      SmallLoss st.maxRollbackChars st.shown st'.shown := by
  cases h with
  | kept => exact ⟨.inl rfl, smallLoss_self _ _⟩
  | appended hcore => exact ⟨.inr rfl, smallLoss_of_core hcore _⟩
  | proposed => exact ⟨.inl rfl, smallLoss_self _ _⟩
  | rewritten _ hloss =>
      refine ⟨.inr rfl, .inl ?_⟩
      rw [List.length_drop]
      exact hloss

/-! ## Runs -/

/-- A stabilizer since its last reset, with the calls since the text shown last
changed and the clock readings of all rewrites. -/
structure Run where
  st : TranscriptStabilizer
  unchanged : List StabCall
  rewrites : List Int

def Run.step (r : Run) (c : StabCall) : Run :=
  let (st, dec) := r.st.update c.tms c.rawText
  { st := st
    unchanged := if st.shown = r.st.shown then r.unchanged ++ [c] else []
    rewrites := if dec.action = .rewrite then r.rewrites ++ [c.tms] else r.rewrites }

/-- The calls after a reset. -/
def run (st : TranscriptStabilizer) (shown : PyStr) (cs : List StabCall) : Run :=
  cs.foldl Run.step ⟨st.reset shown, [], []⟩

/-- How many of the calls came with a text. -/
def timesSeen (cs : List StabCall) (raw : PyStr) : Nat := cs.countP (·.raw = raw)

/-- The counter counts calls that came since the text last changed, and rewrites
keep their distance, the last one noted. -/
structure Run.Inv (st : TranscriptStabilizer) (r : Run) : Prop where
  knobs : r.st.rewriteConfirmN = st.rewriteConfirmN ∧
    r.st.maxRollbackChars = st.maxRollbackChars ∧
      r.st.minRewriteIntervalMs = st.minRewriteIntervalMs
  pending : ∀ raw, r.st.pending = some raw → r.st.pendingCount ≤ timesSeen r.unchanged raw
  apart : r.rewrites.Pairwise fun t t' : Int => t + st.minRewriteIntervalMs ≤ t'
  last : ∀ t ∈ r.rewrites, t ≤ r.st.lastRewriteMs

theorem timesSeen_concat (cs : List StabCall) (c : StabCall) (raw : PyStr) :
    timesSeen (cs ++ [c]) raw = timesSeen cs raw + if c.raw = raw then 1 else 0 := by
  simp [timesSeen, List.countP_append, List.countP_singleton]

/-- With this call, the text has come in as often as the counter will say. -/
theorem Run.Inv.count_le {st : TranscriptStabilizer} {r : Run} (h : r.Inv st) (c : StabCall) :
    (if r.st.pending = some c.raw then r.st.pendingCount + 1 else 1) ≤
      timesSeen (r.unchanged ++ [c]) c.raw := by
  rw [timesSeen_concat, if_pos rfl]
  split
  · next hpending =>
      have hcount := h.pending c.raw hpending
      omega
  · omega

/-- What a step does to the history, along with the call itself. -/
theorem Run.step_cases (r : Run) (c : StabCall) : ∃ st' action,
    Updated r.st c.tms c.raw st' action ∧
      (r.st.update c.tms c.rawText).2.action = action ∧
      r.step c = ⟨st', if st'.shown = r.st.shown then r.unchanged ++ [c] else [],
        if action = .rewrite then r.rewrites ++ [c.tms] else r.rewrites⟩ :=
  ⟨_, _, update_cases r.st c.tms c.rawText, rfl, rfl⟩

theorem timesSeen_mono (cs : List StabCall) (c : StabCall) (raw : PyStr) :
    timesSeen cs raw ≤ timesSeen (cs ++ [c]) raw := by
  rw [timesSeen_concat]
  omega

theorem Run.Inv.step {st : TranscriptStabilizer} {r : Run} (h : r.Inv st) (c : StabCall) :
    (r.step c).Inv st := by
  obtain ⟨st', action, hcases, -, hstep⟩ := r.step_cases c
  obtain ⟨hconfirm, hroll, hinterval⟩ := h.knobs
  rw [hstep]
  cases hcases with
  | kept hno =>
      rw [if_pos rfl, if_neg hno]
      exact ⟨h.knobs, fun raw hraw => (h.pending raw hraw).trans (timesSeen_mono _ c raw),
        h.apart, h.last⟩
  | appended =>
      have hno : StabilizerAction.append ≠ .rewrite := nofun
      rw [if_neg hno]
      exact ⟨h.knobs, nofun, h.apart, h.last⟩
  | proposed hn =>
      have hno : StabilizerAction.ignore ≠ .rewrite := nofun
      rw [if_pos rfl, if_neg hno]
      refine ⟨h.knobs, ?_, h.apart, h.last⟩
      intro raw hraw
      obtain rfl := Option.some.inj hraw
      rw [hn]
      exact h.count_le c
  | rewritten _ _ hclock =>
      have hyes : StabilizerAction.rewrite = .rewrite := rfl
      rw [if_pos hyes]
      refine ⟨h.knobs, nofun, ?_, ?_⟩
      · refine List.pairwise_append.mpr ⟨h.apart, List.pairwise_singleton _ _, ?_⟩
        intro t ht t' ht'
        have hlast := h.last t ht
        rw [List.mem_singleton] at ht'
        omega
      · intro t ht
        show t ≤ c.tms
        rcases List.mem_append.mp ht with ht | ht
        · have hlast := h.last t ht
          omega
        · rw [List.mem_singleton] at ht
          omega

theorem inv_run (st : TranscriptStabilizer) (shown : PyStr) (cs : List StabCall) :
    (st.run shown cs).Inv st := by
  induction cs using List.reverseRecOn with
  | nil => exact ⟨⟨rfl, rfl, rfl⟩, nofun, .nil, nofun⟩
  | append_singleton cs c ih =>
      rw [run, List.foldl_append]
      exact ih.step c

/-- After any calls since a reset, the next one leaves the text alone or shows
the text it came with, losing little; if it rewrites, that text has come in
often enough since the text shown last changed; and all rewrites are far enough
apart. The clock may even run backwards. -/
theorem stabilizer_guarantees (rewriteConfirmN maxRollbackChars minRewriteIntervalMs : Int)
    (ignoreShrink allowPunctStripAppend : Bool) (shown : PyStr) (cs : List StabCall)
    (c : StabCall) :
    let st := new rewriteConfirmN maxRollbackChars minRewriteIntervalMs ignoreShrink
      allowPunctStripAppend
    let r := st.run shown cs
    ((r.step c).st.shown = r.st.shown ∨ (r.step c).st.shown = c.raw) ∧
      SmallLoss st.maxRollbackChars r.st.shown (r.step c).st.shown ∧
      ((r.st.update c.tms c.rawText).2.action = .rewrite →
        (r.step c).st.shown = c.raw ∧
          st.rewriteConfirmN ≤ timesSeen (r.unchanged ++ [c]) c.raw) ∧
      (r.step c).rewrites.Pairwise fun t t' : Int => t + st.minRewriteIntervalMs ≤ t' := by
  intro st r
  have hinv : r.Inv st := inv_run st shown cs
  obtain ⟨st', action, hcases, haction, hstep⟩ := r.step_cases c
  obtain ⟨hconfirm, hroll, -⟩ := hinv.knobs
  have hshown := hcases.shown
  refine ⟨?_, ?_, ?_, (hinv.step c).apart⟩
  · rw [hstep]
    exact hshown.1
  · rw [hstep, ← hroll]
    exact hshown.2
  · intro hrewrite
    rw [haction] at hrewrite
    rw [hstep, ← hconfirm]
    cases hcases with
    | kept hno => exact absurd hrewrite hno
    | appended => cases hrewrite
    | proposed => cases hrewrite
    | rewritten hcount => exact ⟨rfl, hcount.trans (hinv.count_le c)⟩

/-- `Hello` comes in a second time and replaces `Helo`. -/
theorem stabilizer_guarantees_hello :
    let st := new 2 10 300 true true
    let r := st.run "Helo".toList [⟨1000, "Hello".toList⟩]
    (r.st.update 1400 "Hello".toList).2.action = .rewrite ∧
      (r.step ⟨1400, "Hello".toList⟩).st.shown = "Hello".toList ∧
        2 ≤ timesSeen (r.unchanged ++ [⟨1400, "Hello".toList⟩]) "Hello".toList := by
  intro st r
  have hrewrite : (r.st.update 1400 "Hello".toList).2.action = .rewrite := by decide
  have h := (stabilizer_guarantees 2 10 300 true true "Helo".toList [⟨1000, "Hello".toList⟩]
    ⟨1400, "Hello".toList⟩).2.2.1 hrewrite
  have hraw : StabCall.raw ⟨1400, "Hello".toList⟩ = "Hello".toList := by decide
  rw [hraw] at h
  exact ⟨hrewrite, h⟩

end TranscriptStabilizer

end VTranser.Server

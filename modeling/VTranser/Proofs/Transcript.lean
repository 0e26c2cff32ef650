import VTranser.Transcript

/-!
# When the overlay stays in step with the server

What the overlay holds is its text with the queued operations applied, its
`pending` text. Two facts about it are kept along a run: it is an end of the
text the server showed after the last message relayed (`heard`), and it is all
of that text whenever that text is `Short`. What is on the connection leads from
`heard` to what the server shows now; that is `Chain`.

A patch keeps this as long as the overlay applies it and its delete count means
the same in both units of counting. A stable text keeps it if the overlay adopts
the text, and breaks it when the overlay declines a text that it does not hold
an end of.
-/

namespace VTranser.Transcript

open EndPatch Overlay
open Server (PatchMsg StableMsg Patch)

/-! ## The overlay's operations on texts -/

section Overlay

/-- The text of the overlay once what is queued has been applied. -/
def pending (ov : English) : JsStr := ov.ops.foldl applyOneOp ov.fullText

/-- The text that an arriving stable text is compared with. -/
def settled (maxChars : Int) (ov : English) : JsStr :=
  (if ov.scheduled then flushEN maxChars ov else ov).fullText

theorem toInt32_of_lt {n : Nat} (h : n < 2 ^ 31) : toInt32 n = n := by
  rw [toInt32, Int.bmod_eq_of_le] <;> omega

theorem applyOneOp_eq {d : Nat} (hd : d < 2 ^ 31) (text ins : JsStr) :
    applyOneOp text ⟨toInt32 d, ins⟩ = applyEnd text d ins := by
  rw [toInt32_of_lt hd, applyOneOp, applyEnd, List.rdrop]
  simp only [Int.toNat_natCast]
  congr 1
  split
  · split
    · next h => rw [Nat.sub_eq_zero_of_le (by omega), List.take_zero]
    · rfl
  · next h =>
      have hd0 : d = 0 := by omega
      rw [hd0, Nat.sub_zero, List.take_length]

theorem boundEN_suffix (maxChars : Int) (text : JsStr) : boundEN maxChars text <:+ text := by
  rw [boundEN]
  split
  · exact trimTail_suffix _ _
  · exact List.suffix_refl _

theorem boundEN_of_le {maxChars : Int} {text : JsStr}
    (h : 0 < maxChars → (text.length : Int) ≤ maxChars) : boundEN maxChars text = text := by
  rw [boundEN, if_neg]
  rintro ⟨h₁, h₂⟩
  exact absurd (h h₁) (by omega)

theorem trimTailForOverlay_of_le {text : JsStr}
    (h : (text.length : Int) ≤ Worker.overlayEnStableMaxChars) :
    Worker.trimTailForOverlay text = text := by
  have hlim : toInt32 Worker.overlayEnStableMaxChars = 3200 := by decide
  rw [Worker.trimTailForOverlay, trimTail]
  exact if_pos (Or.inr (by rwa [hlim]))

theorem enqueueOpEN_old {del seq : Int} {ins : JsStr} {ov : English} (h : seq ≤ ov.lastPatchSeq) :
    enqueueOpEN del ins (some seq) ov = ov := by
  rw [enqueueOpEN]
  exact if_pos h

theorem enqueueOpEN_new {del seq : Int} {ins : JsStr} {ov : English} (h : ov.lastPatchSeq < seq) :
    enqueueOpEN del ins (some seq) ov =
      { ov with lastPatchSeq := seq, ops := ov.ops ++ [⟨toInt32 del, ins⟩], scheduled := true } := by
  rw [enqueueOpEN]
  exact if_neg (by omega)

theorem pending_flush (maxChars : Int) (ov : English) :
    pending (flushEN maxChars ov) =
      if ov.ops.isEmpty then pending ov else boundEN maxChars (pending ov) := by
  rw [flushEN]
  split
  · rfl
  · rfl

@[simp] theorem flushEN_ops (maxChars : Int) (ov : English) : (flushEN maxChars ov).ops = [] := by
  rw [flushEN]
  split
  · next h => exact List.isEmpty_iff.mp h
  · rfl

@[simp] theorem flushEN_lastPatchSeq (maxChars : Int) (ov : English) :
    (flushEN maxChars ov).lastPatchSeq = ov.lastPatchSeq := by
  rw [flushEN]
  split <;> rfl

@[simp] theorem flushEN_lastStableSeq (maxChars : Int) (ov : English) :
    (flushEN maxChars ov).lastStableSeq = ov.lastStableSeq := by
  rw [flushEN]
  split <;> rfl

theorem pending_of_ops_nil {ov : English} (h : ov.ops = []) : pending ov = ov.fullText := by
  rw [pending, h, List.foldl_nil]

/-- A stable text that is new: the queue is flushed first, and then the text is
taken or not. -/
theorem applyStableEN_new (maxChars : Int) (full : JsStr) {seq : Int} {ov : English}
    (hseq : ov.lastStableSeq < seq) (hq : ov.ops ≠ [] → ov.scheduled = true) :
    let ov' := applyStableEN maxChars full (some seq) ov
    ov'.ops = [] ∧ ov'.lastPatchSeq = ov.lastPatchSeq ∧ ov'.lastStableSeq = seq ∧
      ov'.fullText = if adoptsStable (boundEN maxChars full) (settled maxChars ov) then
        boundEN maxChars full else settled maxChars ov := by
  have hnot : ¬ seq ≤ ov.lastStableSeq := by omega
  have hops : ov.scheduled = false → ov.ops = [] := by
    intro hs
    by_contra hne
    rw [hq hne] at hs
    cases hs
  have hself : ∀ t : JsStr, adoptsStable t t = true := by simp [adoptsStable]
  simp only [applyStableEN, if_neg hnot]
  cases hs : ov.scheduled with
  | true =>
      have hset : settled maxChars ov = (flushEN maxChars ov).fullText := by rw [settled, if_pos hs]
      have hflush : flushEN maxChars { ov with lastStableSeq := seq, scheduled := true } =
          { flushEN maxChars ov with lastStableSeq := seq } := by
        rw [flushEN, flushEN]
        split <;> rfl
      simp only [if_true, ← hs]
      rw [hs, hflush, hset]
      simp only
      split
      · next heq => simp [heq, hself]
      · split <;> simp
  | false =>
      have hset : settled maxChars ov = ov.fullText := by rw [settled, if_neg (by simp [hs])]
      rw [hset]
      simp only [Bool.false_eq_true, if_false]
      split
      · next heq => simp [heq, hself, hops hs]
      · split <;> simp [hops hs]

end Overlay

/-! ## What a callback does -/

section Callback

/-- The server shows the same text and has numbered nothing. -/
def SameText (st st' : Server.State) : Prop :=
  st'.lastEmitted = st.lastEmitted ∧ st'.patchSeq = st.patchSeq ∧ st'.stableSeq = st.stableSeq

/-- The outcomes of a callback: nothing is sent, or the end patch to the new
text, or the new text itself. -/
inductive CallbackSpec (st st' : Server.State) : Option Output → Prop
  | quiet (h : SameText st st') : CallbackSpec st st' none
  | patch (p : Patch) (kept removed : PyStr) (hold : st.lastEmitted = kept ++ removed)
      (hdel : p.delete = removed.length) (hnew : st'.lastEmitted = kept ++ p.insert)
      (hp : p.seq = st.patchSeq + 1) (hseq : st'.patchSeq = st.patchSeq + 1)
      (hstable : st'.stableSeq = st.stableSeq) : CallbackSpec st st' (some (.patch p))
  | stable (tMs : Int) (hseq : st'.stableSeq = st.stableSeq + 1)
      (hpatch : st'.patchSeq = st.patchSeq) :
      CallbackSpec st st' (some (.stable ⟨st'.lastEmitted, st'.stableSeq, tMs⟩))

theorem CallbackSpec.of_same {st₀ st st' : Server.State} {out : Option Output}
    (h : SameText st₀ st) (hspec : CallbackSpec st st' out) : CallbackSpec st₀ st' out := by
  obtain ⟨h₁, h₂, h₃⟩ := h
  cases hspec with
  | quiet h => exact .quiet ⟨h.1.trans h₁, h.2.1.trans h₂, h.2.2.trans h₃⟩
  | patch p kept removed hold hdel hnew hp hseq hstable =>
      exact .patch p kept removed (h₁.symm.trans hold) hdel hnew (h₂ ▸ hp) (h₂ ▸ hseq)
        (hstable.trans h₃)
  | stable tMs hseq hpatch => exact .stable tMs (h₃ ▸ hseq) (hpatch.trans h₂)

theorem saveDraft_same (cfg : Server.Config) (nowMs : Int) (shown : PyStr) (st : Server.State) :
    SameText st (Server.saveDraft cfg nowMs shown st).1 := by
  rw [Server.saveDraft]
  split <;> exact ⟨rfl, rfl, rfl⟩

theorem patchShown_spec (cfg : Server.Config) (nowMs : Int) (shown : PyStr) (st : Server.State) :
    CallbackSpec st (Server.patchShown cfg nowMs shown st).1
      ((Server.patchShown cfg nowMs shown st).2.1.map .patch) := by
  rw [Server.patchShown]
  split
  · exact .quiet ⟨rfl, rfl, rfl⟩
  · split
    · exact .quiet (saveDraft_same cfg nowMs shown st)
    · obtain ⟨kept, removed, hold, hnew, -, hlen⟩ := lcp_patch st.lastEmitted shown
      obtain ⟨h₁, h₂, h₃⟩ := saveDraft_same cfg nowMs shown
        { st with patchSeq := st.patchSeq + 1, lastPatchSendMs := nowMs, lastEmitted := shown }
      exact .patch _ kept removed hold hlen.symm (h₁.trans hnew) rfl h₂ h₃

theorem callback_spec (cfg : Server.Config) (e : Event) (st : Server.State) :
    CallbackSpec st (callback cfg e st).1 (callback cfg e st).2 := by
  cases e with
  | shown nowMs text => exact patchShown_spec cfg nowMs text st
  | update clock rawText =>
      simp only [callback, Server.patchFromModelText]
      split
      · exact .quiet ⟨rfl, rfl, rfl⟩
      · split
        · exact .quiet ⟨rfl, rfl, rfl⟩
        · split
          · -- The stabilizer's own state is not part of what is shown.
            generalize st.stabilizer.update clock.stabMs (Server.normSpaces rawText) = r
            have hsame : SameText st { st with stabilizer := r.1 } := ⟨rfl, rfl, rfl⟩
            exact .of_same hsame (patchShown_spec cfg clock.nowMs r.2.shown _)
          · exact patchShown_spec cfg clock.nowMs _ st
  | stable clock text =>
      simp only [callback, Server.onStableCb]
      split
      · exact .quiet ⟨rfl, rfl, rfl⟩
      · split
        · exact .quiet ⟨rfl, rfl, rfl⟩
        · exact .stable _ rfl rfl

end Callback

/-! ## What is on the connection -/

section Chain

/-- The deleted characters are as many code units, and few enough for the
overlay's integers. -/
def OneUnit (removed : PyStr) : Prop :=
  removed.all Utf16.inBmp = true ∧ removed.length < 2 ^ 31

/-- A message that turns one text of the server into another: it carries the
end patch with a new number, or it is a continuation with nothing in it. -/
def PatchFits (base : PyStr) (lastSeq : Int) (m : PatchMsg) (after : PyStr) : Prop :=
  (∃ kept removed, base = kept ++ removed ∧ m.delete = removed.length ∧ OneUnit removed ∧
      after = kept ++ m.insert ∧ lastSeq < m.seq) ∨
    (m.seq ≤ lastSeq ∧ m.delete = 0 ∧ m.insert = [] ∧ after = base)

/-- The messages lead from a text, and the numbers seen with it, to what the
server shows now. -/
def Chain (srv : Server.State) : PyStr → Int → Int → List Sent → Prop
  | base, p, s, [] => base = srv.lastEmitted ∧ p ≤ srv.patchSeq ∧ s ≤ srv.stableSeq
  | base, p, s, ⟨.patch m, after⟩ :: w => PatchFits base p m after ∧ Chain srv after (max p m.seq) s w
  | _, p, s, ⟨.stable m, after⟩ :: w => s < m.seq ∧ after = m.full ∧ Chain srv after p m.seq w

theorem Chain.append {srv srv' : Server.State} {ws : List Sent}
    (hnew : ∀ p s : Int, p ≤ srv.patchSeq → s ≤ srv.stableSeq →
      Chain srv' srv.lastEmitted p s ws) {w : List Sent} :
    ∀ {base : PyStr} {p s : Int}, Chain srv base p s w → Chain srv' base p s (w ++ ws) := by
  induction w with
  | nil =>
      rintro base p s ⟨rfl, hp, hs⟩
      exact hnew p s hp hs
  | cons x w ih =>
      intro base p s h
      obtain ⟨m | m, after⟩ := x
      · exact ⟨h.1, ih h.2⟩
      · exact ⟨h.1, h.2.1, ih h.2.2⟩

/-- Continuations with nothing in them change nothing. -/
theorem Chain.conts {srv : Server.State} {p s : Int} (hp : p ≤ srv.patchSeq)
    (hs : s ≤ srv.stableSeq) {seq : Nat} (hseq : (seq : Int) ≤ p) (tMs : Int) {qs : List PyStr}
    (hqs : ∀ q ∈ qs, q = []) :
    Chain srv srv.lastEmitted p s
      (qs.map fun q => ⟨.patch ⟨0, q, seq, tMs⟩, srv.lastEmitted⟩) := by
  induction qs with
  | nil => exact ⟨rfl, hp, hs⟩
  | cons q qs ih =>
      refine ⟨Or.inr ⟨hseq, rfl, hqs q (by simp), rfl⟩, ?_⟩
      rw [Int.max_eq_left hseq]
      exact ih fun r hr => hqs r (by simp [hr])

/-- The first piece is the whole insert text. -/
def WholeFirst (out : Option Output) (pieces : List PyStr) : Prop :=
  match out with
  | some (.patch p) => pieces.head? = some p.insert
  | _ => True

/-- The characters that the patch deletes. -/
def DeletesOneUnit (st : Server.State) (out : Option Output) : Prop :=
  match out with
  | some (.patch p) => OneUnit (st.lastEmitted.rtake p.delete)
  | _ => True

theorem rtake_append_length {α : Type*} (a b : List α) : (a ++ b).rtake b.length = b := by
  simp [List.rtake]

/-- What a callback sends prolongs the chain, if its first piece is whole and
its deletes count the same on both sides. -/
theorem chain_callback {cfg : Server.Config} {e : Event} {st : Server.State}
    {pieces : List PyStr} {tMs : Int} {ms : List Msg}
    (hms : messages (callback cfg e st).2 pieces tMs = some ms)
    (hfirst : WholeFirst (callback cfg e st).2 pieces)
    (hdel : DeletesOneUnit st (callback cfg e st).2) (p s : Int) (hp : p ≤ st.patchSeq)
    (hs : s ≤ st.stableSeq) :
    Chain (callback cfg e st).1 st.lastEmitted p s
      (ms.map fun m => ⟨m, (callback cfg e st).1.lastEmitted⟩) := by
  have hspec := callback_spec cfg e st
  generalize (callback cfg e st).1 = st' at hspec ⊢
  generalize (callback cfg e st).2 = out at hspec hms hfirst hdel
  cases hspec with
  | quiet h =>
      injection hms with hms
      subst hms
      exact ⟨h.1.symm, by rw [h.2.1]; exact hp, by rw [h.2.2]; exact hs⟩
  | patch q kept removed hold hqdel hnew hq hseq hstable =>
      simp only [messages, Option.ite_none_right_eq_some, Option.some.injEq] at hms
      obtain ⟨⟨-, hflat⟩, rfl⟩ := hms
      obtain ⟨qs, rfl⟩ : ∃ qs, pieces = q.insert :: qs := by
        cases pieces with
        | nil => cases hfirst
        | cons x qs => injection hfirst with hx; exact ⟨qs, by rw [hx]⟩
      have hqs : ∀ r ∈ qs, r = [] := by simpa using hflat
      rw [DeletesOneUnit, hold, hqdel, rtake_append_length] at hdel
      have hmax : max p (q.seq : Int) = q.seq := Int.max_eq_right (by omega)
      simp only [Server.cutMsgs, List.map_cons, List.map_map]
      refine ⟨Or.inl ⟨kept, removed, hold, hqdel, hdel, hnew, by simp only; omega⟩, ?_⟩
      simp only [hmax]
      exact Chain.conts (by omega) (by omega) (by omega) tMs hqs
  | stable t hseq hpatch =>
      injection hms with hms
      subst hms
      exact ⟨by simp only; omega, rfl, rfl, by rw [hpatch]; exact hp, by simp only; omega⟩

end Chain

/-! ## The overlay in step -/

section InStep

variable (Short : PyStr → Prop) (maxChars : Int)

/-- The overlay holds an end of the server's text, all of it if that is short. -/
def Holds (text : JsStr) (base : PyStr) : Prop :=
  text <:+ base.toJs ∧ (Short base → text = base.toJs)

structure InStep (st : State) : Prop where
  queued : st.overlay.ops ≠ [] → st.overlay.scheduled = true
  holds : Holds Short (pending st.overlay) st.heard
  chain : Chain st.server st.heard st.overlay.lastPatchSeq st.overlay.lastStableSeq st.wire

/-- A patch that makes the server's text short finds all of the old text at the
overlay, or keeps nothing of it. -/
def PatchLands (ov : English) (heard : PyStr) (m : PatchMsg) (after : PyStr) : Prop :=
  Short after → pending ov = heard.toJs ∨ m.delete = heard.length

/-- The text the overlay compares with its own when a stable message arrives. -/
def arriving (m : StableMsg) : JsStr := boundEN maxChars (Worker.trimTailForOverlay m.full.toJs)

/-- The overlay adopts the stable text or holds an end of it already. -/
def StableLands (ov : English) (m : StableMsg) : Prop :=
  adoptsStable (arriving maxChars m) (settled maxChars ov) = true ∨
    settled maxChars ov <:+ m.full.toJs

variable {Short maxChars}

theorem applyEnd_toJs {kept removed : PyStr} (h : OneUnit removed) (ins : PyStr) :
    applyEnd (PyStr.toJs (kept ++ removed)) removed.length ins.toJs = PyStr.toJs (kept ++ ins) :=
  applyEnd_flatMap Utf16.units ((Utf16.utf16_length_eq_iff removed).mpr h.1) ins

/-- The text a message is computed against. -/
theorem PatchFits.applyEnd_eq {base after : PyStr} {lastSeq : Int} {m : PatchMsg}
    (h : PatchFits base lastSeq m after) : applyEnd base m.delete m.insert = after := by
  rcases h with ⟨kept, removed, hold, hdel, -, hafter, -⟩ | ⟨-, hdel, hins, hafter⟩
  · rw [hold, hdel, hafter]
    exact applyEnd_append_length _ _ _
  · rw [hdel, hins, hafter, applyEnd, List.append_nil, List.rdrop, Nat.sub_zero, List.take_length]

theorem holds_patch (maxChars : Int) {ov : English} {heard after : PyStr} {m : PatchMsg} {lastSeq : Int}
    (hfit : PatchFits heard lastSeq m after) (hlast : ov.lastPatchSeq = lastSeq)
    (hheld : Holds Short (pending ov) heard) (hland : PatchLands Short ov heard m after) :
    Holds Short (pending (receive maxChars (.patch m) ov)) after := by
  subst hlast
  rcases hfit with ⟨kept, removed, hold, hdel, hone, hafter, hseq⟩ | ⟨hseq, -, -, hafter⟩
  · have hpend : pending (receive maxChars (.patch m) ov) =
        applyEnd (pending ov) m.delete m.insert.toJs := by
      have hd : m.delete < 2 ^ 31 := by
        rw [hdel]
        exact hone.2
      rw [receive, enqueueOpEN_new hseq, pending, List.foldl_append, List.foldl_cons,
        List.foldl_nil, applyOneOp_eq hd, pending]
    have hstep : applyEnd heard.toJs m.delete m.insert.toJs = after.toJs := by
      rw [hold, hdel, hafter]
      exact applyEnd_toJs hone _
    refine ⟨?_, fun hshort => ?_⟩
    · rw [hpend, ← hstep]
      exact applyEnd_suffix hheld.1 _ _
    · rw [hpend, ← hstep]
      rcases hland hshort with hwhole | hall
      · rw [hwhole]
      · -- Everything the server had is deleted, so nothing is left of an end of it.
        have hkept : kept = [] := by
          have hlen := congrArg List.length hold
          rw [List.length_append] at hlen
          exact List.length_eq_zero_iff.mp (by omega)
        rw [hkept, List.nil_append] at hold
        have hunits : heard.toJs.length = m.delete := by
          rw [hall, hold]
          exact (Utf16.utf16_length_eq_iff removed).mpr hone.1
        rw [applyEnd_all hunits.le, applyEnd_all (hunits ▸ hheld.1.length_le)]
  · rw [receive, enqueueOpEN_old hseq, hafter]
    exact hheld

theorem arriving_suffix (m : StableMsg) : arriving maxChars m <:+ m.full.toJs :=
  (boundEN_suffix _ _).trans (trimTail_suffix _ _)

theorem receive_stable (m : StableMsg) (ov : English) :
    receive maxChars (.stable m) ov =
      applyStableEN maxChars (Worker.trimTailForOverlay m.full.toJs) (some m.seq) ov := by
  simp only [receive, handleStable, Worker.relayStable, Worker.buildOverlayStableRelayMsg,
    wrapStable, Option.getD_some]

theorem holds_stable {ov : English} {m : StableMsg} (hseq : ov.lastStableSeq < m.seq)
    (hq : ov.ops ≠ [] → ov.scheduled = true) (hland : StableLands maxChars ov m)
    (hshort : Short m.full → arriving maxChars m = m.full.toJs) :
    Holds Short (pending (receive maxChars (.stable m) ov)) m.full := by
  obtain ⟨hops, -, -, htext⟩ := applyStableEN_new maxChars
    (Worker.trimTailForOverlay m.full.toJs) hseq hq
  rw [receive_stable, pending_of_ops_nil hops, htext, ← arriving]
  cases hadopt : adoptsStable (arriving maxChars m) (settled maxChars ov) with
  | true =>
      rw [if_pos rfl]
      exact ⟨arriving_suffix m, hshort⟩
  | false =>
      rw [if_neg (by simp)]
      have hsuffix : settled maxChars ov <:+ m.full.toJs := by
        rcases hland with h | h
        · rw [hadopt] at h
          cases h
        · exact h
      refine ⟨hsuffix, fun hs => ?_⟩
      -- A short text arrives whole, and only a longer one declines it.
      rw [adoptsStable, hshort hs] at hadopt
      simp [hsuffix.length_le] at hadopt

theorem flush_inStep (hbound : ∀ t, Short t → boundEN maxChars t.toJs = t.toJs) {st : State}
    (h : InStep Short st) :
    InStep Short { st with overlay := flushEN maxChars st.overlay } where
  queued hne := absurd (flushEN_ops maxChars st.overlay) hne
  chain := by
    simp only [flushEN_lastPatchSeq, flushEN_lastStableSeq]
    exact h.chain
  holds := by
    simp only [pending_flush]
    split
    · exact h.holds
    · refine ⟨(boundEN_suffix _ _).trans h.holds.1, fun hs => ?_⟩
      rw [h.holds.2 hs, hbound _ hs]

/-- The queue of the overlay after a message. -/
theorem receive_queued {m : Msg} {ov : English} (hq : ov.ops ≠ [] → ov.scheduled = true)
    (hstable : ∀ m', m = .stable m' → ov.lastStableSeq < m'.seq) :
    (receive maxChars m ov).ops ≠ [] → (receive maxChars m ov).scheduled = true := by
  cases m with
  | patch m =>
      rcases Int.lt_or_le ov.lastPatchSeq m.seq with h | h
      · rw [receive, enqueueOpEN_new h]
        exact fun _ => rfl
      · rw [receive, enqueueOpEN_old h]
        exact hq
  | stable m =>
      intro hne
      rw [receive_stable] at hne
      exact absurd (applyStableEN_new _ _ (hstable m rfl) hq).1 hne

/-- One step. What is sent must prolong the chain, and what arrives must land. -/
theorem step_inStep {cfg : Config} (hbound : ∀ t, Short t →
      boundEN cfg.enStateMaxChars t.toJs = t.toJs)
    {st st' : State} {l : Label} (h : InStep Short st)
    (hsend : ∀ e pieces tMs, l = .callback e pieces tMs →
      WholeFirst (callback cfg.server e st.server).2 pieces ∧
        DeletesOneUnit st.server (callback cfg.server e st.server).2)
    (hpatch : l = .relay → ∀ m after rest, st.wire = ⟨.patch m, after⟩ :: rest →
      PatchLands Short st.overlay st.heard m after)
    (hstable : l = .relay → ∀ m after rest, st.wire = ⟨.stable m, after⟩ :: rest →
      StableLands cfg.enStateMaxChars st.overlay m ∧
        (Short m.full → arriving cfg.enStateMaxChars m = m.full.toJs))
    (hstep : step cfg st l = some st') : InStep Short st' := by
  cases l with
  | callback e pieces tMs =>
      simp only [step, Option.map_eq_some_iff] at hstep
      obtain ⟨ms, hms, rfl⟩ := hstep
      obtain ⟨hfirst, hdel⟩ := hsend e pieces tMs rfl
      exact ⟨h.queued, h.holds, h.chain.append fun p s hp hs =>
        chain_callback hms hfirst hdel p s hp hs⟩
  | relay =>
      obtain ⟨srv, wire, heard, ov⟩ := st
      cases wire with
      | nil => cases hstep
      | cons x rest =>
          injection hstep with hstep
          subst hstep
          obtain ⟨m | m, after⟩ := x
          · obtain ⟨hfit, hchain⟩ := h.chain
            refine ⟨receive_queued h.queued (by simp), holds_patch
              cfg.enStateMaxChars hfit rfl h.holds (hpatch rfl m after rest rfl), ?_⟩
            rcases Int.lt_or_le ov.lastPatchSeq m.seq with hseq | hseq
            · rw [Int.max_eq_right (Int.le_of_lt hseq)] at hchain
              simp only [receive, enqueueOpEN_new hseq]
              exact hchain
            · rw [Int.max_eq_left hseq] at hchain
              simp only [receive, enqueueOpEN_old hseq]
              exact hchain
          · obtain ⟨hseq, hafter, hchain⟩ := h.chain
            subst hafter
            obtain ⟨hland, hshort⟩ := hstable rfl m m.full rest rfl
            obtain ⟨-, hp, hs, -⟩ := applyStableEN_new cfg.enStateMaxChars
              (Worker.trimTailForOverlay m.full.toJs) hseq h.queued
            refine ⟨receive_queued h.queued ?_, holds_stable hseq h.queued hland hshort, ?_⟩
            · rintro m' ⟨⟩
              exact hseq
            · simp only [receive_stable, hp, hs]
              exact hchain
  | frame =>
      injection hstep with hstep
      subst hstep
      exact flush_inStep hbound h

theorem init_inStep (stabilizer : Server.TranscriptStabilizer) :
    InStep Short (State.init stabilizer) where
  queued h := absurd rfl h
  holds := ⟨List.suffix_refl _, fun _ => rfl⟩
  chain := by
    refine ⟨rfl, ?_, ?_⟩ <;> simp [State.init, Server.State.init, English.init]

/-- When everything has been processed, the overlay is compared with what the
server shows now. -/
theorem InStep.processed {st : State} (h : InStep Short st) (hdone : st.processed = true) :
    Holds Short st.overlay.fullText st.server.lastEmitted := by
  rw [State.processed, Bool.and_eq_true, List.isEmpty_iff, List.isEmpty_iff] at hdone
  have hchain := h.chain
  rw [hdone.1] at hchain
  rw [← pending_of_ops_nil hdone.2, ← hchain.1]
  exact h.holds

end InStep

end VTranser.Transcript

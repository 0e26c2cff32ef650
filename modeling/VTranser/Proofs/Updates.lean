import VTranser.Proofs.MicroDelta
import VTranser.Proofs.Transcript
import VTranser.Server.Updates

/-!
# When updates are in order on the wire

Every patch and every stable message has a number of its own, so coroutines have
no message in common, and the updates are in order in a whole run exactly when no
coroutine begins while a chunked patch is suspended in the middle. A patch that
is one message never is.
-/

namespace VTranser.Server

/-- The number of a message has been given out. -/
def WireMsg.Numbered (st : State) : WireMsg → Prop
  | .patch m => m.seq ≤ st.patchSeq
  | .stable m => m.seq ≤ st.stableSeq

theorem cutMsgs_seq (d seq : Nat) (tMs : Int) (ps : List PyStr) :
    ∀ m ∈ cutMsgs d seq tMs ps, m.seq = seq := by
  cases ps with
  | nil => nofun
  | cons p ps =>
      intro m hm
      rcases List.mem_cons.mp hm with rfl | hm
      · rfl
      · obtain ⟨q, -, rfl⟩ := List.mem_map.mp hm
        rfl

/-- All messages of a patch have its number. -/
theorem emit_seq (ui : UiConfig) (k : TokenClasses) (d : Nat) (ins : PyStr) (seq : Nat)
    (tMs : Int) : ∀ m ∈ emitPatchInsertChunked ui k d ins seq tMs, m.seq = seq := by
  by_cases hins : ins = []
  · rw [emitPatchInsertChunked, if_pos (by simp [hins])]
    split
    · intro m hm
      rw [List.mem_singleton.mp hm]
    · intro m hm
      cases hm
  · cases hmicro : ui.microDeltaEnable with
    | false =>
        rw [emit_plain k d seq tMs hmicro hins]
        intro m hm
        rw [List.mem_singleton.mp hm]
    | true =>
        obtain ⟨ps, -, hcut⟩ := emit_micro_cut k d seq tMs hmicro hins
        rw [hcut]
        exact cutMsgs_seq d seq tMs ps

namespace UpdateState

section Updates

variable {cfg : UpdateConfig}

/-! ## One step -/

/-- The coroutines have no message in common, and all their numbers are given
out. -/
structure Numbered (s : UpdateState) : Prop where
  apart : s.senders.Apart
  numbered : ∀ m ∈ s.senders.own.flatten, m.Numbered s.st

theorem numbered_init (stabilizer : TranscriptStabilizer) : Numbered (init stabilizer) :=
  ⟨Senders.apart_init, nofun⟩

/-- A coroutine comes with numbers that are new. -/
theorem Numbered.submit {s : UpdateState} (h : s.Numbered) {st : State} {ms : List WireMsg}
    (hold : ∀ m : WireMsg, m.Numbered s.st → m.Numbered st)
    (hnew : ∀ m ∈ ms, m.Numbered st ∧ ¬ m.Numbered s.st) :
    Numbered ⟨st, s.senders.submit ms⟩ where
  apart := h.apart.submit fun m hm hms => (hnew m hms).2 (h.numbered m hm)
  numbered m hm := by
    rw [Senders.submit, List.flatten_append, List.flatten_singleton] at hm
    rcases List.mem_append.mp hm with hm | hm
    · exact hold m (h.numbered m hm)
    · exact (hnew m hm).1

theorem numbered_mono {st st' : State} (hp : st.patchSeq ≤ st'.patchSeq)
    (hs : st.stableSeq ≤ st'.stableSeq) (m : WireMsg) (h : m.Numbered st) : m.Numbered st' := by
  cases m with
  | patch m => exact Nat.le_trans h hp
  | stable m => exact Nat.le_trans h hs

theorem Numbered.step {s : UpdateState} (h : s.Numbered) (e : UpdateEvent) :
    (s.step cfg e).Numbered := by
  cases e with
  | update clock emitMs text =>
      have hspec := Transcript.callback_spec cfg.toConfig (.update clock text) s.st
      rw [Transcript.callback] at hspec
      rw [UpdateState.step]
      rcases hcb : patchFromModelText cfg.toConfig clock text s.st with ⟨st, patch, items⟩
      rw [hcb] at hspec
      simp only at hspec ⊢
      cases patch with
      | none =>
          cases hspec with
          | quiet hsame =>
              exact ⟨h.apart, fun m hm => numbered_mono (by rw [hsame.2.1]) (by rw [hsame.2.2]) m
                (h.numbered m hm)⟩
      | some p =>
          cases hspec with
          | patch _ kept removed hlast hdel htext hp hseq hstable =>
              refine h.submit (numbered_mono (by omega) (by omega)) ?_
              intro m hm
              obtain ⟨msg, hmsg, rfl⟩ := List.mem_map.mp hm
              have hnum := emit_seq _ _ _ _ _ _ msg hmsg
              refine ⟨?_, ?_⟩
              · show msg.seq ≤ st.patchSeq
                omega
              · show ¬ msg.seq ≤ s.st.patchSeq
                omega
  | stable clock text =>
      have hspec := Transcript.callback_spec cfg.toConfig (.stable clock text) s.st
      rw [Transcript.callback] at hspec
      rw [UpdateState.step]
      rcases hcb : onStableCb cfg.toConfig clock text s.st with ⟨st, msg, items⟩
      rw [hcb] at hspec
      simp only at hspec ⊢
      cases msg with
      | none =>
          cases hspec with
          | quiet hsame =>
              exact ⟨h.apart, fun m hm => numbered_mono (by rw [hsame.2.1]) (by rw [hsame.2.2]) m
                (h.numbered m hm)⟩
      | some msg =>
          simp only [Option.map_some] at hspec
          cases hspec with
          | stable tMs hseq hpatch =>
              refine h.submit (numbered_mono (by omega) (by omega)) ?_
              intro m hm
              rw [List.mem_singleton.mp hm]
              refine ⟨Nat.le_refl _, ?_⟩
              show ¬ st.stableSeq ≤ s.st.stableSeq
              omega
  | start => exact ⟨h.apart.start, by simpa [UpdateState.step] using h.numbered⟩
  | resume i => exact ⟨h.apart.resume i, by simpa [UpdateState.step] using h.numbered⟩

variable (cfg) in
/-- What a step does to the coroutines: one more, or one of them goes on. -/
theorem senders_step (s : UpdateState) (e : UpdateEvent) :
    (s.step cfg e).senders = s.senders ∨ (∃ ms, (s.step cfg e).senders = s.senders.submit ms ∧
      (cfg.ui.microDeltaEnable = false → ms.length ≤ 1)) ∨
    (e = .start ∧ (s.step cfg e).senders = s.senders.start) ∨
    ∃ i, (s.step cfg e).senders = s.senders.resume i := by
  cases e with
  | update clock emitMs text =>
      rw [UpdateState.step]
      rcases patchFromModelText cfg.toConfig clock text s.st with ⟨st, patch, items⟩
      cases patch with
      | none => exact .inl rfl
      | some p =>
          refine .inr (.inl ⟨_, rfl, ?_⟩)
          intro hplain
          rw [patchMsgs, List.length_map, emitPatchInsertChunked, hplain]
          split
          · split
            · exact Nat.le_refl _
            · exact Nat.zero_le _
          · exact Nat.le_refl _
  | stable clock text =>
      rw [UpdateState.step]
      rcases onStableCb cfg.toConfig clock text s.st with ⟨st, msg, items⟩
      cases msg with
      | none => exact .inl rfl
      | some m => exact .inr (.inl ⟨_, rfl, fun _ => Nat.le_refl _⟩)
  | start => exact .inr (.inr (.inl ⟨rfl, rfl⟩))
  | resume i => exact .inr (.inr (.inr ⟨i, rfl⟩))

/-! ## Runs -/

theorem run_concat (s : UpdateState) (es : List UpdateEvent) (e : UpdateEvent) :
    s.run cfg (es ++ [e]) = (s.run cfg es).step cfg e := by
  rw [run, run, List.foldl_append, List.foldl_cons, List.foldl_nil]

variable (cfg) in
/-- What was sent is in order after every step of the run. -/
def InOrderThroughout (s : UpdateState) (es : List UpdateEvent) : Prop :=
  ∀ pre, pre <+: es → (s.run cfg pre).senders.InOrder

variable (cfg) in
/-- No coroutine with something to send begins while an earlier one is suspended
with something left. -/
def CalmThroughout (s : UpdateState) (es : List UpdateEvent) : Prop :=
  ∀ pre, pre ++ [.start] <+: es → (s.run cfg pre).senders.Calm

theorem numbered_run (stabilizer : TranscriptStabilizer) (es : List UpdateEvent) :
    ((init stabilizer).run cfg es).Numbered := by
  induction es using List.reverseRecOn with
  | nil => exact numbered_init stabilizer
  | append_singleton es e ih =>
      rw [run_concat]
      exact ih.step e

theorem sequential_run (stabilizer : TranscriptStabilizer) (es : List UpdateEvent)
    (hcalm : CalmThroughout cfg (init stabilizer) es) :
    ((init stabilizer).run cfg es).senders.Sequential := by
  induction es using List.reverseRecOn with
  | nil => exact Senders.sequential_init
  | append_singleton es e ih =>
      have hes := ih fun pre hpre => hcalm pre (hpre.trans (List.prefix_append es [e]))
      rw [run_concat]
      rcases senders_step cfg ((init stabilizer).run cfg es) e with
        heq | ⟨ms, heq, -⟩ | ⟨rfl, heq⟩ | ⟨i, heq⟩
      · rw [heq]
        exact hes
      · rw [heq]
        exact hes.submit ms
      · rw [heq]
        exact hes.start (hcalm es (List.prefix_refl _))
      · rw [heq]
        exact hes.resume i

/-- The updates are in order throughout a run exactly when no coroutine begins
while a chunked patch is suspended in the middle. -/
theorem updates_in_order_iff (cfg : UpdateConfig) (stabilizer : TranscriptStabilizer)
    (es : List UpdateEvent) :
    InOrderThroughout cfg (init stabilizer) es ↔ CalmThroughout cfg (init stabilizer) es := by
  refine ⟨?_, ?_⟩
  · induction es using List.reverseRecOn with
    | nil =>
        intro _ pre hpre
        simp at hpre
    | append_singleton es e ih =>
        intro horder pre hpre
        have hes := ih fun p hp => horder p (hp.trans (List.prefix_append es [e]))
        rcases List.prefix_concat_iff.mp hpre with heq | hpre
        · obtain ⟨rfl, hstart⟩ := List.append_inj' heq rfl
          by_contra hcalm
          have hnext := horder (pre ++ [.start]) hpre
          rw [run_concat] at hnext
          exact Senders.not_inOrder_start (sequential_run stabilizer pre hes)
            (numbered_run stabilizer pre).apart hcalm hnext
        · exact hes pre hpre
  · intro hcalm pre hpre
    exact (sequential_run stabilizer pre fun p hp => hcalm p (hp.trans hpre)).inOrder

/-- A patch of two chunks is suspended after the first when a stable text comes. -/
def betweenChunks : List UpdateEvent :=
  [.update ⟨false, 1000, 1000⟩ 1000
      "this first update is long enough to be cut into more than one chunk".toList,
    .start, .stable ⟨false, 1100, 1100⟩ "this first update is long enough".toList, .start]

/-- The stable message goes out between the two chunks. -/
theorem updates_out_of_order :
    ¬ InOrderThroughout defaultUpdates (init (.new 2 18 120 true true)) betweenChunks := by
  intro h
  have hwire := (h betweenChunks (List.prefix_refl _)).1
  exact absurd hwire (by decide +kernel)

/-- Without micro deltas every patch is one message, and all runs are in order. -/
theorem plain_updates_in_order (hplain : cfg.ui.microDeltaEnable = false)
    (stabilizer : TranscriptStabilizer) (es : List UpdateEvent) :
    InOrderThroughout cfg (init stabilizer) es := by
  have hsingle : ∀ es, ((init stabilizer).run cfg es).senders.Single := by
    intro es
    induction es using List.reverseRecOn with
    | nil => exact Senders.single_init
    | append_singleton es e ih =>
        rw [run_concat]
        rcases senders_step cfg ((init stabilizer).run cfg es) e with
          heq | ⟨ms, heq, hle⟩ | ⟨-, heq⟩ | ⟨i, heq⟩
        · rw [heq]
          exact ih
        · rw [heq]
          exact ih.submit (hle hplain)
        · rw [heq]
          exact ih.start
        · rw [heq]
          exact ih.resume i
  intro pre _
  exact (sequential_run stabilizer pre fun p _ => (hsingle p).calm).inOrder

end Updates

end UpdateState

end VTranser.Server

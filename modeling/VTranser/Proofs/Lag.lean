import VTranser.Proofs.Delivery
import VTranser.Proofs.Glyphs
import VTranser.Lib.Run

/-!
# The sentence-lag buffer loses nothing and keeps the order

In the mode that is not strict a fragment goes into the pending sentence, is cut off it
again where a sentence ends, waits among the pending commits, and is let go into
the commit queue. Here the two functions that do so are called in any order, with the
commit worker taking segments in between (`LagCall`).

Two things hold at every point. What was let go, what waits and what is pending have,
one after the other, the letters of what was collected: merging, cutting and the
final flush keep them, and what is skipped has none. And the numbers of what was let go
and of what waits never decrease, because the pending sentence carries a number that
lies between theirs and the next one (`Ordered`).
-/

namespace VTranser.Translator

open Run

variable {σ : Type}

/-! ## Calls -/

section Calls

/-- A connection of which only the lag buffer and the queue behind it are looked at, with the
segments that the commit worker has taken. -/
structure Lagged (σ : Type) where
  handler : Handler σ
  taken : List Segment

inductive LagCall
  | collect (seg : PyStr) (effSeq : Int)
  | dispatch (draftEn : PyStr) (effSeq : Int) (forceRelease : Bool)
  | take (n : Nat)
  deriving DecidableEq, Repr

namespace LagCall

def effSeq : LagCall → Option Int
  | .collect _ effSeq => some effSeq
  | .dispatch _ effSeq _ => some effSeq
  | .take _ => none

def text : LagCall → PyStr
  | .collect seg _ => seg
  | .dispatch .. | .take _ => []

end LagCall

variable (cfg : HandlerConfig σ)

/-- The state that `_lag_dispatch_ready` finds behind its first part. -/
def lagFlushed (effSeq : Int) (forceRelease : Bool) (st : StreamState σ) : StreamState σ :=
  if forceRelease && cfg.lagFlushOnForce then Handler.lagFlushTail cfg effSeq st else st

/-- The pending commits that a dispatch lets go. -/
def lagReleased (draftEn : PyStr) (effSeq : Int) (forceRelease : Bool) (st : StreamState σ) :
    List (Int × PyStr) :=
  let pending := (lagFlushed cfg effSeq forceRelease st).pendingCommits
  pending.take (Handler.lagReleaseCount cfg draftEn forceRelease pending.length)

/-- The state behind a dispatch: what it let go is gone. -/
def lagKept (draftEn : PyStr) (effSeq : Int) (forceRelease : Bool) (st : StreamState σ) :
    StreamState σ :=
  let st := lagFlushed cfg effSeq forceRelease st
  { st with
    pendingCommits := st.pendingCommits.drop
      (Handler.lagReleaseCount cfg draftEn forceRelease st.pendingCommits.length) }

/-- The commit queue has room for all that a call lets go. -/
def RoomFor (w : Lagged σ) : LagCall → Prop
  | .dispatch draftEn effSeq forceRelease =>
      w.handler.commitQueue.length +
        (lagReleased cfg draftEn effSeq forceRelease w.handler.stream).length ≤
          Handler.commitQueueSize
  | .collect .. | .take _ => True

instance (w : Lagged σ) : ∀ call, Decidable (RoomFor cfg w call)
  | .dispatch .. => inferInstanceAs (Decidable (_ ≤ _))
  | .collect .. | .take _ => inferInstanceAs (Decidable True)

namespace Lagged

def init (seg : σ) : Lagged σ := ⟨.init seg, []⟩

def step (w : Lagged σ) : LagCall → Option (Lagged σ)
  | .collect seg effSeq => some { w with
      handler := { w.handler with
        stream := Handler.lagCollectCommit cfg effSeq w.handler.stream seg } }
  | .dispatch draftEn effSeq forceRelease => some { w with
      handler := Handler.lagDispatchReady cfg draftEn effSeq forceRelease w.handler }
  | .take n => some {
      handler := { w.handler with commitQueue := w.handler.commitQueue.drop n }
      taken := w.taken ++ w.handler.commitQueue.take n }

/-- The segments enqueued so far. -/
def enqueued (w : Lagged σ) : List Segment := w.taken ++ w.handler.commitQueue

/-- The texts that were let go, that wait, and that are pending. -/
def texts (w : Lagged σ) : List PyStr :=
  w.enqueued.map Segment.seg ++ w.handler.stream.pendingCommits.map Prod.snd ++
    [w.handler.stream.pendingSentence]

/-- The numbers of the segments that were let go and that wait. -/
def enSeqs (w : Lagged σ) : List Int :=
  w.enqueued.map Segment.enSeq ++ w.handler.stream.pendingCommits.map Prod.fst

end Lagged

end Calls

/-! ## Collecting -/

section Collect

variable (cfg : HandlerConfig σ)

/-- The pending commits that a list of sentences makes, the first of them at place `k`:
the one at place zero takes the number of the pending sentence. -/
def newCommits (cfg : TextConfig) (firstSeq effSeq : Int) (k : Nat) (sents : List PyStr) :
    List (Int × PyStr) :=
  (sents.zipIdx k).filterMap fun (sent, i) =>
    if sent.isEmpty || isPunctOnly cfg sent then none
    else some (if i = 0 then firstSeq else effSeq, sent)

theorem newCommits_cons (cfg : TextConfig) (firstSeq effSeq : Int) (k : Nat) (s : PyStr)
    (ss : List PyStr) :
    newCommits cfg firstSeq effSeq k (s :: ss) =
      (if s.isEmpty || isPunctOnly cfg s then []
        else [(if k = 0 then firstSeq else effSeq, s)]) ++
          newCommits cfg firstSeq effSeq (k + 1) ss := by
  rw [newCommits, List.zipIdx_cons, List.filterMap_cons]
  by_cases hs : (s.isEmpty || isPunctOnly cfg s) = true
  · simp only [if_pos hs]
    rfl
  · simp only [if_neg hs]
    rfl

/-- Behind the first sentence every one has the number of the call. -/
theorem newCommits_later (cfg : TextConfig) (firstSeq effSeq : Int) (k : Nat)
    (sents : List PyStr) :
    ∃ n, (newCommits cfg firstSeq effSeq (k + 1) sents).map Prod.fst =
      List.replicate n effSeq := by
  induction sents generalizing k with
  | nil => exact ⟨0, rfl⟩
  | cons s ss ih =>
      obtain ⟨n, hn⟩ := ih (k + 1)
      rw [newCommits_cons, List.map_append, hn, if_neg (Nat.succ_ne_zero k)]
      split
      · exact ⟨n, rfl⟩
      · exact ⟨n + 1, rfl⟩

theorem newCommits_fst (cfg : TextConfig) (firstSeq effSeq : Int) (sents : List PyStr) :
    ∃ m n, (newCommits cfg firstSeq effSeq 0 sents).map Prod.fst =
      List.replicate m firstSeq ++ List.replicate n effSeq := by
  cases sents with
  | nil => exact ⟨0, 0, rfl⟩
  | cons s ss =>
      obtain ⟨n, hn⟩ := newCommits_later cfg firstSeq effSeq 0 ss
      rw [newCommits_cons, List.map_append, hn, if_pos rfl]
      split
      · exact ⟨0, n, rfl⟩
      · exact ⟨1, n, rfl⟩

/-- Sentences that are skipped have no letters. -/
theorem newCommits_glyphs {cfg : TextConfig} (hcfg : cfg.Proper) (firstSeq effSeq : Int) (k : Nat)
    (sents : List PyStr) :
    (newCommits cfg firstSeq effSeq k sents).flatMap (fun e => glyphs cfg e.2) =
      sents.flatMap (glyphs cfg) := by
  induction sents generalizing k with
  | nil => rfl
  | cons s ss ih =>
      rw [newCommits_cons, List.flatMap_append, ih (k + 1), List.flatMap_cons]
      split
      · next hs => rw [glyphs_of_noise hcfg hs, List.flatMap_nil]
      · rw [List.flatMap_singleton]

/-- The numbers let go in `out` and those of the pending commits do not decrease, up to
the number of the pending sentence and up to `e`. -/
structure Ordered (out : List Int) (st : StreamState σ) (e : Int) : Prop where
  sorted : (out ++ st.pendingCommits.map Prod.fst).Pairwise (· ≤ ·)
  below : ∀ x ∈ out ++ st.pendingCommits.map Prod.fst, x ≤ e
  pending : 0 ≤ st.pendingSentenceSeq → st.pendingSentenceSeq ≤ e ∧
    ∀ x ∈ out ++ st.pendingCommits.map Prod.fst, x ≤ st.pendingSentenceSeq

/-- The letters that wait and that are pending. -/
def buffered (cfg : TextConfig) (st : StreamState σ) : PyStr :=
  st.pendingCommits.flatMap (fun e => glyphs cfg e.2) ++ glyphs cfg st.pendingSentence

variable {cfg} {out : List Int} {st : StreamState σ} {e : Int}

theorem Ordered.mono (h : Ordered out st e) {e' : Int} (hle : e ≤ e') : Ordered out st e' where
  sorted := h.sorted
  below x hx := Int.le_trans (h.below x hx) hle
  pending hseq := ⟨Int.le_trans (h.pending hseq).1 hle, (h.pending hseq).2⟩

/-- Fewer numbers, in the same order. -/
theorem Ordered.sublist (h : Ordered out st e) {out' : List Int} {st' : StreamState σ}
    (hseq : st'.pendingSentenceSeq = st.pendingSentenceSeq)
    (hsub : (out' ++ st'.pendingCommits.map Prod.fst).Sublist
      (out ++ st.pendingCommits.map Prod.fst)) : Ordered out' st' e where
  sorted := h.sorted.sublist hsub
  below x hx := h.below x (hsub.subset hx)
  pending hnonneg := by
    rw [hseq] at hnonneg ⊢
    exact ⟨(h.pending hnonneg).1, fun x hx => (h.pending hnonneg).2 x (hsub.subset hx)⟩

/-- Numbers that are put behind: none below the pending sentence, none above `e`. -/
theorem Ordered.push (h : Ordered out st e) {first : Int} (hfirst : first ≤ e)
    (hbelow : ∀ x ∈ out ++ st.pendingCommits.map Prod.fst, x ≤ first)
    {new : List (Int × PyStr)} {m n : Nat}
    (hnew : new.map Prod.fst = List.replicate m first ++ List.replicate n e)
    {sentence : PyStr} {seq : Int} (hseq : seq = -1 ∨ seq = e) :
    Ordered out { st with
      pendingCommits := st.pendingCommits ++ new
      pendingSentence := sentence
      pendingSentenceSeq := seq } e := by
  have hmem : ∀ x ∈ new.map Prod.fst, first ≤ x ∧ x ≤ e := by
    intro x hx
    rw [hnew, List.mem_append, List.mem_replicate, List.mem_replicate] at hx
    omega
  have hall : ∀ x ∈ out ++ (st.pendingCommits ++ new).map Prod.fst, x ≤ e := by
    intro x hx
    rw [List.map_append, ← List.append_assoc, List.mem_append] at hx
    rcases hx with hx | hx
    · exact h.below x hx
    · exact (hmem x hx).2
  refine ⟨?_, hall, fun hnonneg => ?_⟩
  · show (out ++ (st.pendingCommits ++ new).map Prod.fst).Pairwise (· ≤ ·)
    rw [List.map_append, ← List.append_assoc, List.pairwise_append]
    refine ⟨h.sorted, ?_, fun x hx y hy => ?_⟩
    · rw [hnew, List.pairwise_append]
      refine ⟨?_, ?_, fun x hx y hy => ?_⟩
      · simp [List.pairwise_replicate]
      · simp [List.pairwise_replicate]
      · rw [(List.mem_replicate.mp hx).2, (List.mem_replicate.mp hy).2]
        exact hfirst
    · exact Int.le_trans (hbelow x hx) (hmem y hy).1
  · have hlast : seq = e := by
      rcases hseq with hneg | he
      · rw [hneg] at hnonneg
        cases hnonneg
      · exact he
    subst hlast
    exact ⟨Int.le_refl _, hall⟩

/-- The number that a sentence begun earlier goes out with. -/
theorem Ordered.first (h : Ordered out st e) {c : Prop} [Decidable c]
    (hc : c → 0 ≤ st.pendingSentenceSeq) :
    (if c then st.pendingSentenceSeq else e) ≤ e ∧
      ∀ x ∈ out ++ st.pendingCommits.map Prod.fst,
        x ≤ if c then st.pendingSentenceSeq else e := by
  split
  · next hpos => exact ⟨(h.pending (hc hpos)).1, (h.pending (hc hpos)).2⟩
  · exact ⟨Int.le_refl e, h.below⟩

theorem lagCollectCommit_eq (effSeq : Int) (st : StreamState σ) (seg : PyStr) :
    Handler.lagCollectCommit cfg effSeq st seg =
      let s := normSpaces cfg.strict.text seg
      if s.isEmpty || isPunctOnly cfg.strict.text s then st
      else
        let merged := if !st.pendingSentence.isEmpty then joinTextParts st.pendingSentence s else s
        let split := splitCompleteSentencesText cfg.strict.text merged
        if split.1.isEmpty then
          { st with
            pendingSentence := merged
            pendingSentenceSeq :=
              if st.pendingSentenceSeq < 0 then effSeq else st.pendingSentenceSeq }
        else
          { st with
            pendingCommits := st.pendingCommits ++ newCommits cfg.strict.text
              (if !st.pendingSentence.isEmpty && decide (0 ≤ st.pendingSentenceSeq) then
                st.pendingSentenceSeq else effSeq) effSeq 0 split.1
            pendingSentence := split.2
            pendingSentenceSeq := if split.2.isEmpty then -1 else effSeq } := rfl

theorem Ordered.collect (h : Ordered out st e) (seg : PyStr) :
    Ordered out (Handler.lagCollectCommit cfg e st seg) e := by
  rw [lagCollectCommit_eq]
  dsimp only
  split
  · exact h
  · generalize splitCompleteSentencesText cfg.strict.text _ = out'
    split
    · refine ⟨h.sorted, h.below, ?_⟩
      dsimp only
      split
      · exact fun _ => ⟨Int.le_refl e, h.below⟩
      · exact h.pending
    · have hpos : (!st.pendingSentence.isEmpty && decide (0 ≤ st.pendingSentenceSeq)) = true →
          0 ≤ st.pendingSentenceSeq := by
        rw [Bool.and_eq_true, decide_eq_true_eq]
        exact And.right
      obtain ⟨hfirst, hbelow⟩ := h.first hpos
      obtain ⟨m, n, hnew⟩ := newCommits_fst cfg.strict.text _ e out'.1
      refine h.push hfirst hbelow hnew ?_
      split
      · exact .inl rfl
      · exact .inr rfl

theorem buffered_collect (hcfg : cfg.strict.text.Alphabetic) (effSeq : Int) (st : StreamState σ)
    (seg : PyStr) :
    buffered cfg.strict.text (Handler.lagCollectCommit cfg effSeq st seg) =
      buffered cfg.strict.text st ++ glyphs cfg.strict.text seg := by
  rw [lagCollectCommit_eq, ← glyphs_normSpaces hcfg seg]
  dsimp only
  generalize normSpaces cfg.strict.text seg = s
  split
  · next hnoise => rw [glyphs_of_noise hcfg.toProper hnoise, List.append_nil]
  · have hmerged : glyphs cfg.strict.text
        (if !st.pendingSentence.isEmpty then joinTextParts st.pendingSentence s else s) =
          glyphs cfg.strict.text st.pendingSentence ++ glyphs cfg.strict.text s := by
      split
      · exact glyphs_joinTextParts hcfg.toProper _ _
      · next hnone =>
          have hnil : st.pendingSentence = [] := by simpa using hnone
          rw [hnil, glyphs_nil, List.nil_append]
    revert hmerged
    generalize (if !st.pendingSentence.isEmpty then joinTextParts st.pendingSentence s else s) =
      merged
    intro hmerged
    split
    · rw [buffered, buffered, hmerged, List.append_assoc]
    · rw [buffered, buffered, List.flatMap_append, newCommits_glyphs hcfg.toProper,
        List.append_assoc, glyphs_split hcfg, hmerged, List.append_assoc]

end Collect

/-! ## Letting go -/

section Dispatch

variable {cfg : HandlerConfig σ} {out : List Int} {st : StreamState σ} {e : Int}

theorem Ordered.flushed (h : Ordered out st e) (force : Bool) :
    Ordered out (lagFlushed cfg e force st) e := by
  rw [lagFlushed]
  split
  · rw [Handler.lagFlushTail]
    split
    · exact ⟨h.sorted, h.below, fun hneg => by cases hneg⟩
    · have hone : ∀ (first : Int) (tail : PyStr), [(first, tail)].map Prod.fst =
          List.replicate 1 first ++ List.replicate 0 e := fun _ _ => rfl
      obtain ⟨hfirst, hbelow⟩ := h.first id
      exact h.push hfirst hbelow (hone _ _) (.inl rfl)
  · exact h

theorem buffered_flushed (hcfg : cfg.strict.text.Alphabetic) (effSeq : Int) (force : Bool)
    (st : StreamState σ) :
    buffered cfg.strict.text (lagFlushed cfg effSeq force st) = buffered cfg.strict.text st := by
  rw [lagFlushed]
  split
  · rw [Handler.lagFlushTail, buffered, buffered, glyphs_nil, List.append_nil,
      ← glyphs_normSpaces hcfg st.pendingSentence]
    dsimp only
    split
    · next hnoise => rw [glyphs_of_noise hcfg.toProper hnoise, List.append_nil]
    · rw [List.flatMap_append, List.flatMap_singleton]
  · rfl

/-- What the queue takes when it has room: all but the noise. -/
theorem enqueueAll_room {items : List (Int × PyStr)} {h : Handler σ}
    (hroom : h.commitQueue.length + items.length ≤ Handler.commitQueueSize) :
    (items.foldl (Handler.enqueueCommitSegment cfg) h).commitQueue = h.commitQueue ++
      (items.filter fun i => !(i.2.isEmpty || isPunctOnly cfg.strict.text i.2)).map
        fun i => ⟨i.1, i.2, h.epoch⟩ := by
  induction items generalizing h with
  | nil => exact (List.append_nil _).symm
  | cons item items ih =>
      rw [List.length_cons] at hroom
      rw [List.foldl_cons, Handler.enqueueCommitSegment]
      by_cases hnoise : (item.2.isEmpty || isPunctOnly cfg.strict.text item.2) = true
      · rw [if_pos hnoise, ih (by omega), List.filter_cons_of_neg (by simp [hnoise])]
      · have hfree : h.commitQueue.length < Handler.commitQueueSize := by omega
        have hkept : (!(item.2.isEmpty || isPunctOnly cfg.strict.text item.2)) = true := by
          simpa using hnoise
        rw [if_neg hnoise, if_pos hfree, List.filter_cons, if_pos hkept]
        rw [ih (by rw [List.length_append, List.length_singleton]; omega)]
        simp

theorem lagDispatchReady_eq (cfg : HandlerConfig σ) (draftEn : PyStr) (effSeq : Int)
    (force : Bool) (h : Handler σ) :
    Handler.lagDispatchReady cfg draftEn effSeq force h =
      (lagReleased cfg draftEn effSeq force h.stream).foldl (Handler.enqueueCommitSegment cfg)
        { h with stream := lagKept cfg draftEn effSeq force h.stream } := rfl

/-- A dispatch cuts the pending commits in two, and the first part goes into the queue. -/
theorem lagDispatchReady_moves (cfg : HandlerConfig σ) (draftEn : PyStr) (effSeq : Int)
    (force : Bool) (h : Handler σ)
    (hroom : h.commitQueue.length + (lagReleased cfg draftEn effSeq force h.stream).length ≤
      Handler.commitQueueSize) :
    (lagFlushed cfg effSeq force h.stream).pendingCommits =
        lagReleased cfg draftEn effSeq force h.stream ++
          (lagKept cfg draftEn effSeq force h.stream).pendingCommits ∧
      (Handler.lagDispatchReady cfg draftEn effSeq force h).stream =
        lagKept cfg draftEn effSeq force h.stream ∧
      (Handler.lagDispatchReady cfg draftEn effSeq force h).commitQueue = h.commitQueue ++
        ((lagReleased cfg draftEn effSeq force h.stream).filter fun i =>
          !(i.2.isEmpty || isPunctOnly cfg.strict.text i.2)).map fun i => ⟨i.1, i.2, h.epoch⟩ := by
  refine ⟨(List.take_append_drop _ _).symm, ?_, ?_⟩
  · rw [lagDispatchReady_eq]
    obtain ⟨queue, hqueue⟩ := Handler.enqueueAll_frame cfg
      (lagReleased cfg draftEn effSeq force h.stream)
      { h with stream := lagKept cfg draftEn effSeq force h.stream }
    rw [hqueue]
  · rw [lagDispatchReady_eq]
    exact enqueueAll_room (h := { h with stream := lagKept cfg draftEn effSeq force h.stream }) hroom

end Dispatch

/-! ## Runs -/

section Runs

variable {cfg : HandlerConfig σ}

namespace Lagged

/-- What was collected is let go, waits or is pending, and the numbers are in order. -/
structure Conserves (cfg : HandlerConfig σ) (calls : List LagCall) (w : Lagged σ) : Prop where
  letters : w.texts.flatMap (glyphs cfg.strict.text) =
    (calls.map LagCall.text).flatMap (glyphs cfg.strict.text)
  ordered : w.enSeqs.Pairwise (· ≤ ·)

/-- The letters let go, those that wait and those that are pending. -/
theorem texts_glyphs (cfg : TextConfig) (w : Lagged σ) :
    w.texts.flatMap (glyphs cfg) = w.enqueued.flatMap (fun s => glyphs cfg s.seg) ++
      buffered cfg w.handler.stream := by
  rw [texts, List.flatMap_append, List.flatMap_append, List.flatMap_map, List.flatMap_map,
    List.flatMap_singleton, buffered, List.append_assoc]

theorem letters_step (hcfg : cfg.strict.text.Alphabetic) {w w' : Lagged σ} {call : LagCall}
    (hroom : RoomFor cfg w call) (h : w.step cfg call = some w') :
    w'.texts.flatMap (glyphs cfg.strict.text) =
      w.texts.flatMap (glyphs cfg.strict.text) ++ glyphs cfg.strict.text call.text := by
  rw [texts_glyphs, texts_glyphs, List.append_assoc]
  cases call with
  | collect seg effSeq =>
      injection h with h
      subst h
      exact congrArg _ (buffered_collect hcfg effSeq w.handler.stream seg)
  | dispatch draftEn effSeq force =>
      injection h with h
      subst h
      obtain ⟨hcut, hstream, hqueue⟩ :=
        lagDispatchReady_moves cfg draftEn effSeq force w.handler hroom
      have hnoise : ∀ items : List (Int × PyStr), (items.filter fun i =>
          !(i.2.isEmpty || isPunctOnly cfg.strict.text i.2)).flatMap
            (fun i => glyphs cfg.strict.text i.2) =
          items.flatMap fun i => glyphs cfg.strict.text i.2 := by
        intro items
        induction items with
        | nil => rfl
        | cons item items ih =>
            rw [List.filter_cons, List.flatMap_cons]
            split
            · rw [List.flatMap_cons, ih]
            · next hskip =>
                rw [ih, glyphs_of_noise hcfg.toProper, List.nil_append]
                simpa only [Bool.not_eq_true', Bool.not_eq_false] using hskip
      show (w.taken ++ _).flatMap _ ++ buffered _ _ = _
      rw [hstream, hqueue, LagCall.text, glyphs_nil, List.append_nil,
        ← buffered_flushed hcfg effSeq force w.handler.stream, buffered, buffered, hcut,
        enqueued, List.flatMap_append, List.flatMap_append, List.flatMap_append,
        List.flatMap_map, hnoise, List.flatMap_append]
      simp only [List.append_assoc]
      rfl
  | take n =>
      injection h with h
      subst h
      rw [enqueued, enqueued, LagCall.text, glyphs_nil, List.append_nil, List.append_assoc,
        List.take_append_drop]

/-- The numbers let go are those of a list that holds the old ones. -/
theorem ordered_step {w w' : Lagged σ} {call : LagCall} {e : Int}
    (hcall : ∀ x, call.effSeq = some x → x = e) (hroom : RoomFor cfg w call)
    (h : w.step cfg call = some w')
    (ho : Ordered (w.enqueued.map Segment.enSeq) w.handler.stream e) :
    Ordered (w'.enqueued.map Segment.enSeq) w'.handler.stream e := by
  cases call with
  | collect seg effSeq =>
      obtain rfl := hcall effSeq rfl
      injection h with h
      subst h
      exact ho.collect seg
  | dispatch draftEn effSeq force =>
      obtain rfl := hcall effSeq rfl
      injection h with h
      subst h
      obtain ⟨hcut, hstream, hqueue⟩ :=
        lagDispatchReady_moves cfg draftEn effSeq force w.handler hroom
      have hflushed : Ordered _ (lagFlushed cfg effSeq force w.handler.stream) effSeq :=
        ho.flushed force
      refine hflushed.sublist (by rw [hstream]; rfl) ?_
      show List.Sublist ((w.taken ++ _).map _ ++ _) _
      rw [hstream, hqueue, hcut, enqueued, List.map_append, List.map_append, List.map_append,
        List.map_append, List.map_map, List.append_assoc, List.append_assoc, List.append_assoc]
      refine .append_left (.append_left ?_ _) _
      exact .append_right (List.filter_sublist.map Prod.fst) _
  | take n =>
      injection h with h
      subst h
      have hsame : (w.taken ++ w.handler.commitQueue.take n) ++ w.handler.commitQueue.drop n =
          w.enqueued := by rw [List.append_assoc, List.take_append_drop, enqueued]
      rw [enqueued, hsame]
      exact ho.sublist rfl (.refl _)

end Lagged

theorem exists_above (l : List Int) : ∃ e, ∀ x ∈ l, x ≤ e := by
  induction l with
  | nil => exact ⟨0, fun _ hx => by cases hx⟩
  | cons a l ih =>
      obtain ⟨e, he⟩ := ih
      refine ⟨max a e, fun x hx => ?_⟩
      rcases List.mem_cons.mp hx with rfl | hx
      · exact Int.le_max_left _ _
      · exact Int.le_trans (he x hx) (Int.le_max_right _ _)

/-- In order up to every number that is above those of the calls. -/
def OrderedAbove (calls : List LagCall) (w : Lagged σ) : Prop :=
  ∀ e, (∀ x ∈ calls.filterMap LagCall.effSeq, x ≤ e) →
    Ordered (w.enqueued.map Segment.enSeq) w.handler.stream e

theorem orderedAbove_step {calls : List LagCall} {call : LagCall} {w w' : Lagged σ}
    (hseq : ((calls ++ [call]).filterMap LagCall.effSeq).Pairwise (· ≤ ·))
    (hroom : RoomFor cfg w call) (h : w.step cfg call = some w') (ho : OrderedAbove calls w) :
    OrderedAbove (calls ++ [call]) w' := by
  intro e he
  rw [List.filterMap_append] at hseq he
  cases hcall : call.effSeq with
  | none =>
      have hold := ho e fun x hx => he x (List.mem_append_left _ hx)
      exact Lagged.ordered_step (fun x hx => by rw [hcall] at hx; cases hx) hroom h hold
  | some last =>
      have hlast : [call].filterMap LagCall.effSeq = [last] := by
        rw [List.filterMap_cons, hcall]
        rfl
      rw [hlast] at hseq he
      -- The numbers of the earlier calls are not above the one of this call.
      have hold := ho last fun x hx =>
        (List.pairwise_append.mp hseq).2.2 x hx last (List.mem_singleton_self last)
      have hnew := Lagged.ordered_step (fun x hx => by rw [hcall] at hx; injection hx with hx; exact hx.symm)
        hroom h hold
      exact hnew.mono (he last (List.mem_append_right _ (List.mem_singleton_self last)))

theorem lag_run (hcfg : cfg.strict.text.Alphabetic) (seg : σ) (calls : List LagCall)
    {w : Lagged σ} (hseq : (calls.filterMap LagCall.effSeq).Pairwise (· ≤ ·))
    (hroom : Guarded (Lagged.step cfg) (RoomFor cfg) (.init seg) calls)
    (hrun : run (Lagged.step cfg) (.init seg) calls = some w) :
    w.texts.flatMap (glyphs cfg.strict.text) =
        (calls.map LagCall.text).flatMap (glyphs cfg.strict.text) ∧ OrderedAbove calls w := by
  induction calls using List.reverseRecOn generalizing w with
  | nil =>
      injection hrun with hrun
      subst hrun
      refine ⟨?_, fun e _ => ⟨.nil, nofun, nofun⟩⟩
      show ([[]] : List PyStr).flatMap (glyphs cfg.strict.text) = []
      rw [List.flatMap_singleton, glyphs_nil]
  | append_singleton calls call ih =>
      obtain ⟨w₁, hrun₁, hlast⟩ := run_append.mp hrun
      obtain ⟨hroom₁, hroomLast⟩ := guarded_append.mp hroom
      obtain ⟨w₂, hstep, hend⟩ := run_cons_some.mp hlast
      injection hend with hend
      subst hend
      have hfirst : (calls.filterMap LagCall.effSeq).Pairwise (· ≤ ·) := by
        rw [List.filterMap_append] at hseq
        exact (List.pairwise_append.mp hseq).1
      obtain ⟨hletters, hordered⟩ := ih hfirst hroom₁ hrun₁
      have hcall : RoomFor cfg w₁ call := (hroomLast w₁ hrun₁).1
      refine ⟨?_, orderedAbove_step hseq hcall hstep hordered⟩
      rw [Lagged.letters_step hcfg hcall hstep, hletters, List.map_append, List.flatMap_append]
      exact congrArg _ (List.flatMap_singleton _ _).symm

/-- Whatever is collected and let go, in calls whose numbers do not decrease and with room in
the queue: no letter is lost, doubled or moved, and the numbers do not decrease. -/
theorem lag_conserves (cfg : HandlerConfig σ) (hcfg : cfg.strict.text.Alphabetic) (seg : σ)
    (calls : List LagCall) (w : Lagged σ)
    (hseq : (calls.filterMap LagCall.effSeq).Pairwise (· ≤ ·))
    (hroom : Guarded (Lagged.step cfg) (RoomFor cfg) (.init seg) calls)
    (hrun : run (Lagged.step cfg) (.init seg) calls = some w) : w.Conserves cfg calls := by
  obtain ⟨hletters, hordered⟩ := lag_run hcfg seg calls hseq hroom hrun
  obtain ⟨e, he⟩ := exists_above (calls.filterMap LagCall.effSeq)
  exact ⟨hletters, (hordered e he).sorted⟩

/-- The setting of the mode that is not strict, with one sentence held back. -/
def lagHandler (fixBrokenWords : Bool) : HandlerConfig Unit :=
  { defaultHandler with
    strict := ⟨⟨Char.isAlphanum, fixBrokenWords⟩, 2, 1, false⟩
    strictStableSentenceOnly := false
    lagFlushOnForce := true }

theorem alphabetic_lagHandler (fixBrokenWords : Bool) :
    (lagHandler fixBrokenWords).strict.text.Alphabetic where
  toProper := isAlphanum_proper fixBrokenWords
  alpha c hc := by
    show (c.isAlpha || c.isDigit) = true
    rw [hc, Bool.true_or]

/-- A fragment, the end of its sentence with two more, a dispatch that holds one sentence
back, and one that flushes. -/
def lagCalls : List LagCall :=
  [.collect "Good".toList 1, .collect "day. Yes. So".toList 2, .dispatch [] 2 false, .take 1,
    .dispatch [] 3 true]

theorem lag_conserves_flush :
    ∃ w, run (Lagged.step (lagHandler false)) (.init ()) lagCalls = some w ∧
      w.Conserves (lagHandler false) lagCalls :=
  ⟨_, rfl, lag_conserves (lagHandler false) (alphabetic_lagHandler false) () lagCalls _
    (by decide) (by decide +kernel) rfl⟩

/-- The letters themselves, not only up to case. -/
def KeepsLetters (cfg : HandlerConfig σ) (seg : σ) (calls : List LagCall) : Prop :=
  (calls.filterMap LagCall.effSeq).Pairwise (· ≤ ·) →
    Guarded (Lagged.step cfg) (RoomFor cfg) (.init seg) calls →
      ∀ w ∈ run (Lagged.step cfg) (.init seg) calls,
        w.texts.flatMap (letters cfg.strict.text) =
            (calls.map LagCall.text).flatMap (letters cfg.strict.text) ∧
          w.enSeqs.Pairwise (· ≤ ·)

/-- A repaired word is written as the list of such words has it. -/
theorem lag_lowers_case :
    ¬ KeepsLetters (lagHandler true) () [.collect "TO DAY".toList 1] := by
  unfold KeepsLetters
  decide +kernel

end Runs

end VTranser.Translator

import Mathlib.Data.List.Forall2
import VTranser.Proofs.Handler
import VTranser.Proofs.NormSpaces
import VTranser.Proofs.Tidy
import VTranser.Translator.Mt
import VTranser.Translator.Postprocess

/-!
# The stream of commits

The commit worker drops the segments of a batch that have no words, asks for the
translation of the others, and pairs what it gets with them place by place. The
translating function drops segments too, by the same rule, after normalizing them once
more. A normalized text is its own normal form, so the second filter drops nothing
(`keptSrc_pairs`) and the places agree.

From there on every commit that is sent carries the number and the translation of
one segment, in the order of the queue, as long as no reset sets the numbers back.
Translations that fail and segments without words leave out commits, and never
shift the others.
-/

namespace VTranser.Translator

open Run Handler

variable {σ : Type}

/-! ## What is sent -/

section Sent

/-- A `vi-commit` message. -/
structure Commit where
  append : PyStr
  seq : Nat
  enSeq : Int
  deriving DecidableEq, Repr

def Out.commit : Out → Option Commit
  | .viCommit append seq enSeq => some ⟨append, seq, enSeq⟩
  | .viDelta .. | .viDraft .. => none

/-- The commits that were sent. -/
def commits (h : Handler σ) : List Commit := h.sent.filterMap fun o => o.out.commit

/-- A connection, with the segments that the commit worker took from the queue. -/
structure Streamed (σ : Type) where
  handler : Handler σ
  taken : List Segment

namespace Streamed

/-- A new connection with some segments in its queue. -/
def init (seg : σ) (queue : List Segment) : Streamed σ :=
  ⟨{ Handler.init seg with commitQueue := queue }, []⟩

def step (cfg : HandlerConfig σ) (w : Streamed σ) (l : Label) : Option (Streamed σ) :=
  (Handler.step cfg w.handler l).map fun h =>
    match l with
    | .commitTake => ⟨h, w.taken ++ (takeBatch cfg w.handler.commitQueue).1⟩
    | _ => ⟨h, w.taken⟩

end Streamed

variable (cfg : HandlerConfig σ) (mt : Mt)

/-- No reset, and a batch is answered by `_mt_translate_many` if it does not fail. -/
def Answered (w : Streamed σ) : Label → Prop
  | .receive msg _ => msg.mtype ≠ .reset
  | .commitTranslated vis => ∀ batch, w.handler.commitWorker = .translating batch →
      ∃ translateBatch, mt.OneEach translateBatch ∧
        vis = commitVis cfg.strict.text mt translateBatch batch
  | _ => True

/-- A commit carries the number and a translation of this segment. -/
structure CommitOf (c : Commit) (s : Segment) : Prop where
  enSeq : c.enSeq = s.enSeq
  nonempty : c.append ≠ []
  translated : ∃ vi, mt.translation (normSpaces cfg.strict.text s.seg) vi ∧
    pyStrip c.append = pyStrip (mt.postprocessVi (mt.postprocessVi vi))

/-- The commits count from one, their texts are the whole translation, and each is the
commit of one segment, in the order in which these were taken from the queue. -/
structure Reconstructs (w : Streamed σ) : Prop where
  numbered : (commits w.handler).map Commit.seq = List.range' 1 (commits w.handler).length
  appended : (commits w.handler).flatMap Commit.append = w.handler.stream.viFull
  labelled : ∃ segs, segs.Sublist w.taken ∧
    List.Forall₂ (CommitOf cfg mt) (commits w.handler) segs

end Sent

/-! ## The places agree -/

section Places

variable {cfg : HandlerConfig σ} {mt : Mt}

/-- A segment as `commit_worker` hands it on. -/
def Segment.normed (cfg : TextConfig) (s : Segment) : Segment :=
  { s with seg := normSpaces cfg s.seg }

/-- The second filter keeps what the first one kept. -/
theorem keptSrc_pairs (batch : List Segment) :
    keptSrc cfg.strict.text ((pairs cfg batch).map Segment.seg) =
      (pairs cfg batch).map Segment.seg := by
  have hmem : ∀ s ∈ pairs cfg batch, normSpaces cfg.strict.text s.seg = s.seg ∧
      (!(s.seg.isEmpty || isPunctOnly cfg.strict.text s.seg)) = true := by
    intro s hs
    obtain ⟨hs, hwords⟩ := List.mem_filter.mp hs
    obtain ⟨s', -, rfl⟩ := List.mem_map.mp hs
    exact ⟨normSpaces_normSpaces cfg.strict.text s'.seg, hwords⟩
  have hnorm : ((pairs cfg batch).map Segment.seg).map (normSpaces cfg.strict.text) =
      (pairs cfg batch).map Segment.seg := by
    rw [List.map_map]
    exact List.map_congr_left fun s hs => (hmem s hs).1
  rw [keptSrc, hnorm, List.filter_eq_self]
  intro t ht
  obtain ⟨s, hs, rfl⟩ := List.mem_map.mp ht
  exact (hmem s hs).2

/-- The pair of a segment and its cleaned-up translation. -/
structure PairOf (cfg : HandlerConfig σ) (mt : Mt) (p : Segment × PyStr) (s : Segment) : Prop where
  enSeq : p.1.enSeq = s.enSeq
  translated : ∃ vi, mt.translation (normSpaces cfg.strict.text s.seg) vi ∧
    p.2 = mt.postprocessVi (mt.postprocessVi vi)

/-- Segments with texts that translate theirs, paired place by place. -/
theorem zip_pairOf {segs : List Segment} {vis : List PyStr}
    (h : List.Forall₂ mt.translation
      ((segs.map (Segment.normed cfg.strict.text)).map Segment.seg) vis) :
    List.Forall₂ (PairOf cfg mt) ((segs.map (Segment.normed cfg.strict.text)).zip
      ((vis.map mt.postprocessVi).map mt.postprocessVi)) segs := by
  induction segs generalizing vis with
  | nil => exact .nil
  | cons s segs ih =>
      cases h with
      | cons hvi hrest => exact .cons ⟨rfl, _, hvi, rfl⟩ (ih hrest)

/-- The segments of a batch that have words. -/
def worded (cfg : HandlerConfig σ) (batch : List Segment) : List Segment :=
  batch.filter fun s => !((normSpaces cfg.strict.text s.seg).isEmpty ||
    isPunctOnly cfg.strict.text (normSpaces cfg.strict.text s.seg))

theorem pairs_eq (batch : List Segment) :
    pairs cfg batch = (worded cfg batch).map (Segment.normed cfg.strict.text) := by
  rw [pairs, List.filter_map]
  rfl

/-- What the worker pairs with its batch belongs to it, place by place. -/
theorem answered_pairs {translateBatch : List PyStr → List PyStr} (hmt : mt.OneEach translateBatch)
    (batch : List Segment) :
    List.Forall₂ (PairOf cfg mt)
      ((pairs cfg batch).zip (commitVis cfg.strict.text mt translateBatch (pairs cfg batch)))
      (worded cfg batch) := by
  rw [commitVis, mtTranslateMany]
  split
  · next hnil =>
      have hbatch : pairs cfg batch = [] := List.map_eq_nil_iff.mp (List.isEmpty_iff.mp hnil)
      have hworded : worded cfg batch = [] := List.map_eq_nil_iff.mp ((pairs_eq batch).symm.trans hbatch)
      rw [hbatch, hworded]
      exact .nil
  · next hne =>
      rw [keptSrc_pairs, if_neg hne]
      rw [pairs_eq]
      exact zip_pairOf (hmt _)

end Places

/-! ## Sending -/

section Sending

variable {cfg : HandlerConfig σ} {mt : Mt} {h h' : Handler σ}

/-- A commit is the translation with blanks around it. -/
theorem pyStrip_joinVi {prevVi newVi : PyStr} (h : joinVi prevVi newVi ≠ []) :
    pyStrip (joinVi prevVi newVi) = pyStrip newVi := by
  have hblank : ∀ s : PyStr, pyStrip (s ++ [' ']) = pyStrip s ∧
      pyStrip (' ' :: s ++ [' ']) = pyStrip s := by
    intro s
    have hright : ∀ t : PyStr, pyStrip (t ++ [' ']) = pyStrip t := by
      intro t
      rw [pyStrip, pyStrip, List.dropWhile_append]
      split
      · next hnil =>
          rw [List.isEmpty_iff.mp hnil]
          rfl
      · rw [List.rdropWhile_concat_pos _ _ _ (by decide)]
    refine ⟨hright s, ?_⟩
    rw [hright, pyStrip, pyStrip, List.dropWhile_cons_of_pos (by decide)]
  rw [joinVi] at h ⊢
  split at h
  · exact absurd rfl h
  · next hne =>
      rw [if_neg hne]
      split
      · rw [(hblank _).1, pyStrip_pyStrip]
      · split
        · rw [(hblank _).1, pyStrip_pyStrip]
        · rw [(hblank _).2, pyStrip_pyStrip]

/-- What the worker still has to send belongs to these segments. -/
inductive Carries (cfg : HandlerConfig σ) (mt : Mt) : CommitWorker → List Segment → Prop
  | idle : Carries cfg mt .idle []
  | translating {taken} : Carries cfg mt (.translating (pairs cfg taken)) (worded cfg taken)
  | commitSent {app seg seq rest segs} : List.Forall₂ (PairOf cfg mt) rest segs →
      Carries cfg mt (.commitSent app seg seq rest) segs
  | deltaSent {rest segs} : List.Forall₂ (PairOf cfg mt) rest segs →
      Carries cfg mt (.deltaSent rest) segs

/-- The commits so far, and that the segments they and the worker go back to lie in order in
`taken`. -/
structure Streams (cfg : HandlerConfig σ) (mt : Mt) (taken : List Segment) (h : Handler σ) :
    Prop where
  count : h.stream.viSeq = (commits h).length
  numbered : (commits h).map Commit.seq = List.range' 1 (commits h).length
  appended : (commits h).flatMap Commit.append = h.stream.viFull
  labelled : ∃ sent held, (sent ++ held).Sublist taken ∧
    List.Forall₂ (CommitOf cfg mt) (commits h) sent ∧ Carries cfg mt h.commitWorker held

variable {taken : List Segment}

/-- A state with the same commits, number and text. -/
theorem Streams.same (hs : Streams cfg mt taken h) (hcommits : commits h' = commits h)
    (hseq : h'.stream.viSeq = h.stream.viSeq) (hfull : h'.stream.viFull = h.stream.viFull)
    (hworker : h'.commitWorker = h.commitWorker) : Streams cfg mt taken h' where
  count := by rw [hseq, hcommits, hs.count]
  numbered := by rw [hcommits, hs.numbered]
  appended := by rw [hfull, hcommits, hs.appended]
  labelled := by
    rw [hcommits, hworker]
    exact hs.labelled

theorem commits_beside {new : List (PyStr × Released)} (hb : Beside h new h') :
    commits h' = commits h := by
  obtain ⟨drafts, hsent, hdrafts⟩ := hb.sent
  have hnone : drafts.filterMap (fun o => o.out.commit) = [] := by
    rw [List.filterMap_eq_nil_iff]
    intro o ho
    have hdraft := hdrafts o ho
    cases hout : o.out with
    | viCommit => rw [hout] at hdraft; exact hdraft.elim
    | viDelta => rw [hout] at hdraft; exact hdraft.elim
    | viDraft => rfl
  rw [commits, hsent, List.filterMap_append, hnone, List.append_nil, commits]

theorem Streams.beside {new : List (PyStr × Released)} (hs : Streams cfg mt taken h)
    (hb : Beside h new h') : Streams cfg mt taken h' :=
  hs.same (commits_beside hb) hb.viSeq hb.viFull hb.worker

/-- The loop of the worker: what it skips gives no commit, and the first text that is not
empty is sent. -/
theorem Streams.emitCommits {todo : List (Segment × PyStr)} {sent held : List Segment}
    (hs : Streams cfg mt taken h) (htodo : List.Forall₂ (PairOf cfg mt) todo held)
    (hsub : (sent ++ held).Sublist taken)
    (hsent : List.Forall₂ (CommitOf cfg mt) (commits h) sent) :
    Streams cfg mt taken (emitCommits todo h) := by
  induction htodo with
  | nil => exact ⟨hs.count, hs.numbered, hs.appended, sent, [], hsub, hsent, .idle⟩
  | @cons p s todo held hpair hrest ih =>
      obtain ⟨seg, vi⟩ := p
      obtain ⟨henSeq, en, htrans, hvi⟩ := hpair
      rw [Handler.emitCommits]
      dsimp only
      split
      · exact ih ((List.sublist_append_right [s] held).append_left sent |>.trans hsub)
      · next hne =>
          have happ : joinVi h.stream.viFull vi ≠ [] := by simpa using hne
          have hcommits : commits (sendCommit seg (joinVi h.stream.viFull vi) todo h) =
              commits h ++ [⟨joinVi h.stream.viFull vi, h.stream.viSeq + 1, seg.enSeq⟩] := by
            rw [commits, sendCommit, Handler.send, List.filterMap_append]
            rfl
          show Streams cfg mt taken (sendCommit seg (joinVi h.stream.viFull vi) todo h)
          refine ⟨?_, ?_, ?_, sent ++ [s], held, ?_, ?_, .commitSent hrest⟩
          · rw [hcommits, List.length_append, ← hs.count]
            rfl
          · rw [hcommits, List.map_append, hs.numbered, List.length_append, hs.count,
              List.length_singleton, List.range'_concat, Nat.one_mul, Nat.add_comm 1]
            rfl
          · rw [hcommits, List.flatMap_append, hs.appended, List.flatMap_singleton]
            rfl
          · rwa [List.append_assoc, List.singleton_append]
          · rw [hcommits]
            have hlast : CommitOf cfg mt
                ⟨joinVi h.stream.viFull vi, h.stream.viSeq + 1, seg.enSeq⟩ s :=
              ⟨henSeq, happ, en, htrans, (pyStrip_joinVi happ).trans (congrArg pyStrip hvi)⟩
            exact List.rel_append hsent (.cons hlast .nil)

end Sending

/-! ## Runs -/

section Runs

variable {cfg : HandlerConfig σ} {mt : Mt}

/-- The worker takes a batch: the segments with words are what it holds. -/
theorem Streams.commitTake {taken : List Segment} {h : Handler σ} (hs : Streams cfg mt taken h) :
    Streams cfg mt (taken ++ (takeBatch cfg h.commitQueue).1) (commitTake cfg h) := by
  obtain ⟨sent, held, hsub, hsent, -⟩ := hs.labelled
  have hold : sent.Sublist taken := (List.sublist_append_left sent held).trans hsub
  refine ⟨hs.count, hs.numbered, hs.appended, ?_⟩
  by_cases hidle : (pairs cfg (takeBatch cfg h.commitQueue).1).isEmpty || cfg.mtUnavailable
  · have hworker : (Handler.commitTake cfg h).commitWorker = .idle := if_pos hidle
    refine ⟨sent, [], ?_, hsent, hworker ▸ .idle⟩
    rw [List.append_nil]
    exact hold.trans (List.sublist_append_left _ _)
  · have hworker : (Handler.commitTake cfg h).commitWorker =
        .translating (pairs cfg (takeBatch cfg h.commitQueue).1) := if_neg hidle
    exact ⟨sent, worded cfg (takeBatch cfg h.commitQueue).1, hold.append List.filter_sublist,
      hsent, hworker ▸ .translating⟩

/-- The worker gives up its batch. -/
theorem Streams.idle {taken : List Segment} {h : Handler σ} (hs : Streams cfg mt taken h) :
    Streams cfg mt taken { h with commitWorker := .idle } := by
  obtain ⟨sent, held, hsub, hsent, -⟩ := hs.labelled
  refine ⟨hs.count, hs.numbered, hs.appended, sent, [], ?_, hsent, .idle⟩
  rw [List.append_nil]
  exact (List.sublist_append_left sent held).trans hsub

theorem Streams.step {w : Streamed σ} {h' : Handler σ} {l : Label}
    (hs : Streams cfg mt w.taken w.handler) (hok : Answered cfg mt w l) (hl : l ≠ .commitTake)
    (hstep : Handler.step cfg w.handler l = some h') : Streams cfg mt w.taken h' := by
  cases step_effect hstep with
  | beside _ hb => exact hs.beside hb
  | released hb => exact hs.beside hb
  | @updated msg clocks h' _ _ hb =>
      have hkeeps := updateStream_keeps cfg msg clocks w.handler.stream
      generalize updateStream cfg msg clocks w.handler.stream = stream at hkeeps hb
      obtain ⟨hseq, -, -, hfull⟩ := hkeeps
      have hnext : Streams cfg mt w.taken { w.handler with stream } := hs.same rfl hseq hfull rfl
      exact hnext.beside hb
  | reset hm => exact absurd hm hok
  | @baseline msg clocks h₁ h' hm hbegins hseq hfull _ hb =>
      have hcommits : commits h₁ = commits w.handler := by rw [commits, hbegins.sent, commits]
      have hnext : Streams cfg mt w.taken h₁ := hs.same hcommits hseq hfull hbegins.worker
      exact hnext.beside hb
  | commitTake => exact absurd rfl hl
  | @commitTranslated batch vis hworker =>
      obtain ⟨translateBatch, hmt, rfl⟩ := hok batch hworker
      obtain ⟨sent, held, hsub, hsent, hheld⟩ := hs.labelled
      rw [hworker] at hheld
      cases hheld with
      | translating => exact hs.emitCommits (answered_pairs hmt _) hsub hsent
  | commitFailed => exact hs.idle
  | @deltaSent app seg seq rest _ hworker =>
      obtain ⟨sent, held, hsub, hsent, hheld⟩ := hs.labelled
      rw [hworker] at hheld
      cases hheld with
      | commitSent hrest =>
          have hcommits : commits (Handler.send (.viDelta app w.handler.stream.viSeq seg.enSeq)
              seg.epoch seq { w.handler with commitWorker := .deltaSent rest }) =
                commits w.handler := by
            rw [commits, Handler.send, List.filterMap_append]
            exact List.append_nil _
          refine ⟨by rw [hcommits]; exact hs.count, by rw [hcommits]; exact hs.numbered,
            by rw [hcommits]; exact hs.appended, sent, held, hsub, ?_, .deltaSent hrest⟩
          rwa [hcommits]
  | @commitsGoOn rest hworker =>
      obtain ⟨sent, held, hsub, hsent, hheld⟩ := hs.labelled
      have hrest : List.Forall₂ (PairOf cfg mt) rest held := by
        rcases hworker with hworker | ⟨-, app, seg, seq, hworker⟩
        · rw [hworker] at hheld
          cases hheld with
          | deltaSent hrest => exact hrest
        · rw [hworker] at hheld
          cases hheld with
          | commitSent hrest => exact hrest
      exact hs.emitCommits hrest hsub hsent

theorem streams_step {w w' : Streamed σ} {l : Label} (hs : Streams cfg mt w.taken w.handler)
    (hok : Answered cfg mt w l) (hstep : w.step cfg l = some w') :
    Streams cfg mt w'.taken w'.handler := by
  simp only [Streamed.step, Option.map_eq_some_iff] at hstep
  obtain ⟨h, hh, rfl⟩ := hstep
  by_cases hl : l = .commitTake
  · subst hl
    cases Handler.step_takes hh with
    | commitTake => exact hs.commitTake
  · have hnext := hs.step hok hl hh
    split
    · exact absurd rfl hl
    · exact hnext

/-- Whatever is queued, and whichever translations fail: without a reset the commits can be
put together again, and each is labelled with its own segment. -/
theorem commits_reconstruct (cfg : HandlerConfig σ) (mt : Mt) (seg : σ) (queue : List Segment)
    (ls : List Label) (w : Streamed σ)
    (hok : Guarded (Streamed.step cfg) (Answered cfg mt) (.init seg queue) ls)
    (hrun : run (Streamed.step cfg) (.init seg queue) ls = some w) : Reconstructs cfg mt w := by
  have hinit : Streams cfg mt (Streamed.init seg queue).taken (Streamed.init seg queue).handler :=
    ⟨rfl, rfl, rfl, [], [], .refl _, .nil, .idle⟩
  have hs : Streams cfg mt w.taken w.handler :=
    run_guarded (fun _ _ _ hi hok hstep => streams_step hi hok hstep) hinit hok hrun
  obtain ⟨sent, held, hsub, hsent, -⟩ := hs.labelled
  exact ⟨hs.numbered, hs.appended, sent, (List.sublist_append_left sent held).trans hsub, hsent⟩

/-- The batch that is being translated. -/
def asked : CommitWorker → List Segment
  | .translating batch => batch
  | .idle | .commitSent .. | .deltaSent _ => []

/-- The answers of a machine that translates a batch with `translateBatch`. -/
def AnsweredBy (cfg : HandlerConfig σ) (mt : Mt) (translateBatch : List PyStr → List PyStr)
    (w : Streamed σ) : Label → Prop
  | .receive msg _ => msg.mtype ≠ .reset
  | .commitTranslated vis =>
      vis = commitVis cfg.strict.text mt translateBatch (asked w.handler.commitWorker)
  | _ => True

instance (translateBatch : List PyStr → List PyStr) (w : Streamed σ) :
    ∀ l, Decidable (AnsweredBy cfg mt translateBatch w l)
  | .receive .. => inferInstanceAs (Decidable (_ ≠ _))
  | .commitTranslated _ => inferInstanceAs (Decidable (_ = _))
  | .readerResume _ | .release _ _ | .releaseResume _ _ | .commitTake | .commitFailed
  | .commitResume | .draftTake | .draftTranslated _ | .draftFailed | .draftResume =>
      isTrue trivial

theorem AnsweredBy.answered {translateBatch : List PyStr → List PyStr}
    (hmt : mt.OneEach translateBatch) (w : Streamed σ) (l : Label)
    (h : AnsweredBy cfg mt translateBatch w l) : Answered cfg mt w l := by
  cases l with
  | receive msg clocks => exact h
  | commitTranslated vis =>
      intro batch hworker
      simp only [AnsweredBy, hworker, asked] at h
      exact ⟨translateBatch, hmt, h⟩
  | _ => trivial

/-- What the machine makes of two short texts. -/
def shortVi (en : PyStr) : PyStr :=
  if en = "Hi.".toList then "Chào.".toList else if en = "so".toList then "vậy".toList else en

def shortMt : Mt :=
  ⟨fun en vi => vi = shortVi en, fun vi => postprocessVi lower vi none false⟩

theorem shortMt_oneEach : shortMt.OneEach (List.map shortVi) := by
  intro batch
  induction batch with
  | nil => exact .nil
  | cons s batch ih => exact .cons rfl ih

def plainHandler : HandlerConfig Unit := { defaultHandler with strictStableSentenceOnly := false }

def fiveSegments : List Segment :=
  [⟨1, "Hi .".toList, 0⟩, ⟨2, "...".toList, 0⟩, ⟨2, "so".toList, 0⟩, ⟨3, "--".toList, 0⟩,
    ⟨4, "No.".toList, 0⟩]

/-- A batch of two segments and dots, whose translation succeeds, and one that fails. -/
def twoBatches : List Label :=
  [.commitTake, .commitTranslated ["Chào.".toList, "vậy".toList], .commitResume, .commitResume,
    .commitResume, .commitResume, .commitTake, .commitFailed]

theorem commits_reconstruct_batches :
    ∃ w, run (Streamed.step plainHandler) (.init () fiveSegments) twoBatches = some w ∧
      Reconstructs plainHandler shortMt w :=
  ⟨_, rfl, commits_reconstruct plainHandler shortMt () fiveSegments twoBatches _
    (Guarded.mono (AnsweredBy.answered shortMt_oneEach) (by decide +kernel)) rfl⟩

end Runs

end VTranser.Translator

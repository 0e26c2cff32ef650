import VTranser.Lib.Run
import VTranser.Proofs.Segmenter

/-!
# What the segmenter commits over a run

A run of the segmenter never leaves its invariant, whatever is called in which
order. When the texts grow, what has been committed are the letters of the text up
to the committed boundary.

When a text is shorter than the committed boundary, the boundary goes back to the
end of that text, and what is committed is committed again once the text has grown
back. As long as each text still has the letters that are committed (`Holds`), the
commits are a beginning of the text, both for the beginnings of a fixed text and
for a growing text of which the last words are held back.
-/

namespace VTranser.Translator

open EndPatch Loop Run

variable {cfg : SegConfig} {s : SegState}

/-! ## Any calls -/

/-- A call of the segmenter. -/
inductive SegCall
  | updateStable (full : PyStr) (tMs : Option Int) (now : Int)
  | baseline (full : PyStr) (now : Int)
  | reset (now : Int)

def callStep (cfg : SegConfig) (s : SegState) : SegCall → Option SegState
  | .updateStable full tMs now => (s.updateStable cfg full tMs now).map Prod.fst
  | .baseline full now => some (.baseline cfg full now)
  | .reset now => some (.reset now)

theorem callStep_ends (cfg : SegConfig) (h : s.Inv) (call : SegCall) :
    Ends (callStep cfg s call) SegState.Inv := by
  cases call with
  | updateStable full tMs now =>
      refine .map ((updateStable_ends cfg full tMs now h).mono fun r hr => hr.inv)
  | baseline full now => exact .of_some (SegState.baseline_inv cfg full now)
  | reset now => exact .of_some (SegState.init_inv now)

/-- Steps that all end make up runs that end. -/
theorem run_ends {σ ι : Type} {step : σ → ι → Option σ} {I : σ → Prop}
    (hstep : ∀ s i, I s → Ends (step s i) I) :
    ∀ (is : List ι) {s : σ}, I s → Ends (run step s is) I
  | [], _, hI => .of_some hI
  | i :: is, s, hI => (hstep s i hI).bind fun _ hI' => run_ends hstep is hI'

/-- After any calls, the buffer is the text from `bufStart` on and does not begin with
white space. -/
theorem calls_inv (cfg : SegConfig) (now : Int) (calls : List SegCall) :
    ∃ s, run (callStep cfg) (.init now) calls = some s ∧
      s.bufStart ≤ s.baseFull.length ∧ s.baseFull.drop s.bufStart = s.buf ∧
      ∀ c ∈ s.buf.head?, isSpace c = false := by
  obtain ⟨s, hs, hinv⟩ := run_ends (fun s call h => callStep_ends cfg h call) calls
    (SegState.init_inv now)
  refine ⟨s, hs, hinv.start_le, hinv.rest, fun c hc => ?_⟩
  have hfront := List.head?_dropWhile_not (onChar pySpace) s.buf
  rw [show s.buf.dropWhile (onChar pySpace) = s.buf from hinv.front, hc] at hfront
  exact hfront

/-! ## How a text comes in -/

section Receive

/-- The committed part of a text. -/
def SegState.committed (s : SegState) : PyStr := s.baseFull.take s.bufStart

theorem letters_committed (cfg : SegConfig) (h : s.Inv) :
    letters cfg.text s.committed ++ letters cfg.text s.buf = letters cfg.text s.baseFull := by
  rw [SegState.committed, ← h.rest, letters_take_drop]

/-- White space after the place where the buffer is to begin does not count. -/
theorem letters_setBufFromFull (hproper : cfg.text.Proper) (full : PyStr) (start : Nat)
    (hfull : s.baseFull = full) :
    letters cfg.text (s.setBufFromFull full start).committed = letters cfg.text (full.take start) := by
  have hinv := SegState.setBufFromFull_inv hfull start
  have hsplit := letters_committed cfg hinv
  have hbuf : letters cfg.text (s.setBufFromFull full start).buf = letters cfg.text (full.drop start) := by
    show letters cfg.text (lstrip (full.drop (min start full.length))) = _
    rw [letters_lstrip hproper]
    by_cases hle : start ≤ full.length
    · rw [Nat.min_eq_left hle]
    · rw [Nat.min_eq_right (by omega), List.drop_length, List.drop_eq_nil_of_le (by omega)]
  have hbase : (s.setBufFromFull full start).baseFull = full := hfull
  rw [hbuf, hbase, ← letters_take_drop start full] at hsplit
  exact List.append_cancel_right hsplit

/-- A text that goes on where the last one ended. -/
theorem letters_receive_append (hproper : cfg.text.Proper) (h : s.Inv) {full : PyStr}
    (hpre : s.baseFull <+: full) :
    letters cfg.text (s.receive cfg full).committed = letters cfg.text s.committed := by
  rw [SegState.receive]
  split
  · next hempty =>
      rw [letters_setBufFromFull hproper full 0 rfl]
      have hnil : s.committed = [] := by
        rw [SegState.committed, List.isEmpty_iff.mp hempty, List.take_nil]
      rw [hnil]
      rfl
  · rw [if_pos (List.isPrefixOf_iff_prefix.mpr hpre)]
    obtain ⟨delta, rfl⟩ := hpre
    rw [List.drop_left]
    have hinv := SegState.appendToBuf_inv h delta
    have hsplit := letters_committed cfg hinv
    have hbase : ({ s with baseFull := s.baseFull ++ delta }.appendToBuf delta).baseFull =
        s.baseFull ++ delta := by
      rw [SegState.appendToBuf]
      split
      · rfl
      · split <;> rfl
    have hbuf : letters cfg.text ({ s with baseFull := s.baseFull ++ delta }.appendToBuf delta).buf =
        letters cfg.text s.buf ++ letters cfg.text delta := by
      rw [SegState.appendToBuf]
      split
      · next hempty =>
          rw [List.isEmpty_iff.mp hempty, letters_nil]
          exact (List.append_nil _).symm
      split
      · next hempty =>
          show letters cfg.text (lstrip delta) = letters cfg.text s.buf ++ _
          have hnil : s.buf = [] := List.isEmpty_iff.mp hempty
          rw [letters_lstrip hproper, hnil]
          rfl
      · exact letters_append _ _
    rw [hbuf, hbase, letters_append, ← letters_committed cfg h, ← List.append_assoc] at hsplit
    exact List.append_cancel_right (List.append_cancel_right hsplit)

/-- The text still has the letters that are committed, and where it is taken for a new
beginning none are left out. -/
def Holds (cfg : SegConfig) (s : SegState) (full : PyStr) : Prop :=
  letters cfg.text (full.take s.bufStart) = letters cfg.text s.committed ∧
    (¬s.baseFull <+: full → autoBaselineShouldTrigger cfg s.baseFull full = true →
      letters cfg.text (full.take (SegState.windowStart cfg full s.bufStart)) =
        letters cfg.text (full.take s.bufStart))

instance (cfg : SegConfig) (s : SegState) (full : PyStr) : Decidable (Holds cfg s full) :=
  inferInstanceAs (Decidable (_ ∧ (_ → _ → _)))

theorem advanceToBoundary_past (cfg : SegConfig) {full : PyStr} {idx : Nat}
    (h : full.length ≤ idx) : full.length ≤ advanceToBoundary cfg full idx := by
  rw [advanceToBoundary]
  split
  · exact h
  · rw [Nat.min_eq_right h, if_pos (by simp)]

theorem lcpLen_of_isPrefix {old new : PyStr} (h : new <+: old) : lcpLen old new = new.length := by
  obtain ⟨u, rfl⟩ := h
  induction new with
  | nil => cases u <;> rfl
  | cons c cs ih => rw [List.cons_append, lcpLen, if_pos rfl, ih, List.length_cons]

/-- A beginning of the last text. -/
theorem letters_receive_shorter (hproper : cfg.text.Proper) (h : s.Inv) {full : PyStr}
    (hpre : full <+: s.baseFull) (hnot : ¬s.baseFull <+: full) (hholds : Holds cfg s full) :
    letters cfg.text (s.receive cfg full).committed = letters cfg.text s.committed := by
  have hne : s.baseFull.isEmpty = false := by
    cases hempty : s.baseFull.isEmpty with
    | false => rfl
    | true =>
        rw [List.isEmpty_iff.mp hempty] at hnot
        exact absurd List.nil_prefix hnot
  have hnot' : ¬s.baseFull.isPrefixOf full = true := fun h' => hnot (List.isPrefixOf_iff_prefix.mp h')
  rw [SegState.receive, hne, if_neg Bool.false_ne_true, if_neg hnot']
  obtain ⟨start, hsame, hstart⟩ := SegState.rewrite_cases cfg full s
  have hcommitted : (s.rewrite cfg full).committed =
      ({ s with baseFull := full }.setBufFromFull full start).committed := by
    rw [SegState.committed, SegState.committed, hsame.base, hsame.start]
  rw [hcommitted, letters_setBufFromFull hproper full start rfl, ← hholds.1]
  rw [Nat.min_eq_left h.start_le] at hstart
  rcases hstart with ⟨hauto, rfl⟩ | ⟨-, ⟨-, rfl⟩ | ⟨hlcp, place, rfl⟩⟩
  · exact hholds.2 hnot hauto
  · rfl
  · -- The text ends before the boundary, and so does every place found in it.
    rw [lcpLen_of_isPrefix hpre] at hlcp
    rw [List.take_of_length_le (advanceToBoundary_past cfg (by omega)),
      List.take_of_length_le (by omega)]

/-- A text that, like the last, is a beginning of a known one. -/
theorem letters_receive (hproper : cfg.text.Proper) (h : s.Inv) {full whole : PyStr}
    (hbase : s.baseFull <+: whole) (hfull : full <+: whole) (hholds : Holds cfg s full) :
    letters cfg.text (s.receive cfg full).committed = letters cfg.text s.committed := by
  by_cases hpre : s.baseFull <+: full
  · exact letters_receive_append hproper h hpre
  · rcases List.prefix_or_prefix_of_prefix hbase hfull with h' | h'
    · exact absurd h' hpre
    · exact letters_receive_shorter hproper h h' hpre hholds

end Receive

/-! ## Texts one after the other -/

section Feed

/-- A text for `update_stable`, and the clocks. -/
structure Update where
  full : PyStr
  tMs : Option Int
  now : Int

/-- The segmenter, and all it has committed. -/
structure Feed where
  seg : SegState
  out : List PyStr

def feed (cfg : SegConfig) (f : Feed) (u : Update) : Option Feed :=
  (f.seg.updateStable cfg u.full u.tMs u.now).map fun r => ⟨r.1, f.out ++ r.2.1⟩

def Feed.init (now : Int) : Feed := ⟨.init now, []⟩

/-- What has been committed are the letters up to the committed boundary. -/
structure Feed.Inv (cfg : SegConfig) (f : Feed) : Prop where
  seg : f.seg.Inv
  tidy : Tidy f.seg.baseFull
  letters : letters cfg.text f.out.flatten = letters cfg.text f.seg.committed

variable {f : Feed}

theorem Feed.init_inv (cfg : SegConfig) (now : Int) : (Feed.init now).Inv cfg :=
  ⟨SegState.init_inv now, ⟨rfl, rfl, rfl⟩, rfl⟩

theorem feed_ends (hcfg : cfg.Lossless) (h : f.Inv cfg) (u : Update)
    (hkeep : letters cfg.text
      ({ f.seg with lastRxMono := u.now, lastRxTms := u.tMs.or f.seg.lastRxTms }.receive cfg
        (normSpaces cfg.text u.full)).committed = letters cfg.text f.seg.committed) :
    Ends (feed cfg f u) fun f' => f'.Inv cfg ∧ f'.seg.baseFull = normSpaces cfg.text u.full := by
  refine .map ((updateStable_ends cfg u.full u.tMs u.now h.seg).mono fun r hr => ?_)
  have hreceive := SegState.receive_inv
    (s := { f.seg with lastRxMono := u.now, lastRxTms := u.tMs.or f.seg.lastRxTms }) cfg
    (normSpaces cfg.text u.full) ⟨h.seg.start_le, h.seg.rest, h.seg.front⟩
  revert hkeep hr hreceive
  generalize ({ f.seg with lastRxMono := u.now, lastRxTms := u.tMs.or f.seg.lastRxTms } :
    SegState).receive cfg (normSpaces cfg.text u.full) = t
  intro hkeep hr hreceive
  obtain ⟨hinv, hfull⟩ := hreceive
  have htidy : Tidy t.baseFull := by
    rw [hfull]
    exact tidy_normSpaces hcfg.plain.fix _
  have hbase : r.1.baseFull = t.baseFull := hr.base
  refine ⟨⟨hr.inv, by rw [hbase]; exact htidy, ?_⟩, hbase.trans hfull⟩
  -- The letters of the text, counted before and after the flushes.
  have hbefore := letters_committed cfg hinv
  have hafter := letters_committed cfg hr.inv
  rw [hbase, ← hbefore, ← hr.kept hcfg htidy, ← List.append_assoc] at hafter
  show letters cfg.text (f.out ++ r.2.1).flatten = letters cfg.text r.1.committed
  rw [List.flatten_append, letters_append, h.letters, ← hkeep]
  exact (List.append_cancel_right hafter).symm

theorem defaultSeg_lossless : defaultSeg.Lossless where
  plain := ⟨isAlphanum_proper false, rfl⟩
  limits := ⟨by decide, by decide, by decide⟩
  roomy := Or.inr (Or.inr (Or.inl (by decide)))

/-- When the texts grow, everything up to the committed boundary has been committed, and
nothing twice. -/
theorem growing_committed (hcfg : cfg.Lossless) (now : Int) (us : List Update)
    (hnorm : ∀ u ∈ us, normSpaces cfg.text u.full = u.full)
    (hgrow : us.IsChain fun u v => u.full <+: v.full) :
    ∃ f, run (feed cfg) (.init now) us = some f ∧
      letters cfg.text f.out.flatten =
        letters cfg.text (f.seg.baseFull.take f.seg.bufStart) := by
  have hruns : ∀ (us : List Update) (f : Feed), f.Inv cfg →
      (∀ u ∈ us.head?, f.seg.baseFull <+: u.full) →
      (∀ u ∈ us, normSpaces cfg.text u.full = u.full) →
      us.IsChain (fun u v => u.full <+: v.full) → Ends (run (feed cfg) f us) (Feed.Inv cfg) := by
    intro us
    induction us with
    | nil => intro f hinv _ _ _; exact .of_some hinv
    | cons u us ih =>
        intro f hinv hhead hnorm hgrow
        have hself := hnorm u (by simp)
        have hpre : f.seg.baseFull <+: normSpaces cfg.text u.full := by
          rw [hself]
          exact hhead u rfl
        have hkeep := letters_receive_append
          (s := { f.seg with lastRxMono := u.now, lastRxTms := u.tMs.or f.seg.lastRxTms })
          hcfg.plain.proper ⟨hinv.seg.start_le, hinv.seg.rest, hinv.seg.front⟩ hpre
        refine (feed_ends hcfg hinv u hkeep).bind fun f' hf' => ?_
        have htail : us.IsChain fun u v => u.full <+: v.full := by
          cases us with
          | nil => exact .nil
          | cons w ws => exact (List.isChain_cons_cons.mp hgrow).2
        refine ih f' hf'.1 (fun v hv => ?_) (fun v hv => hnorm v (by simp [hv])) htail
        rw [hf'.2, hself]
        cases us with
        | nil => cases hv
        | cons w ws =>
            injection hv with hv
            rw [← hv]
            exact (List.isChain_cons_cons.mp hgrow).1
  obtain ⟨f, hrun, hinv⟩ := hruns us (.init now) (Feed.init_inv cfg now)
    (fun _ _ => List.nil_prefix) hnorm hgrow
  exact ⟨f, hrun, hinv.letters⟩

theorem growing_committed_greeting : ∃ f, run (feed defaultSeg) (.init 0)
      [⟨"Hello there.".toList, none, 1⟩, ⟨"Hello there. I am".toList, none, 2⟩] = some f ∧
    letters defaultSeg.text f.out.flatten =
      letters defaultSeg.text (f.seg.baseFull.take f.seg.bufStart) :=
  growing_committed defaultSeg_lossless 0 _ (by decide +kernel) (by decide +kernel)

/-- With a limit of ten characters and at least two words, a long word loses what does
not fit into the first and the last of its chunks. -/
theorem growing_drops : ¬∀ cfg : SegConfig, cfg.Plain → cfg.Limits → 0 < cfg.minWords →
    ∀ (now : Int) (us : List Update), (∀ u ∈ us, normSpaces cfg.text u.full = u.full) →
      us.IsChain (fun u v => u.full <+: v.full) →
      ∃ f, run (feed cfg) (.init now) us = some f ∧
        letters cfg.text f.out.flatten =
          letters cfg.text (f.seg.baseFull.take f.seg.bufStart) := by
  intro hall
  obtain ⟨f, hrun, hletters⟩ := hall
    { defaultSeg with minWords := 2, maxChars := 10, maxChars45 := 4, maxChars55 := 5 }
    ⟨isAlphanum_proper false, rfl⟩ ⟨by decide, by decide, by decide⟩ (by decide) 0
    [⟨"a bbbbbbbbbbbbbbbbbbbbbbbbbbbbbb c".toList, none, 600⟩] (by decide +kernel)
    (by decide +kernel)
  revert hletters
  have hdrops : ∀ f ∈ run (feed { defaultSeg with minWords := 2, maxChars := 10, maxChars45 := 4, maxChars55 := 5 })
      (.init 0) [⟨"a bbbbbbbbbbbbbbbbbbbbbbbbbbbbbb c".toList, none, 600⟩],
      ¬letters defaultSeg.text f.out.flatten =
        letters defaultSeg.text (f.seg.baseFull.take f.seg.bufStart) := by decide +kernel
  exact hdrops f hrun

theorem feed_step (hcfg : cfg.Lossless) {whole : PyStr} {u : Update} (h : f.Inv cfg)
    (hbase : f.seg.baseFull <+: whole) (hfull : normSpaces cfg.text u.full <+: whole)
    (hholds : Holds cfg f.seg (normSpaces cfg.text u.full)) :
    Ends (feed cfg f u) fun f' => f'.Inv cfg ∧ f'.seg.baseFull <+: whole := by
  have hkeep := letters_receive
    (s := { f.seg with lastRxMono := u.now, lastRxTms := u.tMs.or f.seg.lastRxTms })
    hcfg.plain.proper ⟨h.seg.start_le, h.seg.rest, h.seg.front⟩ hbase hfull hholds
  refine (feed_ends hcfg h u hkeep).mono fun f' hf' => ⟨hf'.1, ?_⟩
  rw [hf'.2]
  exact hfull

theorem letters_out_isPrefix {whole : PyStr} (h : f.Inv cfg) (hbase : f.seg.baseFull <+: whole) :
    letters cfg.text f.out.flatten <+: letters cfg.text whole := by
  rw [h.letters]
  exact letters_isPrefix ((List.take_prefix _ _).trans hbase)

/-- Beginnings of a fixed text, as long as none of them has lost what is committed. -/
theorem beginnings_committed_once (hcfg : cfg.Lossless) {whole : PyStr}
    (hwhole : normSpaces cfg.text whole = whole) (now : Int) (us : List Update)
    (hus : ∀ u ∈ us, u.full <+: whole)
    (hholds : Guarded (feed cfg) (fun f u => Holds cfg f.seg (normSpaces cfg.text u.full))
      (.init now) us) {f : Feed} (hrun : run (feed cfg) (.init now) us = some f) :
    letters cfg.text f.out.flatten <+: letters cfg.text whole := by
  have hlabels : Guarded (feed cfg) (fun _ u => u.full <+: whole) (.init now) us :=
    .of_labels hus
  have hinv := run_guarded (I := fun f => f.Inv cfg ∧ f.seg.baseFull <+: whole)
    (fun f u f' hI hok hstep => ?_) ⟨Feed.init_inv cfg now, List.nil_prefix⟩
    (hholds.and hlabels) hrun
  · exact letters_out_isPrefix hinv.1 hinv.2
  · have hfull := normSpaces_isPrefix hcfg.plain.fix hok.2
    rw [hwhole] at hfull
    exact (feed_step hcfg hI.1 hI.2 hfull hok.1).of_eq hstep

/-- A text that grows, and shrinks to a place behind the committed boundary. -/
theorem beginnings_committed_once_greeting : ∃ f, run (feed defaultSeg) (.init 0)
      [⟨"Hello there.".toList, none, 1⟩, ⟨"Hello there. I am".toList, none, 2⟩,
        ⟨"Hello there. I".toList, none, 3⟩, ⟨"Hello there. I am here".toList, none, 4⟩] = some f ∧
    letters defaultSeg.text f.out.flatten <+:
      letters defaultSeg.text "Hello there. I am here".toList := by
  have hsome : (run (feed defaultSeg) (.init 0)
      [⟨"Hello there.".toList, none, 1⟩, ⟨"Hello there. I am".toList, none, 2⟩,
        ⟨"Hello there. I".toList, none, 3⟩,
        ⟨"Hello there. I am here".toList, none, 4⟩]).isSome = true := by decide +kernel
  obtain ⟨f, hrun⟩ := Option.isSome_iff_exists.mp hsome
  exact ⟨f, hrun, beginnings_committed_once defaultSeg_lossless (by decide +kernel) 0 _
    (by decide +kernel) (by decide +kernel) hrun⟩

/-- A text that shrinks to a place before the committed boundary, and grows again. -/
theorem beginnings_repeat : ∃ f, run (feed defaultSeg) (.init 0)
      [⟨"Hello there.".toList, none, 1⟩, ⟨"Hello".toList, none, 2⟩,
        ⟨"Hello there.".toList, none, 3⟩] = some f ∧
    ¬letters defaultSeg.text f.out.flatten <+:
      letters defaultSeg.text "Hello there. I am here".toList := by
  have hrepeat : ((run (feed defaultSeg) (.init 0)
      [⟨"Hello there.".toList, none, 1⟩, ⟨"Hello".toList, none, 2⟩,
        ⟨"Hello there.".toList, none, 3⟩]).any fun f =>
      decide ¬letters defaultSeg.text f.out.flatten <+:
        letters defaultSeg.text "Hello there. I am here".toList) = true := by decide +kernel
  obtain ⟨f, hrun, hnot⟩ := (Option.any_eq_true _ _).mp hrepeat
  exact ⟨f, hrun, of_decide_eq_true hnot⟩

end Feed

/-! ## A growing text whose last words are held back -/

section Delay

theorem applyDelayWords_isPrefix (dcfg : DelayConfig) (full : PyStr) (force : Bool) :
    applyDelayWords dcfg full force <+: pyStrip full := by
  rw [applyDelayWords]
  dsimp only
  split
  · exact List.nil_prefix
  split
  · exact List.prefix_refl _
  split
  · exact List.prefix_refl _
  · have hkept : (dropLastNWordTokens dcfg.text (pyStrip full)
        (adaptiveDelayWords dcfg (pyStrip full))).1 <+: pyStrip full := by
      rw [dropLastNWordTokens]
      split
      · exact rstrip_isPrefix _
      · split
        · exact List.nil_prefix
        · exact (rstrip_isPrefix _).trans (List.take_prefix _ _)
    exact pyStrip_isPrefix_of_strip hkept

/-- A call of `_process_en_update` when the translator is not in strict mode: the text, and
whether its last words are released. -/
structure Speech where
  fullNorm : PyStr
  forceRelease : Bool
  tMs : Option Int
  now : Int

/-- What is fed to the segmenter, and the last text. -/
structure Pipe where
  feed : Feed
  last : PyStr

def Pipe.init (now : Int) : Pipe := ⟨.init now, []⟩

/-- The part of `_process_en_update` before the commits are dispatched, for a text that
goes on where the last one ended. -/
def processEnUpdate (dcfg : DelayConfig) (cfg : SegConfig) (p : Pipe) (u : Speech) : Option Pipe :=
  if p.last.isPrefixOf u.fullNorm then
    (feed cfg p.feed ⟨applyDelayWords dcfg u.fullNorm u.forceRelease, u.tMs, u.now⟩).map
      (⟨·, u.fullNorm⟩)
  else none

/-- On append-only speech every word is committed at most once, as long as the held back
text never loses what is committed. -/
theorem speech_committed_once (hcfg : cfg.Lossless) (dcfg : DelayConfig) (now : Int)
    (us : List Speech)
    (hholds : Guarded (processEnUpdate dcfg cfg) (fun p u => Holds cfg p.feed.seg
      (normSpaces cfg.text (applyDelayWords dcfg u.fullNorm u.forceRelease))) (.init now) us)
    {p : Pipe} (hrun : run (processEnUpdate dcfg cfg) (.init now) us = some p) :
    letters cfg.text p.feed.out.flatten <+: letters cfg.text p.last := by
  have hinv := run_guarded
    (I := fun p => p.feed.Inv cfg ∧ p.feed.seg.baseFull <+: normSpaces cfg.text p.last)
    (fun p u p' hI hok hstep => ?_) ⟨Feed.init_inv cfg now, List.nil_prefix⟩ hholds hrun
  · have hpre := letters_out_isPrefix hinv.1 hinv.2
    rwa [letters_normSpaces hcfg.plain.proper hcfg.plain.fix] at hpre
  · rw [processEnUpdate] at hstep
    split at hstep
    · next hlast =>
        obtain ⟨f', hfeed, rfl⟩ := Option.map_eq_some_iff.mp hstep
        have hbase := hI.2.trans
          (normSpaces_isPrefix hcfg.plain.fix (List.isPrefixOf_iff_prefix.mp hlast))
        have hfull := normSpaces_isPrefix hcfg.plain.fix
          (applyDelayWords_isPrefix dcfg u.fullNorm u.forceRelease)
        rw [normSpaces_pyStrip] at hfull
        have hends := feed_step
          (u := ⟨applyDelayWords dcfg u.fullNorm u.forceRelease, u.tMs, u.now⟩)
          hcfg hI.1 hbase hfull hok
        exact hends.of_eq hfeed
    · cases hstep

/-- The last two words are held back until the sentence ends. -/
def greeting : List Speech :=
  [⟨"Hello there. I am".toList, false, none, 1⟩, ⟨"Hello there. I am here".toList, false, none, 2⟩,
    ⟨"Hello there. I am here now.".toList, false, none, 3⟩]

theorem speech_committed_once_greeting :
    ∃ p, run (processEnUpdate defaultDelay defaultSeg) (.init 0) greeting = some p ∧
      greeting.map (fun u => applyDelayWords defaultDelay u.fullNorm u.forceRelease) =
        ["Hello".toList, "Hello there.".toList, "Hello there. I am here now.".toList] ∧
      p.feed.out = ["Hello there.".toList, "I am here now.".toList] ∧
      letters defaultSeg.text p.feed.out.flatten <+: letters defaultSeg.text p.last := by
  have hout : (run (processEnUpdate defaultDelay defaultSeg) (.init 0) greeting).map
      (fun p => p.feed.out) = some ["Hello there.".toList, "I am here now.".toList] := by
    decide +kernel
  obtain ⟨p, hrun, hp⟩ := Option.map_eq_some_iff.mp hout
  exact ⟨p, hrun, by decide +kernel, hp,
    speech_committed_once defaultSeg_lossless defaultDelay 0 _ (by decide +kernel) hrun⟩

/-- After a sentence ends nothing is held back, and two words are once it goes on. -/
theorem speech_repeats : ∃ p, run (processEnUpdate defaultDelay defaultSeg)
      (.init 0) [⟨"Hello there.".toList, false, none, 1⟩,
        ⟨"Hello there. I".toList, false, none, 2⟩,
        ⟨"Hello there. I am here".toList, false, none, 3⟩] = some p ∧
    ¬letters defaultSeg.text p.feed.out.flatten <+: letters defaultSeg.text p.last := by
  have hrepeat : ((run (processEnUpdate defaultDelay defaultSeg)
      (.init 0) [⟨"Hello there.".toList, false, none, 1⟩,
        ⟨"Hello there. I".toList, false, none, 2⟩,
        ⟨"Hello there. I am here".toList, false, none, 3⟩]).any fun p =>
      decide ¬letters defaultSeg.text p.feed.out.flatten <+:
        letters defaultSeg.text p.last) = true := by decide +kernel
  obtain ⟨p, hrun, hnot⟩ := (Option.any_eq_true _ _).mp hrepeat
  exact ⟨p, hrun, of_decide_eq_true hnot⟩

end Delay

end VTranser.Translator

import VTranser.Proofs.Chunks

/-!
# What the segmenter keeps and what it commits

The buffer of the segmenter is the rest of the text from `bufStart` on, without
white space in front (`SegState.Inv`). Every way a text comes in leaves it so
(`receive_inv`), and so does every cut.

A flush takes a beginning of the buffer away and commits it: the letters that are
committed and those that stay in the buffer are those of the buffer before
(`Eats`). Each of the four flushes ends and does so, and hence `updateStable` does
(`updateStable_ends`).
-/

namespace VTranser.Translator

open EndPatch Loop

variable {cfg : SegConfig}

/-! ## The invariant -/

/-- The buffer is the text from `bufStart` on, and it does not begin with white space. -/
structure SegState.Inv (s : SegState) : Prop where
  start_le : s.bufStart ≤ s.baseFull.length
  rest : s.baseFull.drop s.bufStart = s.buf
  front : lstrip s.buf = s.buf

namespace SegState

section Inv

variable {s : SegState}

theorem lstrip_eq_drop (t : PyStr) : t.drop (t.length - (lstrip t).length) = lstrip t :=
  (List.suffix_iff_eq_drop.mp (List.dropWhile_suffix _)).symm

theorem length_lstrip_le (t : PyStr) : (lstrip t).length ≤ t.length :=
  (List.dropWhile_suffix _).length_le

theorem init_inv (now : Int) : (init now).Inv := ⟨Nat.le_refl _, rfl, rfl⟩

theorem exhaust_inv (s : SegState) : s.exhaust.Inv :=
  ⟨Nat.le_refl _, List.drop_length, rfl⟩

theorem baseline_inv (cfg : SegConfig) (full : PyStr) (now : Int) : (baseline cfg full now).Inv :=
  ⟨Nat.le_refl _, List.drop_length, rfl⟩

/-- Where the buffer begins that `setBufFromFull` makes. -/
theorem setBufFromFull_bufStart (full : PyStr) (start : Nat) (s : SegState) :
    (s.setBufFromFull full start).bufStart =
      min start full.length +
        ((full.drop (min start full.length)).length -
          (lstrip (full.drop (min start full.length))).length) := by
  show min _ full.length = _
  have hle := length_lstrip_le (full.drop (min start full.length))
  rw [List.length_drop] at hle ⊢
  omega

theorem setBufFromFull_inv {full : PyStr} (hfull : s.baseFull = full) (start : Nat) :
    (s.setBufFromFull full start).Inv where
  start_le := by
    show min _ full.length ≤ s.baseFull.length
    rw [hfull]
    exact Nat.min_le_right _ _
  rest := by
    show s.baseFull.drop (s.setBufFromFull full start).bufStart = lstrip (full.drop (min start full.length))
    rw [hfull, setBufFromFull_bufStart, ← List.drop_drop, lstrip_eq_drop]
  front := lstrip_lstrip _

theorem appendToBuf_inv (h : s.Inv) (delta : PyStr) :
    ({ s with baseFull := s.baseFull ++ delta }.appendToBuf delta).Inv := by
  rw [appendToBuf]
  split
  · next hempty =>
      rw [List.isEmpty_iff.mp hempty]
      refine ⟨?_, ?_, h.front⟩
      · show s.bufStart ≤ (s.baseFull ++ []).length
        rw [List.append_nil]
        exact h.start_le
      · show (s.baseFull ++ []).drop s.bufStart = s.buf
        rw [List.append_nil]
        exact h.rest
  split
  · next hbuf =>
      -- Nothing was left of the old text, so the new part is all there is.
      have hlen : s.bufStart = s.baseFull.length := by
        have hrest := congrArg List.length h.rest
        have hle := h.start_le
        rw [List.length_drop, List.isEmpty_iff.mp hbuf, List.length_nil] at hrest
        omega
      have hle := length_lstrip_le delta
      refine ⟨?_, ?_, lstrip_lstrip _⟩
      · show s.bufStart + (delta.length - (lstrip delta).length) ≤ (s.baseFull ++ delta).length
        rw [List.length_append]
        omega
      · show (s.baseFull ++ delta).drop (s.bufStart + (delta.length - (lstrip delta).length)) =
          lstrip delta
        rw [hlen, List.drop_length_add_append, lstrip_eq_drop]
  · next hbuf =>
      refine ⟨?_, ?_, ?_⟩
      · show s.bufStart ≤ (s.baseFull ++ delta).length
        rw [List.length_append]
        exact Nat.le_trans h.start_le (Nat.le_add_right _ _)
      · show (s.baseFull ++ delta).drop s.bufStart = s.buf ++ delta
        rw [List.drop_append_of_le_length h.start_le, h.rest]
      · show lstrip (s.buf ++ delta) = s.buf ++ delta
        have hfront := h.front
        rw [lstrip] at hfront
        have hne : ¬(s.buf.dropWhile (onChar pySpace)).isEmpty = true := by rwa [hfront]
        rw [lstrip, List.dropWhile_append, if_neg hne, hfront]

/-- The same text, and the same part of it in the buffer. -/
structure SameText (t s : SegState) : Prop where
  base : t.baseFull = s.baseFull
  buf : t.buf = s.buf
  start : t.bufStart = s.bufStart

theorem Inv.sameText {t : SegState} (h : s.Inv) (hsame : SameText t s) : t.Inv where
  start_le := by rw [hsame.base, hsame.start]; exact h.start_le
  rest := by rw [hsame.base, hsame.start, hsame.buf]; exact h.rest
  front := by rw [hsame.buf]; exact h.front

/-- Where the window begins that `setTailWindowFromFull` leaves. -/
def windowStart (cfg : SegConfig) (full : PyStr) (minStart : Nat) : Nat :=
  advanceToBoundary cfg full (max
    (if cfg.hardRewriteTailChars = 0 || full.length ≤ cfg.hardRewriteTailChars then 0
      else full.length - cfg.hardRewriteTailChars) minStart)

/-- Where the buffer begins after a text that does not begin with the last: at the
window, where it began before, or at some boundary behind that. -/
theorem rewrite_cases (cfg : SegConfig) (full : PyStr) (s : SegState) : ∃ start,
    SameText (s.rewrite cfg full) ({ s with baseFull := full }.setBufFromFull full start) ∧
      (autoBaselineShouldTrigger cfg s.baseFull full = true ∧
          start = windowStart cfg full (min s.bufStart s.baseFull.length) ∨
        autoBaselineShouldTrigger cfg s.baseFull full = false ∧
          (s.bufStart ≤ lcpLen s.baseFull full ∧ start = s.bufStart ∨
            lcpLen s.baseFull full < s.bufStart ∧ ∃ place, start =
              advanceToBoundary cfg full (max place (min s.bufStart s.baseFull.length)))) := by
  rw [rewrite]
  dsimp only
  split
  · next hauto => exact ⟨_, ⟨rfl, rfl, rfl⟩, Or.inl ⟨hauto, rfl⟩⟩
  next hauto =>
  rw [Bool.not_eq_true] at hauto
  split
  · next hlcp => exact ⟨_, ⟨rfl, rfl, rfl⟩, Or.inr ⟨hauto, Or.inl ⟨hlcp, rfl⟩⟩⟩
  next hlcp =>
  rw [Nat.not_le] at hlcp
  split
  · exact ⟨_, ⟨rfl, rfl, rfl⟩, Or.inr ⟨hauto, Or.inr ⟨hlcp, _, rfl⟩⟩⟩
  split
  · exact ⟨_, ⟨rfl, rfl, rfl⟩, Or.inr ⟨hauto, Or.inr ⟨hlcp, _, rfl⟩⟩⟩
  · exact ⟨_, ⟨rfl, rfl, rfl⟩, Or.inr ⟨hauto, Or.inr ⟨hlcp, _, rfl⟩⟩⟩

theorem rewrite_inv (cfg : SegConfig) (full : PyStr) (s : SegState) :
    (s.rewrite cfg full).Inv ∧ (s.rewrite cfg full).baseFull = full := by
  obtain ⟨start, hsame, -⟩ := rewrite_cases cfg full s
  exact ⟨(setBufFromFull_inv rfl start).sameText hsame, hsame.base⟩

theorem receive_inv (cfg : SegConfig) (full : PyStr) (h : s.Inv) :
    (s.receive cfg full).Inv ∧ (s.receive cfg full).baseFull = full := by
  rw [receive]
  split
  · exact ⟨setBufFromFull_inv rfl _, rfl⟩
  split
  · next hpre =>
      obtain ⟨delta, rfl⟩ := List.isPrefixOf_iff_prefix.mp hpre
      rw [List.drop_left]
      refine ⟨appendToBuf_inv h delta, ?_⟩
      rw [appendToBuf]
      split
      · rfl
      · split <;> rfl
  · exact rewrite_inv cfg full s

theorem splitAtCut_inv (h : s.Inv) (cut : Nat) : (s.splitAtCut cut).2.Inv := by
  have hrest := congrArg List.length h.rest
  have hle := length_lstrip_le (s.buf.drop (min cut s.buf.length))
  have hstart := h.start_le
  rw [List.length_drop] at hrest hle
  refine ⟨?_, ?_, lstrip_lstrip _⟩
  · show s.bufStart + (min cut s.buf.length + ((s.buf.drop (min cut s.buf.length)).length -
      (lstrip (s.buf.drop (min cut s.buf.length))).length)) ≤ s.baseFull.length
    rw [List.length_drop]
    omega
  · show s.baseFull.drop (s.bufStart + (min cut s.buf.length +
      ((s.buf.drop (min cut s.buf.length)).length -
        (lstrip (s.buf.drop (min cut s.buf.length))).length))) =
      lstrip (s.buf.drop (min cut s.buf.length))
    rw [← List.drop_drop, h.rest, ← List.drop_drop, lstrip_eq_drop]

end Inv

end SegState

/-! ## The flushes -/

/-- Settings with which no flush drops anything. -/
structure SegConfig.Lossless (cfg : SegConfig) : Prop where
  plain : cfg.Plain
  limits : cfg.Limits
  roomy : cfg.Roomy

/-- What has left the buffer is committed, letter by letter. -/
structure Eats (cfg : SegConfig) (s : SegState) (r : List PyStr × SegState) : Prop where
  base : r.2.baseFull = s.baseFull
  inv : r.2.Inv
  kept : cfg.Lossless → Tidy s.baseFull →
    letters cfg.text r.1.flatten ++ letters cfg.text r.2.buf = letters cfg.text s.buf

section Flush

variable {s : SegState}

theorem Eats.nothing (h : s.Inv) : Eats cfg s ([], s) := ⟨rfl, h, fun _ _ => rfl⟩

/-- What does not touch the text eats what came before. -/
theorem Eats.sameText {out : List PyStr} {t u : SegState} (h : Eats cfg s (out, t))
    (hsame : SegState.SameText u t) : Eats cfg s (out, u) where
  base := hsame.base.trans h.base
  inv := h.inv.sameText hsame
  kept hcfg htidy := by
    show letters cfg.text out.flatten ++ letters cfg.text u.buf = _
    rw [hsame.buf]
    exact h.kept hcfg htidy

theorem Eats.trans {out out' : List PyStr} {t u : SegState} (h : Eats cfg s (out, t))
    (h' : Eats cfg t (out', u)) : Eats cfg s (out ++ out', u) where
  base := h'.base.trans h.base
  inv := h'.inv
  kept hcfg htidy := by
    have hrest := h'.kept hcfg (by rw [show t.baseFull = s.baseFull from h.base]; exact htidy)
    rw [List.flatten_append, letters_append, List.append_assoc, hrest]
    exact h.kept hcfg htidy

/-- A buffer without words is done with. -/
theorem Eats.exhaust {out : List PyStr} {t : SegState} (h : Eats cfg s (out, t))
    (hblank : ∀ c ∈ t.buf, onChar pySpace c = true) : Eats cfg s (out, t.exhaust) where
  base := h.base
  inv := t.exhaust_inv
  kept hcfg htidy := by
    have hletters := h.kept hcfg htidy
    have hnil : letters cfg.text t.buf = [] :=
      letters_eq_nil fun c hc => hcfg.plain.proper.space c (hblank c hc)
    rw [hnil] at hletters
    exact hletters

theorem blank_of_pyStrip {t : PyStr} (h : (pyStrip t).isEmpty = true) :
    ∀ c ∈ t, onChar pySpace c = true := by
  have hdrop : t.dropWhile (onChar pySpace) = [] := by
    have hrear := List.isEmpty_iff.mp h
    rw [pyStrip, List.rdropWhile_eq_nil_iff] at hrear
    cases hd : t.dropWhile (onChar pySpace) with
    | nil => rfl
    | cons c cs =>
        have hhead := List.head?_dropWhile_not (onChar pySpace) t
        rw [hd] at hhead hrear
        have hc := hrear c (by simp)
        rw [List.head?_cons] at hhead
        simp only [hc] at hhead
        cases hhead
  exact List.dropWhile_eq_nil_iff.mp hdrop

/-- A cut takes what is committed off the buffer. -/
theorem eats_splitAtCut (h : s.Inv) (cut : Nat) {out : List PyStr}
    (hout : cfg.Lossless → Tidy s.baseFull →
      letters cfg.text out.flatten = letters cfg.text (s.splitAtCut cut).1) :
    Eats cfg s (out, (s.splitAtCut cut).2) where
  base := rfl
  inv := SegState.splitAtCut_inv h cut
  kept hcfg htidy := by
    have hproper := hcfg.plain.proper
    have hhead := hout hcfg htidy
    show letters cfg.text out.flatten ++
      letters cfg.text (lstrip (s.buf.drop (min cut s.buf.length))) = _
    rw [hhead]
    show letters cfg.text (pyStrip (s.buf.take (min cut s.buf.length))) ++ _ = _
    rw [letters_pyStrip hproper, letters_lstrip hproper, letters_take_drop]

theorem length_splitAtCut {cut : Nat} (hcut : 0 < cut) (hbuf : s.buf ≠ []) :
    (s.splitAtCut cut).2.buf.length < s.buf.length := by
  have hlen := List.length_pos_iff.mpr hbuf
  have hle := SegState.length_lstrip_le (s.buf.drop (min cut s.buf.length))
  rw [List.length_drop] at hle
  show (lstrip (s.buf.drop (min cut s.buf.length))).length < s.buf.length
  omega

/-- The chunks of a head have its letters, where short chunks may stand. -/
theorem chunks_ends (cfg : SegConfig) (head text : PyStr) (noise : Bool)
    (hnoise : noise = true → cfg.Plain → letters cfg.text head = [])
    (htext : cfg.Plain → letters cfg.text head = letters cfg.text text) :
    Ends (if noise then some [] else chunkByLimits cfg head true) fun out =>
      cfg.Plain → letters cfg.text out.flatten = letters cfg.text text := by
  cases noise with
  | true =>
      rw [if_pos rfl]
      refine .of_some fun hplain => ?_
      rw [← htext hplain, hnoise rfl hplain]
      rfl
  | false =>
      rw [if_neg Bool.false_ne_true]
      refine (chunkByLimits_ends cfg head true).mono fun out hout hplain => ?_
      rw [hout hplain (Or.inl rfl), htext hplain]

theorem firstPunctBoundary_spec {t : PyStr} {p : Nat} (h : firstPunctBoundary t = some p) :
    0 < p ∧ t ≠ [] := by
  rw [firstPunctBoundary, Option.map_eq_some_iff] at h
  obtain ⟨i, hi, rfl⟩ := h
  refine ⟨by omega, fun hnil => ?_⟩
  rw [hnil] at hi
  cases hi

theorem punctGateAllow_sameText (cfg : SegConfig) (head : PyStr) (now : Int) (s : SegState) :
    SegState.SameText (s.punctGateAllow cfg head now).2 s := by
  rw [SegState.punctGateAllow]
  split
  · exact ⟨rfl, rfl, rfl⟩
  · dsimp only
    split <;> exact ⟨rfl, rfl, rfl⟩

theorem punctRound_ends (cfg : SegConfig) (now : Int) (tMs : Option Int)
    (r : List PyStr × SegState) (hI : Eats cfg s r) :
    Ends (SegState.punctRound cfg now tMs r)
      (After (fun r' => Eats cfg s r' ∧ r'.2.buf.length < r.2.buf.length) (Eats cfg s)) := by
  obtain ⟨commit, t⟩ := r
  rw [SegState.punctRound]
  split
  · exact .of_some hI
  next pidx hpidx =>
  obtain ⟨hpos, hne⟩ := firstPunctBoundary_spec hpidx
  dsimp only
  generalize hgate : (if (stripLeadingNoise (pyStrip (t.buf.take pidx))).isEmpty = true then (true, t)
    else t.punctGateAllow cfg (stripLeadingNoise (pyStrip (t.buf.take pidx))) now) = gate
  have hsame : SegState.SameText gate.2 t := by
    rw [← hgate]
    split
    · exact ⟨rfl, rfl, rfl⟩
    · exact punctGateAllow_sameText cfg _ now t
  have hI' : Eats cfg s (commit, gate.2) := hI.sameText hsame
  split
  · exact .of_some hI'
  have hhead : cfg.Plain → letters cfg.text (stripLeadingNoise (pyStrip (t.buf.take pidx))) =
      letters cfg.text (gate.2.splitAtCut pidx).1 := fun hplain => by
    show _ = letters cfg.text (pyStrip (gate.2.buf.take (min pidx gate.2.buf.length)))
    rw [letters_stripLeadingNoise hplain.proper, hsame.buf, ← List.take_eq_take_min]
  have hnoise : ((stripLeadingNoise (pyStrip (t.buf.take pidx))).isEmpty ||
      isPunctOnly cfg.text (stripLeadingNoise (pyStrip (t.buf.take pidx)))) = true → cfg.Plain →
      letters cfg.text (stripLeadingNoise (pyStrip (t.buf.take pidx))) = [] :=
    fun h hplain => letters_of_noise hplain.proper h
  refine .map ((chunks_ends cfg _ _ _ hnoise hhead).mono fun chunks hchunks => ?_)
  have hcut := hI'.trans (eats_splitAtCut hI'.inv pidx fun hcfg _ => hchunks hcfg.plain)
  split
  · next hblank =>
      exact Eats.exhaust (hcut.sameText ⟨rfl, rfl, rfl⟩) (blank_of_pyStrip hblank)
  · refine ⟨hcut.sameText ⟨rfl, rfl, rfl⟩, ?_⟩
    have hlen := length_splitAtCut (s := gate.2) hpos (by rw [hsame.buf]; exact hne)
    rw [hsame.buf] at hlen
    exact hlen

theorem punctFlush_ends (cfg : SegConfig) (now : Int) (tMs : Option Int) (h : s.Inv) :
    Ends (s.punctFlush cfg now tMs) (Eats cfg s) :=
  loop_ends (fun r => r.2.buf.length) (fun r hr => punctRound_ends cfg now tMs r hr)
    (Eats.nothing h) (Nat.lt_succ_self _)

/-- The cut of the buffer is within the limits, or its last word runs over them. -/
theorem cutIndexForBufLimits_spec (hlimits : cfg.Limits) {buf : PyStr} (hfront : lstrip buf = buf)
    {cut : Nat} (h : cutIndexForBufLimits cfg buf = some cut) :
    wordCount (buf.take cut) ≤ cfg.maxWords ∧
      ((buf.take cut).length ≤ cfg.maxChars ∨ RunsOver cfg buf cut) := by
  rw [cutIndexForBufLimits] at h
  simp only [hfront] at h
  split at h
  · cases h
  next hne =>
  rw [List.isEmpty_iff] at hne
  split at h
  · next hfits =>
      rw [Bool.and_eq_true, decide_eq_true_eq, decide_eq_true_eq] at hfits
      injection h with h
      rw [← h, List.take_length]
      exact ⟨hfits.1, Or.inl hfits.2⟩
  · injection h with h
    have hspec := cut_spec hlimits.words hlimits.chars hne
    obtain ⟨cutWords, cutChars, hw, hc, hcut⟩ := cutByLimits_spec hlimits.words hlimits.chars hne
    have hwspec := cutRelByWords_spec hne hw
    have hcspec := cutRelByChars_spec hne hc
    have hsame : max 1 (min (cutByLimits cfg buf) buf.length) = cutByLimits cfg buf := by omega
    rw [hsame, Nat.sub_self, Nat.zero_add] at h
    rw [h] at hspec
    refine ⟨hspec.1, hspec.2.imp_left fun hle => ?_⟩
    rw [List.length_take]
    omega

/-- What a pause cuts off a buffer in order. -/
theorem pauseHead (hlimits : cfg.Limits) (h : s.Inv) (htidy : Tidy s.baseFull) {cut : Nat}
    (hcut : cutIndexForBufLimits cfg s.buf = some cut)
    (hleast : max 1 cfg.minWords ≤ wordCount (stripLeadingNoise (s.splitAtCut cut).1)) :
    PauseHead cfg (stripLeadingNoise (s.splitAtCut cut).1) := by
  have hcuttake : (s.splitAtCut cut).1 = pyStrip (s.buf.take cut) := by
    show pyStrip (s.buf.take (min cut s.buf.length)) = _
    rw [← List.take_eq_take_min]
  rw [hcuttake] at hleast ⊢
  have hpart : stripLeadingNoise (pyStrip (s.buf.take cut)) <:+: s.buf.take cut :=
    (stripLeadingNoise_part _).trans (pyStrip_part _)
  have hbuf : s.buf <:+: s.baseFull := by
    rw [← h.rest]
    exact (List.drop_suffix _ _).isInfix
  obtain ⟨hwords, hchars⟩ := cutIndexForBufLimits_spec hlimits h.front hcut
  refine ⟨bare_stripLeadingNoise _,
    htidy.part (hpart.trans ((List.take_prefix _ _).isInfix.trans hbuf)), hleast,
    Nat.le_trans (wordCount_part_le hpart) hwords, ?_⟩
  rcases hchars with hchars | hover
  · exact Or.inl (Nat.le_trans hpart.length_le hchars)
  · have hlen := hpart.length_le
    rw [List.length_take] at hlen
    have hle := hover.le
    refine Or.inr ⟨by omega, fun j hj => ?_⟩
    -- A blank of the head is one of the buffer, a little further on.
    obtain ⟨u, v, huv⟩ := hpart
    have hj' := spaceAt_lt hj
    have hat : (s.buf.take cut)[u.length + j]? =
        (stripLeadingNoise (pyStrip (s.buf.take cut)))[j]? := by
      conv_lhs => rw [← huv]
      rw [List.append_assoc, List.getElem?_append_right (Nat.le_add_right _ _),
        Nat.add_sub_cancel_left, List.getElem?_append_left hj']
    have hlt : u.length + j < (s.buf.take cut).length := by
      rw [← huv, List.length_append, List.length_append]
      omega
    rw [List.length_take] at hlt
    have hspace : SpaceAt s.buf (u.length + j) := by
      rw [SpaceAt, ← List.getElem?_take_of_lt (show u.length + j < cut by omega), hat]
      exact hj
    have := hover.blanks _ (by omega) hspace
    show j < min cfg.maxChars (max 6 cfg.maxChars55)
    omega

theorem pauseFlush_ends (cfg : SegConfig) (now : Int) (tMs : Option Int) (gapMs : Int) (h : s.Inv) :
    Ends (s.pauseFlush cfg now tMs gapMs) (Eats cfg s) := by
  rw [SegState.pauseFlush]
  split
  · split
    · exact .of_some (Eats.nothing h)
    next cut hcut =>
    obtain ⟨hcut, -⟩ := Option.filter_eq_some_iff.mp hcut
    dsimp only
    split
    · next hhead =>
        simp only [Bool.and_eq_true, decide_eq_true_eq] at hhead
        have hchunks : Ends (chunkByLimits cfg (stripLeadingNoise (s.splitAtCut cut).1) false)
            fun out => cfg.Lossless → Tidy s.baseFull →
              letters cfg.text out.flatten = letters cfg.text (s.splitAtCut cut).1 := by
          by_cases hgood : cfg.Lossless ∧ Tidy s.baseFull
          · obtain ⟨hcfg, htidy⟩ := hgood
            refine (chunkByLimits_whole hcfg.plain hcfg.limits hcfg.roomy
              (pauseHead hcfg.limits h htidy hcut hhead.2)).mono fun out hout _ _ => ?_
            rw [hout, letters_stripLeadingNoise hcfg.plain.proper]
          · exact (chunkByLimits_ends cfg _ false).mono fun out _ hcfg htidy =>
              absurd ⟨hcfg, htidy⟩ hgood
        refine .map (hchunks.mono fun chunks hletters => ?_)
        split
        · exact Eats.nothing h
        · exact (eats_splitAtCut h cut hletters).sameText ⟨rfl, rfl, rfl⟩
    · exact .of_some (Eats.nothing h)
  · exact .of_some (Eats.nothing h)

theorem maxRound_ends (cfg : SegConfig) (now : Int) (tMs : Option Int)
    (r : List PyStr × SegState) (hI : Eats cfg s r) :
    Ends (SegState.maxRound cfg now tMs r)
      (After (fun r' => Eats cfg s r' ∧ r'.2.buf.length < r.2.buf.length) (Eats cfg s)) := by
  obtain ⟨commit, t⟩ := r
  rw [SegState.maxRound]
  split
  · next hcount => exact .of_some (hI.exhaust (space_of_wordCount_eq_zero hcount))
  next hcount =>
  split
  · exact .of_some hI
  split
  · exact .of_some hI
  next cut hcut =>
  obtain ⟨-, hpos⟩ := Option.filter_eq_some_iff.mp hcut
  rw [decide_eq_true_eq] at hpos
  have hne : t.buf ≠ [] := fun hnil => hcount (by rw [hnil]; rfl)
  dsimp only
  have hflip : ∀ (noise : Bool) (x y : Option (List PyStr)),
      (if (!noise) = true then x else y) = if noise = true then y else x := fun noise x y => by
    cases noise <;> rfl
  rw [← Bool.not_or, hflip]
  have hhead : cfg.Plain → letters cfg.text (stripLeadingNoise (t.splitAtCut cut).1) =
      letters cfg.text (t.splitAtCut cut).1 := fun hplain =>
    letters_stripLeadingNoise hplain.proper _
  have hnoise : ((stripLeadingNoise (t.splitAtCut cut).1).isEmpty ||
      isPunctOnly cfg.text (stripLeadingNoise (t.splitAtCut cut).1)) = true → cfg.Plain →
      letters cfg.text (stripLeadingNoise (t.splitAtCut cut).1) = [] :=
    fun h hplain => letters_of_noise hplain.proper h
  refine .map ((chunks_ends cfg _ _ _ hnoise hhead).mono fun chunks hchunks => ?_)
  have hcut := hI.trans (eats_splitAtCut hI.inv cut fun hcfg _ => hchunks hcfg.plain)
  split
  · exact hcut.sameText ⟨rfl, rfl, rfl⟩
  · exact ⟨hcut.sameText ⟨rfl, rfl, rfl⟩, length_splitAtCut hpos hne⟩

theorem maxFlush_ends (cfg : SegConfig) (now : Int) (tMs : Option Int) (h : s.Inv) :
    Ends (s.maxFlush cfg now tMs) (Eats cfg s) :=
  loop_ends (fun r => r.2.buf.length) (fun r hr => maxRound_ends cfg now tMs r hr)
    (Eats.nothing h) (Nat.lt_succ_self _)

theorem countSafe_sameText (safe : PyStr) (s : SegState) : SegState.SameText (s.countSafe safe) s := by
  rw [SegState.countSafe]
  split <;> exact ⟨rfl, rfl, rfl⟩

theorem beatCommit_ends (cfg : SegConfig) (now : Int) (tMs : Option Int) (h : s.Inv) :
    Ends (s.beatCommit cfg now tMs) (Eats cfg s) := by
  rw [SegState.beatCommit]
  split
  · exact .of_some (Eats.nothing h)
  dsimp only
  generalize stripLeadingNoise (safePrefixByLimits cfg s.buf) = safe
  have hsame := countSafe_sameText safe s
  have hcount : Eats cfg s ([], s.countSafe safe) := (Eats.nothing h).sameText hsame
  split
  · generalize (s.countSafe safe).buf.length - (lstrip (s.countSafe safe).buf).length +
      safe.length = cut
    refine .map ((chunkByLimits_ends cfg _ true).mono fun chunks hchunks => ?_)
    split
    · exact hcount.sameText ⟨rfl, rfl, rfl⟩
    · have hletters : cfg.Lossless → Tidy (s.countSafe safe).baseFull →
          letters cfg.text chunks.flatten =
            letters cfg.text ((s.countSafe safe).splitAtCut cut).1 := fun hcfg _ => by
        rw [hchunks hcfg.plain (Or.inl rfl), letters_stripLeadingNoise hcfg.plain.proper]
      exact (hcount.trans (eats_splitAtCut hcount.inv cut hletters)).sameText ⟨rfl, rfl, rfl⟩
  · exact .of_some hcount

/-- The flushes one after the other. -/
theorem flush_ends (cfg : SegConfig) (tMs : Option Int) (now gapMs : Int) (h : s.Inv) :
    Ends (s.flush cfg tMs now gapMs) fun r => Eats cfg s (r.2.1, r.1) := by
  rw [SegState.flush]
  refine (punctFlush_ends cfg now tMs h).bind fun r₁ h₁ => ?_
  obtain ⟨commit₁, s₁⟩ := r₁
  dsimp only
  split
  · next hcount =>
      -- A buffer that does not begin with white space is empty when it has no words.
      have hnil : s₁.buf = [] := by
        rw [← show lstrip s₁.buf = s₁.buf from h₁.inv.front]
        exact List.dropWhile_eq_nil_iff.mpr (space_of_wordCount_eq_zero hcount)
      exact .of_some (h₁.sameText ⟨rfl, hnil.symm, rfl⟩)
  refine (pauseFlush_ends cfg now tMs gapMs h₁.inv).bind fun r₂ h₂ => ?_
  obtain ⟨commit₂, s₂⟩ := r₂
  have h₁₂ := h₁.trans h₂
  dsimp only
  split
  · next hcount =>
      exact .of_some ((h₁₂.exhaust (space_of_wordCount_eq_zero hcount)).sameText ⟨rfl, rfl, rfl⟩)
  refine (maxFlush_ends cfg now tMs h₂.inv).bind fun r₃ h₃ => ?_
  obtain ⟨commit₃, s₃⟩ := r₃
  have h₁₃ := h₁₂.trans h₃
  dsimp only
  split
  · next hcount =>
      exact .of_some ((h₁₃.exhaust (space_of_wordCount_eq_zero hcount)).sameText ⟨rfl, rfl, rfl⟩)
  refine (beatCommit_ends cfg now tMs h₃.inv).bind fun r₄ h₄ => ?_
  exact .of_some (h₁₃.trans h₄)

/-- A text comes in, and a beginning of what is then in the buffer is committed. -/
theorem updateStable_ends (cfg : SegConfig) (full : PyStr) (tMs : Option Int) (now : Int)
    (h : s.Inv) : Ends (s.updateStable cfg full tMs now) fun r =>
      Eats cfg ({ s with lastRxMono := now, lastRxTms := tMs.or s.lastRxTms }.receive cfg
        (normSpaces cfg.text full)) (r.2.1, r.1) := by
  rw [SegState.updateStable]
  have hinv := (SegState.receive_inv (s := { s with lastRxMono := now, lastRxTms := tMs.or s.lastRxTms })
    cfg (normSpaces cfg.text full) ⟨h.start_le, h.rest, h.front⟩).1
  revert hinv
  generalize ({ s with lastRxMono := now, lastRxTms := tMs.or s.lastRxTms } : SegState).receive cfg
    (normSpaces cfg.text full) = t
  intro hinv
  split
  · next hblank =>
      exact .of_some (((Eats.nothing hinv).exhaust (blank_of_pyStrip hblank)).sameText
        ⟨rfl, rfl, rfl⟩)
  · exact flush_ends cfg tMs now _ hinv

end Flush

end VTranser.Translator

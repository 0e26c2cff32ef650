import VTranser.Proofs.Cuts

/-!
# A text cut into chunks

`chunkByLimits` ends on every text, and when it may let short chunks stand, the
letters and digits of its chunks are those of the text (`chunkByLimits_ends`).

The flush after a pause does not let them stand: a chunk with fewer than
`SEG_MIN_WORDS` words is dropped. What it hands over is one chunk already, or its
last word runs over the limit of characters. Then there are two chunks, and the
second is the rest of that word, too long to be cut again when the limit is at
least as large as the search for a blank reaches (`chunkByLimits_whole`).
-/

namespace VTranser.Translator

open Loop

variable {cfg : SegConfig}

/-- White space and punctuation are no letters, and no broken words are repaired. -/
structure SegConfig.Plain (cfg : SegConfig) : Prop where
  proper : cfg.text.Proper
  fix : cfg.text.fixBrokenWords = false

/-! ## What is stripped -/

section Strip

theorem length_pyStrip_le (s : PyStr) : (pyStrip s).length ≤ s.length := (pyStrip_part s).length_le

theorem stripLeadingNoise_part (s : PyStr) : stripLeadingNoise s <:+: s :=
  (pyStrip_part _).trans ((List.dropWhile_suffix _).isInfix.trans (pyStrip_part _))

theorem length_stripLeadingNoise_le (s : PyStr) : (stripLeadingNoise s).length ≤ s.length :=
  (stripLeadingNoise_part s).length_le

/-- A text with no noise in front and no white space at its end. -/
structure Bare (s : PyStr) : Prop where
  front : ∀ c ∈ s.head?, isNoise c = false
  rear : rstrip s = s

theorem lstrip_of_front {s : PyStr} (h : ∀ c ∈ s.head?, isNoise c = false) : lstrip s = s := by
  refine lstrip_of_head fun c hc => ?_
  have hnoise := h c hc
  rw [isNoise, Bool.or_eq_false_iff] at hnoise
  exact hnoise.1

theorem Bare.pyStrip {s : PyStr} (h : Bare s) : pyStrip s = s := by
  show rstrip (lstrip s) = s
  rw [lstrip_of_front h.front, h.rear]

theorem Bare.stripLeadingNoise {s : PyStr} (h : Bare s) : stripLeadingNoise s = s := by
  have hfront : s.dropWhile isNoise = s := by
    cases s with
    | nil => rfl
    | cons c cs => exact List.dropWhile_cons_of_neg (by simp [h.front c rfl])
  rw [Translator.stripLeadingNoise, h.pyStrip, hfront, h.pyStrip]

theorem bare_stripLeadingNoise (s : PyStr) : Bare (stripLeadingNoise s) where
  front c hc := by
    have hfront : ∀ d ∈ ((VTranser.pyStrip s).dropWhile isNoise).head?, isNoise d = false := by
      intro d hd
      have hnot := List.head?_dropWhile_not isNoise (VTranser.pyStrip s)
      rw [hd] at hnot
      exact hnot
    obtain ⟨u, hu⟩ := rstrip_isPrefix (lstrip ((VTranser.pyStrip s).dropWhile isNoise))
    refine hfront c ?_
    rw [← lstrip_of_front hfront, ← hu, List.head?_append]
    rw [Translator.stripLeadingNoise] at hc
    change c ∈ (rstrip (lstrip ((VTranser.pyStrip s).dropWhile isNoise))).head? at hc
    rw [hc]
    rfl
  rear := rstrip_pyStrip _

end Strip

/-! ## The loop -/

section Loop

theorem chunkCut_pos (cfg : SegConfig) (allowShort : Bool) (cur : PyStr) :
    0 < chunkCut cfg allowShort cur := by
  rw [chunkCut]
  split
  · split <;> omega
  · omega

theorem letters_flatten_filter (hcfg : cfg.text.Proper) (out : List PyStr) :
    letters cfg.text (out.filter fun x => !x.isEmpty && !isPunctOnly cfg.text x).flatten =
      letters cfg.text out.flatten := by
  induction out with
  | nil => rfl
  | cons x xs ih =>
      rw [List.filter_cons, List.flatten_cons, letters_append]
      split
      · rw [List.flatten_cons, letters_append, ih]
      · next hx =>
          have hnil : letters cfg.text x = [] := by
            refine letters_of_noise hcfg ?_
            rwa [← Bool.not_or, Bool.not_eq_true', Bool.not_eq_false] at hx
          rw [hnil, ih]
          rfl

/-- The piece that a round takes out of a text, if it is no noise and not too short. -/
theorem letters_piece (hcfg : cfg.text.Proper) {least : Nat} (hleast : least ≤ 1)
    (out : List PyStr) (head : PyStr) :
    letters cfg.text (if !head.isEmpty && !isPunctOnly cfg.text head && least ≤ wordCount head then
        out ++ [head] else out).flatten = letters cfg.text out.flatten ++ letters cfg.text head := by
  split
  · rw [List.flatten_append, letters_append, List.flatten_singleton]
  · next hkeep =>
      have hnil : letters cfg.text head = [] := by
        by_cases hpunct : isPunctOnly cfg.text head = true
        · exact letters_of_isPunctOnly hcfg hpunct
        · by_cases hcount : wordCount head = 0
          · exact letters_eq_nil fun c hc => hcfg.space c (space_of_wordCount_eq_zero hcount c hc)
          · have hempty : head.isEmpty = true := by
              by_contra hempty
              refine hkeep ?_
              simp only [Bool.and_eq_true, Bool.not_eq_true', decide_eq_true_eq]
              exact ⟨⟨by simpa using hempty, by simpa using hpunct⟩, by omega⟩
            rw [List.isEmpty_iff.mp hempty]
            rfl
      rw [hnil, List.append_nil]

/-- What has come out and what is left have the letters of the text between them, where
short chunks may stand. -/
def ChunkInv (cfg : SegConfig) (allowShort : Bool) (text : PyStr) (r : List PyStr × PyStr) : Prop :=
  cfg.Plain → allowShort = true ∨ cfg.minWords ≤ 1 →
    letters cfg.text r.1.flatten ++ letters cfg.text r.2 = letters cfg.text text

theorem chunkRound_ends (cfg : SegConfig) (allowShort : Bool) (text : PyStr)
    (r : List PyStr × PyStr) (hI : ChunkInv cfg allowShort text r) :
    Ends (chunkRound cfg allowShort r)
      (After (fun r' => ChunkInv cfg allowShort text r' ∧ r'.2.length < r.2.length)
        fun r' => cfg.Plain → allowShort = true ∨ cfg.minWords ≤ 1 →
          letters cfg.text r'.1.flatten = letters cfg.text text) := by
  obtain ⟨out, cur⟩ := r
  replace hI : cfg.Plain → allowShort = true ∨ cfg.minWords ≤ 1 →
    letters cfg.text out.flatten ++ letters cfg.text cur = letters cfg.text text := hI
  rw [chunkRound]
  split
  · next hempty =>
      refine .of_some fun hplain hshort => ?_
      rw [← hI hplain hshort, List.isEmpty_iff.mp hempty]
      simp
  dsimp only
  have hbare : cfg.Plain → letters cfg.text (stripLeadingNoise cur) = letters cfg.text cur :=
    fun hplain => letters_stripLeadingNoise hplain.proper cur
  split
  · next hcount =>
      refine .of_some fun hplain hshort => ?_
      have hnil : letters cfg.text (stripLeadingNoise cur) = [] :=
        letters_eq_nil fun c hc => hplain.proper.space c (space_of_wordCount_eq_zero hcount c hc)
      rw [← hI hplain hshort, ← hbare hplain, hnil, List.append_nil]
  next hcount =>
  split
  · refine .of_some fun hplain hshort => ?_
    show letters cfg.text (out ++ [pyStrip (stripLeadingNoise cur)]).flatten = _
    rw [List.flatten_append, letters_append, List.flatten_singleton,
      letters_pyStrip hplain.proper, hbare hplain, hI hplain hshort]
  have hcut := chunkCut_pos cfg allowShort (stripLeadingNoise cur)
  revert hcut
  generalize chunkCut cfg allowShort (stripLeadingNoise cur) = cut
  intro hcut
  -- What is cut off and what is left have the letters of the text between them.
  have hpiece : cfg.Plain → allowShort = true ∨ cfg.minWords ≤ 1 →
      letters cfg.text (if !(stripLeadingNoise ((stripLeadingNoise cur).take cut)).isEmpty &&
          !isPunctOnly cfg.text (stripLeadingNoise ((stripLeadingNoise cur).take cut)) &&
          (if allowShort then 1 else max 1 cfg.minWords) ≤
            wordCount (stripLeadingNoise ((stripLeadingNoise cur).take cut)) then
        out ++ [stripLeadingNoise ((stripLeadingNoise cur).take cut)] else out).flatten ++
      letters cfg.text (pyStrip ((stripLeadingNoise cur).drop cut)) = letters cfg.text text := by
    intro hplain hshort
    have hleast : (if allowShort then 1 else max 1 cfg.minWords) ≤ 1 := by
      rcases hshort with h | h
      · rw [h]; exact Nat.le_refl _
      · split <;> omega
    rw [letters_piece hplain.proper hleast, letters_stripLeadingNoise hplain.proper,
      letters_pyStrip hplain.proper, List.append_assoc, letters_take_drop, hbare hplain,
      hI hplain hshort]
  have hlen : (pyStrip ((stripLeadingNoise cur).drop cut)).length < cur.length := by
    have hle := length_pyStrip_le ((stripLeadingNoise cur).drop cut)
    have hle' := length_stripLeadingNoise_le cur
    have hpos : 0 < (stripLeadingNoise cur).length := by
      refine List.length_pos_iff.mpr fun hnil => hcount ?_
      rw [hnil]
      rfl
    rw [List.length_drop] at hle
    omega
  split
  · next hlast =>
      refine .of_some fun hplain hshort => ?_
      rw [Bool.or_eq_true, decide_eq_true_eq] at hlast
      have htail : pyStrip ((stripLeadingNoise cur).drop cut) = [] := by
        rcases hlast with h | h
        · exact List.isEmpty_iff.mp h
        · have hle := length_pyStrip_le ((stripLeadingNoise cur).drop cut)
          rw [h, List.length_drop] at hle
          rw [h, ← List.length_eq_zero_iff]
          omega
      have h := hpiece hplain hshort
      rw [htail, letters_nil, List.append_nil] at h
      exact h
  · exact .of_some ⟨hpiece, hlen⟩

/-- Cutting into chunks ends, and loses no letters where short chunks may stand. -/
theorem chunkByLimits_ends (cfg : SegConfig) (text : PyStr) (allowShort : Bool) :
    Ends (chunkByLimits cfg text allowShort) fun out =>
      cfg.Plain → allowShort = true ∨ cfg.minWords ≤ 1 →
        letters cfg.text out.flatten = letters cfg.text text := by
  have hnorm : cfg.Plain → letters cfg.text (stripLeadingNoise (normSpaces cfg.text text)) =
      letters cfg.text text := fun hplain => by
    rw [letters_stripLeadingNoise hplain.proper, letters_normSpaces hplain.proper hplain.fix]
  rw [chunkByLimits]
  revert hnorm
  generalize stripLeadingNoise (normSpaces cfg.text text) = t
  intro hnorm
  split
  · next hnoise =>
      refine .of_some fun hplain _ => ?_
      rw [← hnorm hplain, letters_of_noise hplain.proper hnoise]
      rfl
  · refine .map ?_
    have hstart : ChunkInv cfg allowShort text ([], t) :=
      fun hplain _ => by rw [List.flatten_nil, letters_nil, List.nil_append, hnorm hplain]
    have hends := loop_ends (fun r => r.2.length) (chunkRound_ends cfg allowShort text) hstart
      (Nat.lt_succ_self _)
    refine hends.mono ?_
    intro r hr hplain hshort
    rw [letters_flatten_filter hplain.proper, hr hplain hshort]

end Loop

/-! ## Chunks that may not be short -/

section Pause

/-- The limits of a segment, and what is computed from them. -/
structure SegConfig.Limits (cfg : SegConfig) : Prop where
  words : 0 < cfg.maxWords
  chars : 0 < cfg.maxChars
  part : cfg.maxChars55 < cfg.maxChars

/-- The first blanks of a text that a cut at the limit of characters does not look at. -/
def SegConfig.near (cfg : SegConfig) : Nat := min cfg.maxChars (max 6 cfg.maxChars55)

/-- The limits leave no chunk with too few words after a pause: none is too few, or no
segment has enough, or the rest of a word fits into a chunk, or the blanks are not
enough for so many words. -/
def SegConfig.Roomy (cfg : SegConfig) : Prop :=
  cfg.minWords ≤ 1 ∨ cfg.maxWords < cfg.minWords ∨ 32 ≤ cfg.maxChars ∨
    cfg.near + 3 ≤ 2 * cfg.minWords

/-- What the flush after a pause hands over. -/
structure PauseHead (cfg : SegConfig) (head : PyStr) : Prop where
  bare : Bare head
  tidy : Tidy head
  least : max 1 cfg.minWords ≤ wordCount head
  most : wordCount head ≤ cfg.maxWords
  long : head.length ≤ cfg.maxChars ∨
    head.length ≤ cfg.maxChars + 32 ∧ ∀ j, SpaceAt head j → j < cfg.near

variable {head : PyStr}

/-- A text whose last word runs over the limit is cut right there. -/
theorem chunkCut_long (hlimits : cfg.Limits) (hhead : PauseHead cfg head) (hchars : 32 ≤ cfg.maxChars)
    (hlong : cfg.maxChars < head.length) (hblanks : ∀ j, SpaceAt head j → j < cfg.near) :
    chunkCut cfg false head = cfg.maxChars ∧ Bare (head.take cfg.maxChars) ∧
      wordCount (head.take cfg.maxChars) = wordCount head := by
  have hpart := hlimits.part
  have hnear : cfg.near = max 6 cfg.maxChars55 := Nat.min_eq_right (by omega)
  have hne : head ≠ [] := List.length_pos_iff.mp (by omega)
  have hlast : ¬SpaceAt head (cfg.maxChars - 1) := fun hspace => by
    have := hblanks _ hspace
    omega
  have hcount : wordCount (head.take cfg.maxChars) = wordCount head := by
    have hrun := inRunAfter_take (by omega) hlast
    rw [Nat.sub_add_cancel hlimits.chars] at hrun
    have hrest := not_space_of_mem_drop fun j hj =>
      Nat.lt_of_lt_of_le (hblanks j hj) (Nat.min_le_left cfg.maxChars (max 6 cfg.maxChars55))
    rw [← wordCount_append_word hrun hrest, List.take_append_drop]
  have hcut : cutByLimits cfg head = cfg.maxChars := by
    obtain ⟨cutWords, cutChars, hw, hc, hcut⟩ := cutByLimits_spec hlimits.words hlimits.chars hne
    rw [cutRelByWords_all hlimits.words hhead.most] at hw
    injection hw with hw
    have hbefore : (lastSpaceBefore head cfg.maxChars).filter
        (max 6 cfg.maxChars55 ≤ ·) = none := by
      rw [Option.filter_eq_none_iff]
      intro b hb hle
      have := hblanks b (lastSpaceBefore_some hb).2
      have := of_decide_eq_true hle
      omega
    have hafter : nextSpaceAfter head cfg.maxChars 32 = none := by
      cases hnext : nextSpaceAfter head cfg.maxChars 32 with
      | none => rfl
      | some f =>
          obtain ⟨hge, -, hspace, -⟩ := nextSpaceAfter_some hnext
          have := hblanks f hspace
          omega
    have hchars' := hlimits.chars
    rw [cutRelByChars, if_neg (by omega), if_neg (by omega)] at hc
    simp only [hbefore, hafter] at hc
    injection hc with hc
    omega
  have hbare : Bare (head.take cfg.maxChars) := by
    have hrear := rstrip_take (by omega) hlast
    rw [Nat.sub_add_cancel hlimits.chars] at hrear
    refine ⟨fun c hc => hhead.bare.front c ?_, hrear⟩
    rw [List.head?_take] at hc
    split at hc
    · cases hc
    · exact hc
  refine ⟨?_, hbare, hcount⟩
  have hmin : max 1 (min cfg.maxChars head.length) = cfg.maxChars := by omega
  have hleast := hhead.least
  rw [chunkCut, hcut]
  simp only [hmin]
  rw [if_neg]
  rw [Bool.and_eq_true, decide_eq_true_eq, hcount]
  omega

/-- The head is left, or the rest of its last word. -/
def PauseInv (cfg : SegConfig) (head : PyStr) (r : List PyStr × PyStr) : Prop :=
  r = ([], head) ∨ letters cfg.text r.1.flatten ++ letters cfg.text r.2 = letters cfg.text head ∧
    (∀ c ∈ r.2, onChar pySpace c = false) ∧ r.2.length ≤ cfg.maxChars

/-- The rest of a word is the last chunk. -/
theorem chunkRound_rest (hplain : cfg.Plain) (hlimits : cfg.Limits) {out : List PyStr} {cur : PyStr}
    (hletters : letters cfg.text out.flatten ++ letters cfg.text cur = letters cfg.text head)
    (hword : ∀ c ∈ cur, onChar pySpace c = false) (hlen : cur.length ≤ cfg.maxChars) :
    Ends (chunkRound cfg false (out, cur)) (After (fun r => PauseInv cfg head r ∧
      r.2.length < cur.length) fun r => letters cfg.text r.1.flatten = letters cfg.text head) := by
  rw [chunkRound]
  split
  · next hempty =>
      rw [List.isEmpty_iff.mp hempty, letters_nil, List.append_nil] at hletters
      exact .of_some hletters
  dsimp only
  have hbare : letters cfg.text (stripLeadingNoise cur) = letters cfg.text cur :=
    letters_stripLeadingNoise hplain.proper cur
  split
  · next hcount =>
      refine .of_some ?_
      have hnil : letters cfg.text (stripLeadingNoise cur) = [] :=
        letters_eq_nil fun c hc => hplain.proper.space c (space_of_wordCount_eq_zero hcount c hc)
      rw [hbare] at hnil
      rw [hnil, List.append_nil] at hletters
      exact hletters
  · have hone : wordCount (stripLeadingNoise cur) ≤ 1 :=
      wordCount_word_le fun c hc => hword c ((stripLeadingNoise_part cur).subset hc)
    have hwords := hlimits.words
    have hle := length_stripLeadingNoise_le cur
    rw [if_pos (by simp only [Bool.and_eq_true, decide_eq_true_eq]; omega)]
    refine .of_some ?_
    show letters cfg.text (out ++ [pyStrip (stripLeadingNoise cur)]).flatten = _
    rw [List.flatten_append, letters_append, List.flatten_singleton,
      letters_pyStrip hplain.proper, hbare, hletters]

/-- What the flush after a pause hands over is one chunk, or its last word is cut in two. -/
theorem chunkRound_head (hplain : cfg.Plain) (hlimits : cfg.Limits) (hroomy : cfg.Roomy)
    (hmin : 1 < cfg.minWords) (hhead : PauseHead cfg head) :
    Ends (chunkRound cfg false ([], head)) (After (fun r => PauseInv cfg head r ∧
      r.2.length < head.length) fun r => letters cfg.text r.1.flatten = letters cfg.text head) := by
  have hleast := hhead.least
  have hmost := hhead.most
  have hne : head ≠ [] := fun hnil => by
    rw [hnil] at hleast
    have : wordCount [] = 0 := rfl
    omega
  rw [chunkRound, if_neg (by simpa using hne)]
  simp only [hhead.bare.stripLeadingNoise]
  rw [if_neg (by omega)]
  split
  · refine .of_some ?_
    show letters cfg.text [pyStrip head].flatten = _
    rw [List.flatten_singleton, letters_pyStrip hplain.proper]
  next hfits =>
  simp only [Bool.and_eq_true, decide_eq_true_eq, not_and] at hfits
  have hlong : cfg.maxChars < head.length := Nat.lt_of_not_le (hfits hmost)
  obtain ⟨hlen, hblanks⟩ := hhead.long.resolve_left (by omega)
  -- Of what the limits may be, only a large limit of characters lets the head be so long.
  have hchars : 32 ≤ cfg.maxChars := by
    have hcount := two_mul_wordCount_le hblanks
    rcases hroomy with h | h | h | h
    · omega
    · omega
    · exact h
    · omega
  obtain ⟨hcut, hbare, hcount⟩ := chunkCut_long hlimits hhead hchars hlong hblanks
  rw [hcut, hbare.stripLeadingNoise, hcount, if_neg Bool.false_ne_true]
  have hrest : ∀ c ∈ head.drop cfg.maxChars, onChar pySpace c = false :=
    not_space_of_mem_drop fun j hj =>
      Nat.lt_of_lt_of_le (hblanks j hj) (Nat.min_le_left cfg.maxChars (max 6 cfg.maxChars55))
  have htail := length_pyStrip_le (head.drop cfg.maxChars)
  rw [List.length_drop] at htail
  -- Both pieces have all their letters: the first has the words of the head.
  have hpieces : letters cfg.text (if !(head.take cfg.maxChars).isEmpty &&
        !isPunctOnly cfg.text (head.take cfg.maxChars) &&
        max 1 cfg.minWords ≤ wordCount head then
      [] ++ [head.take cfg.maxChars] else []).flatten ++
      letters cfg.text (pyStrip (head.drop cfg.maxChars)) = letters cfg.text head := by
    rw [letters_pyStrip hplain.proper]
    split
    · rw [List.nil_append, List.flatten_singleton, letters_take_drop]
    · next hdropped =>
        have hpunct : isPunctOnly cfg.text (head.take cfg.maxChars) = true := by
          by_contra hpunct
          refine hdropped ?_
          have hempty : (head.take cfg.maxChars).isEmpty = false := by
            rw [List.isEmpty_eq_false_iff, ← List.length_pos_iff, List.length_take]
            omega
          simp only [Bool.and_eq_true, hempty, decide_eq_true_eq]
          exact ⟨⟨rfl, by simpa using hpunct⟩, hleast⟩
        rw [← letters_take_drop cfg.maxChars head, letters_of_isPunctOnly hplain.proper hpunct]
        rfl
  split
  · next hlast =>
      refine .of_some ?_
      rw [Bool.or_eq_true, decide_eq_true_eq] at hlast
      have hnil : pyStrip (head.drop cfg.maxChars) = [] := by
        rcases hlast with h | h
        · exact List.isEmpty_iff.mp h
        · have hlen := congrArg List.length h
          omega
      rw [hnil, letters_nil, List.append_nil] at hpieces
      exact hpieces
  · refine .of_some ⟨Or.inr ⟨hpieces, fun c hc => ?_, ?_⟩, ?_⟩
    · exact hrest c ((pyStrip_part _).subset hc)
    · show (pyStrip (head.drop cfg.maxChars)).length ≤ cfg.maxChars
      omega
    · show (pyStrip (head.drop cfg.maxChars)).length < head.length
      omega

/-- After a pause nothing is dropped, if the limits are roomy. -/
theorem chunkByLimits_whole (hplain : cfg.Plain) (hlimits : cfg.Limits) (hroomy : cfg.Roomy)
    (hhead : PauseHead cfg head) : Ends (chunkByLimits cfg head false) fun out =>
      letters cfg.text out.flatten = letters cfg.text head := by
  by_cases hmin : 1 < cfg.minWords
  · have hself : stripLeadingNoise (normSpaces cfg.text head) = head := by
      rw [hhead.tidy.normSpaces hplain.fix hhead.bare.pyStrip, hhead.bare.stripLeadingNoise]
    rw [chunkByLimits, hself]
    split
    · next hnoise =>
        refine .of_some ?_
        rw [letters_of_noise hplain.proper hnoise]
        rfl
    · refine .map ?_
      have hrounds : ∀ r, PauseInv cfg head r → Ends (chunkRound cfg false r)
          (After (fun r' => PauseInv cfg head r' ∧ r'.2.length < r.2.length)
            fun r' => letters cfg.text r'.1.flatten = letters cfg.text head) := by
        rintro ⟨out, cur⟩ (heq | ⟨hletters, hword, hlen⟩)
        · injection heq with hout hcur
          rw [hout, hcur]
          exact chunkRound_head hplain hlimits hroomy hmin hhead
        · exact chunkRound_rest hplain hlimits hletters hword hlen
      have hends := loop_ends (fun r => r.2.length) hrounds (s := ([], head)) (Or.inl rfl)
        (Nat.lt_succ_self _)
      refine hends.mono ?_
      intro r hr
      rw [letters_flatten_filter hplain.proper, hr]
  · exact (chunkByLimits_ends cfg head false).mono fun out hout => hout hplain (Or.inr (by omega))

end Pause

end VTranser.Translator

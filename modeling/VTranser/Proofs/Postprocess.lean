import Mathlib.Data.List.SplitBy
import Mathlib.Order.Bounds.Basic
import VTranser.Proofs.NormSpaces
import VTranser.Translator.Postprocess

/-!
# Which tokens the clean-up keeps

The first pass shortens runs, and of every run a token is left. The second cuts the
tokens off behind the first copy of a pattern that they begin with, whatever follows
the repetitions. So all is kept if and only if nothing follows them.

The marks are shortened before, in the text; but no run of them crosses a blank, so
they are shortened in each word, and the words of the result are what the two passes
make of these words.
-/

namespace VTranser.Translator

open Words

variable {strLower : PyStr → PyStr} {tokens pattern : List PyStr} {p : Nat}

/-- The tokens, each run that is equal up to case shortened to `n` copies of its first. -/
def shortRuns (strLower : PyStr → PyStr) (n : Nat) (tokens : List PyStr) : List PyStr :=
  (tokens.splitBy fun s t => strLower s == strLower t).flatMap fun run =>
    List.replicate (min run.length n) (run.headD [])

/-- The tokens begin with four copies of their first `p`. -/
def BeginsRepeated (tokens : List PyStr) (p : Nat) : Prop :=
  1 ≤ p ∧ p ≤ 4 ∧ (List.replicate 4 (tokens.take p)).flatten <+: tokens

/-! ## Runs -/

/-- The run a list begins with is split off first. -/
theorem splitBy_key_cons {α β : Type*} [BEq β] [LawfulBEq β] (key : α → β) (a : α) (l : List α) :
    (a :: l).splitBy (fun s t => key s == key t) =
      (a :: l.takeWhile fun t => key t == key a) ::
        (l.dropWhile fun t => key t == key a).splitBy fun s t => key s == key t := by
  have hsame : ∀ t ∈ a :: l.takeWhile (fun t => key t == key a), key t = key a := by
    intro t ht
    rcases List.mem_cons.mp ht with rfl | ht
    · rfl
    · simpa using List.mem_takeWhile_imp ht
  have hchain : (a :: l.takeWhile fun t => key t == key a).IsChain
      fun s t => (key s == key t) = true := by
    apply List.Pairwise.isChain
    rw [List.pairwise_iff_forall_sublist]
    intro s t hst
    have hs := hsame s (hst.subset (by simp))
    have ht := hsame t (hst.subset (by simp))
    simp [hs, ht]
  conv_lhs => rw [← List.takeWhile_append_dropWhile (p := fun t => key t == key a)
    (l := l), ← List.cons_append]
  rw [List.splitBy_append, List.splitBy_of_isChain (by simp) hchain, List.singleton_append]
  intro s hs t ht
  have hs := hsame s (List.mem_of_getLast? hs)
  have ht : key t ≠ key a := by
    have hnot := List.head?_dropWhile_not (fun t => key t == key a) l
    rw [ht] at hnot
    simpa using hnot
  simp [hs, ht.symm]

theorem collapseConsecutiveTokens_eq (n : Nat) (tokens : List PyStr) :
    collapseConsecutiveTokens strLower n tokens = shortRuns strLower n tokens := by
  induction tokens using collapseConsecutiveTokens.induct strLower with
  | case1 => simp [collapseConsecutiveTokens, shortRuns]
  | case2 ti tokens ih =>
      rw [collapseConsecutiveTokens, ih, shortRuns, shortRuns, splitBy_key_cons]
      rfl

/-- Of every run something is left. -/
theorem exists_mem_collapseConsecutiveTokens {n : Nat} (h : 0 < n) {t : PyStr}
    (ht : t ∈ tokens) :
    ∃ t' ∈ collapseConsecutiveTokens strLower n tokens, strLower t' = strLower t := by
  induction tokens using collapseConsecutiveTokens.induct strLower with
  | case1 => cases ht
  | case2 ti tokens ih =>
      rw [collapseConsecutiveTokens]
      by_cases hsame : strLower t = strLower ti
      · refine ⟨ti, List.mem_append_left _ (List.mem_replicate.mpr ⟨?_, rfl⟩), hsame.symm⟩
        omega
      · have hmem : t ∈ tokens.dropWhile fun t => strLower t == strLower ti := by
          rcases List.mem_cons.mp ht with rfl | ht
          · exact absurd rfl hsame
          · rw [← List.takeWhile_append_dropWhile (p := fun t => strLower t == strLower ti)
              (l := tokens)] at ht
            rcases List.mem_append.mp ht with ht | ht
            · exact absurd (by simpa using List.mem_takeWhile_imp ht) hsame
            · exact ht
        obtain ⟨t', ht', heq⟩ := ih hmem
        exact ⟨t', List.mem_append_right _ ht', heq⟩

/-! ## Patterns -/

theorem le_patternReps_iff (hpat : pattern ≠ []) (n : Nat) :
    n ≤ patternReps pattern tokens ↔ (List.replicate n pattern).flatten <+: tokens := by
  have hpos := List.length_pos_of_ne_nil hpat
  induction n generalizing tokens with
  | zero => simp
  | succ n ih =>
      rw [patternReps, List.replicate_succ, List.flatten_cons]
      split
      · next h =>
          obtain ⟨rest, rfl⟩ := h.2
          rw [List.drop_left, List.prefix_append_right_inj]
          exact Nat.succ_le_succ_iff.trans ih
      · next h =>
          refine iff_of_false (by omega) fun hpre => h ⟨hpos, ?_⟩
          exact (List.prefix_append _ _).trans hpre

/-- The repetitions, and what follows them. -/
theorem flatten_patternReps (hpat : pattern ≠ []) (tokens : List PyStr) :
    (List.replicate (patternReps pattern tokens) pattern).flatten ++
      tokens.drop (patternReps pattern tokens * pattern.length) = tokens := by
  have hpre := (le_patternReps_iff hpat (patternReps pattern tokens)).mp le_rfl
  have heq := List.prefix_iff_eq_append.mp hpre
  simpa using heq

/-- The `for` loop finds the shortest pattern. -/
theorem repeatedPattern_eq_some_iff (hlen : 8 ≤ tokens.length) :
    repeatedPattern 4 4 tokens = some p ↔ IsLeast {p | BeginsRepeated tokens p} p := by
  have hfound : ∀ q, 1 ≤ q ∧ q ≤ 4 →
      ((decide (q * 4 ≤ tokens.length) && decide (4 ≤ patternReps (tokens.take q) tokens)) = true ↔
        (List.replicate 4 (tokens.take q)).flatten <+: tokens) := by
    intro q hq
    have hne : tokens.take q ≠ [] := by
      rw [Ne, List.take_eq_nil_iff]
      rintro (h | rfl)
      · omega
      · simp at hlen
    rw [Bool.and_eq_true, decide_eq_true_iff, decide_eq_true_iff, le_patternReps_iff hne]
    refine ⟨And.right, fun hpre => ⟨?_, hpre⟩⟩
    have hle := hpre.length_le
    simp at hle
    omega
  rw [repeatedPattern, List.find?_range'_eq_some, List.mem_range'_1]
  constructor
  · intro hfind
    obtain ⟨hp, hrange, hleast⟩ := hfind
    have hrange : 1 ≤ p ∧ p ≤ 4 := by omega
    refine ⟨⟨hrange.1, hrange.2, (hfound p hrange).mp hp⟩, fun q hq => ?_⟩
    by_contra hlt
    have hnot := hleast q hq.1 (by omega)
    rw [(hfound q ⟨hq.1, hq.2.1⟩).mpr hq.2.2] at hnot
    cases hnot
  · intro hbegins
    obtain ⟨⟨h1, h4, hpre⟩, hleast⟩ := hbegins
    refine ⟨(hfound p ⟨h1, h4⟩).mpr hpre, by omega, fun q hq hlt => ?_⟩
    rw [Bool.not_eq_true', Bool.eq_false_iff]
    intro hq'
    have hle := hleast ⟨hq, by omega, (hfound q ⟨hq, by omega⟩).mp hq'⟩
    omega

/-! ## Both passes -/

theorem length_take_of_begins (h : BeginsRepeated tokens p) (hlen : 8 ≤ tokens.length) :
    (tokens.take p).length = p := by
  have hp := h.2.1
  rw [List.length_take]
  omega

theorem take_ne_nil (h : BeginsRepeated tokens p) (hlen : 8 ≤ tokens.length) :
    tokens.take p ≠ [] := by
  have hp := h.1
  rw [← List.length_pos_iff, length_take_of_begins h hlen]
  omega

theorem collapseRepeatedPatterns_of_some (hlen : 8 ≤ tokens.length)
    (h : repeatedPattern 4 4 tokens = some p) :
    collapseRepeatedPatterns 4 4 tokens = tokens.take p := by
  rw [collapseRepeatedPatterns, if_neg (by omega), h]

theorem collapseRepeatedPatterns_of_none
    (h : ∀ p, 8 ≤ tokens.length → repeatedPattern 4 4 tokens ≠ some p) :
    collapseRepeatedPatterns 4 4 tokens = tokens := by
  rw [collapseRepeatedPatterns]
  split
  · rfl
  · next hlen =>
      cases hp : repeatedPattern 4 4 tokens with
      | none => rfl
      | some p => exact absurd hp (h p (by omega))

/-- Every token of the text is left up to case, and what follows a repeated pattern
follows its first copy in order, if and only if the pattern that the shortened runs
begin with, if there is one, is all they have. -/
theorem collapseTokens_keeps_iff (strLower : PyStr → PyStr) (tokens : List PyStr) :
    (let runs := collapseConsecutiveTokens strLower 2 tokens
      let out := collapseTokens strLower false tokens
      (∀ t ∈ tokens, ∃ t' ∈ out, strLower t' = strLower t) ∧
        ∀ p, 8 ≤ runs.length → repeatedPattern 4 4 runs = some p →
          (runs.drop (patternReps (runs.take p) runs * p)).Sublist (out.drop p)) ↔
      ∀ p, 8 ≤ (shortRuns strLower 2 tokens).length →
        IsLeast {p | BeginsRepeated (shortRuns strLower 2 tokens) p} p →
          ∃ k, shortRuns strLower 2 tokens =
            (List.replicate k ((shortRuns strLower 2 tokens).take p)).flatten := by
  have hout : collapseTokens strLower false tokens =
      collapseRepeatedPatterns 4 4 (collapseConsecutiveTokens strLower 2 tokens) := rfl
  have hmem := fun t => @exists_mem_collapseConsecutiveTokens strLower tokens 2 (by decide) t
  simp only [hout, ← collapseConsecutiveTokens_eq]
  generalize collapseConsecutiveTokens strLower 2 tokens = runs at hmem ⊢
  constructor
  · intro hkeeps p hlen hleast
    obtain ⟨-, hrest⟩ := hkeeps
    have hp := (repeatedPattern_eq_some_iff hlen).mpr hleast
    have hsub := hrest p hlen hp
    rw [collapseRepeatedPatterns_of_some hlen hp,
      List.drop_eq_nil_of_le (List.length_take_le p runs), List.sublist_nil] at hsub
    have htake := length_take_of_begins hleast.1 hlen
    have heq := flatten_patternReps (take_ne_nil hleast.1 hlen) runs
    rw [htake, hsub, List.append_nil] at heq
    exact ⟨_, heq.symm⟩
  · intro h
    by_cases hfound : ∃ p, 8 ≤ runs.length ∧ repeatedPattern 4 4 runs = some p
    · obtain ⟨p, hlen, hp⟩ := hfound
      have hleast := (repeatedPattern_eq_some_iff hlen).mp hp
      obtain ⟨k, hall⟩ := h p hlen hleast
      have htake := length_take_of_begins hleast.1 hlen
      rw [collapseRepeatedPatterns_of_some hlen hp]
      constructor
      · intro t ht
        obtain ⟨t', ht', heq⟩ := hmem t ht
        rw [hall, List.mem_flatten] at ht'
        obtain ⟨pattern, hpattern, ht'⟩ := ht'
        rw [List.eq_of_mem_replicate hpattern] at ht'
        exact ⟨t', ht', heq⟩
      · intro q _ hq
        obtain rfl : p = q := Option.some.inj (hp.symm.trans hq)
        have hk : k ≤ patternReps (runs.take p) runs :=
          (le_patternReps_iff (take_ne_nil hleast.1 hlen) k).mpr (hall ▸ List.prefix_refl _)
        have hlength : runs.length = k * p := by
          conv_lhs => rw [hall]
          simp [htake]
        rw [List.drop_eq_nil_of_le]
        · exact List.nil_sublist _
        · rw [hlength]
          exact Nat.mul_le_mul_right p hk
    · have hnone : ∀ p, 8 ≤ runs.length → repeatedPattern 4 4 runs ≠ some p :=
        fun p hlen hp => hfound ⟨p, hlen, hp⟩
      rw [collapseRepeatedPatterns_of_none hnone]
      exact ⟨hmem, fun p hlen hp => absurd hp (hnone p hlen)⟩

/-- Four times the same two words, and two more, which are lost. -/
theorem not_collapseTokens_keeps :
    ¬ ∀ (strLower : PyStr → PyStr) (tokens : List PyStr),
      let runs := collapseConsecutiveTokens strLower 2 tokens
      let out := collapseTokens strLower false tokens
      (∀ t ∈ tokens, ∃ t' ∈ out, strLower t' = strLower t) ∧
        ∀ p, 8 ≤ runs.length → repeatedPattern 4 4 runs = some p →
          (runs.drop (patternReps (runs.take p) runs * p)).Sublist (out.drop p) := by
  intro h
  have hall := (h lower (pySplit "ở nhà ở nhà ở nhà ở nhà hôm nay".toList)).1
  revert hall
  decide +kernel

/-! ## Marks, word by word -/

section Marks

variable {marks : List Char} {most : Nat}

theorem capMarks_cons (c : Char) (s : PyStr) :
    capMarks marks most (c :: s) =
      (if marks.contains c then (c :: s.takeWhile (· == c)).take most
        else c :: s.takeWhile (· == c)) ++
        capMarks marks most (s.dropWhile (· == c)) := by
  have hruns := splitBy_key_cons id c s
  simp only [id] at hruns
  rw [capMarks, capMarks, hruns, List.flatMap_cons]
  rfl

theorem capMarks_cons_of_notMem {c : Char} (hc : c ∉ marks) (s : PyStr) :
    capMarks marks most (c :: s) = c :: capMarks marks most s := by
  have hcontains : marks.contains c = false := by simpa using hc
  rw [capMarks_cons, hcontains, if_neg Bool.false_ne_true]
  cases s with
  | nil => rfl
  | cons d s =>
      by_cases hd : d = c
      · rw [hd, capMarks_cons, hcontains, if_neg Bool.false_ne_true]
        simp
      · simp [hd]

theorem capMarks_append {s : PyStr} {c : Char} (hc : c ∉ s) (t : PyStr) :
    capMarks marks most (s ++ c :: t) = capMarks marks most s ++ capMarks marks most (c :: t) := by
  rw [capMarks, List.splitBy_append_cons, List.flatMap_append]
  · rfl
  · intro d hd
    have hmem := List.mem_of_getLast? hd
    exact beq_false_of_ne fun h => hc (h ▸ hmem)

/-- Nothing is put in. -/
theorem mem_of_mem_capMarks {s : PyStr} {c : Char} (h : c ∈ capMarks marks most s) : c ∈ s := by
  rw [capMarks, List.mem_flatMap] at h
  obtain ⟨run, hrun, hc⟩ := h
  rw [← List.flatten_splitBy (· == ·) s]
  refine List.mem_flatten_of_mem hrun ?_
  split at hc
  · exact List.mem_of_mem_take hc
  · exact hc

theorem capMarks_word (hmost : 0 < most) {w : PyStr} (hw : PyWord w) :
    PyWord (capMarks marks most w) := by
  refine ⟨?_, fun c hc => hw.not_sep c (mem_of_mem_capMarks hc)⟩
  obtain ⟨c, s, rfl⟩ := List.exists_cons_of_ne_nil hw.ne_nil
  rw [capMarks_cons]
  split <;> simp [Nat.ne_of_gt hmost]

theorem pySplit_capMarks (hmarks : marks.all (fun c => !onChar pySpace c) = true)
    (hmost : 0 < most) (s : PyStr) :
    pySplit (capMarks marks most s) = (pySplit s).map (capMarks marks most) := by
  have hsep : ∀ {c}, onChar pySpace c = true → ∀ s,
      capMarks marks most (c :: s) = c :: capMarks marks most s := by
    intro c hc s
    apply capMarks_cons_of_notMem
    intro hmem
    have hno := List.all_eq_true.mp hmarks c hmem
    rw [hc] at hno
    cases hno
  induction s using words_induction (p := onChar pySpace) with
  | nil => rfl
  | sep c cs hc ih => rw [hsep hc, pySplit, pySplit, words_cons_sep hc, words_cons_sep hc]; exact ih
  | last w hw =>
      rw [pySplit, pySplit, words_word (capMarks_word hmost hw), words_word hw, List.map_singleton]
  | word w c cs hw hc ih =>
      have hmem : c ∉ w := by
        intro hmem
        rw [hw.not_sep c hmem] at hc
        cases hc
      have hleft : pySplit (capMarks marks most w ++ c :: capMarks marks most cs) =
          capMarks marks most w :: pySplit (c :: capMarks marks most cs) :=
        words_append (capMarks_word hmost hw) hc _
      have hright : pySplit (w ++ c :: cs) = w :: pySplit (c :: cs) := words_append hw hc cs
      rw [capMarks_append hmem, hsep hc, hleft, hright, List.map_cons, ← ih, hsep hc]

end Marks

/-! ## The text -/

/-- What is left of the marks of a word. -/
def capped (w : PyStr) : PyStr :=
  capMarks ['-'] 3 (capMarks ['…'] 1 (capMarks ['.'] 2 (capMarks ['!', '?'] 3 w)))

theorem capped_word {w : PyStr} (hw : PyWord w) : PyWord (capped w) :=
  capMarks_word (by decide) <| capMarks_word (by decide) <| capMarks_word (by decide) <|
    capMarks_word (by decide) hw

theorem pySplit_capped (s : PyStr) : pySplit (capped s) = (pySplit s).map capped := by
  rw [capped, pySplit_capMarks rfl (by decide), pySplit_capMarks rfl (by decide),
    pySplit_capMarks rfl (by decide), pySplit_capMarks rfl (by decide)]
  simp only [List.map_map]
  rfl

theorem mem_of_mem_collapseConsecutiveTokens {n : Nat} {t : PyStr}
    (ht : t ∈ collapseConsecutiveTokens strLower n tokens) : t ∈ tokens := by
  induction tokens using collapseConsecutiveTokens.induct strLower with
  | case1 => simp [collapseConsecutiveTokens] at ht
  | case2 ti tokens ih =>
      rw [collapseConsecutiveTokens, List.mem_append] at ht
      rcases ht with ht | ht
      · rw [List.eq_of_mem_replicate ht]
        exact List.mem_cons_self
      · exact List.mem_cons_of_mem _ ((List.dropWhile_sublist _).subset (ih ht))

theorem mem_of_mem_collapseTokens {isDraft : Bool} {t : PyStr}
    (ht : t ∈ collapseTokens strLower isDraft tokens) : t ∈ tokens := by
  rw [collapseTokens] at ht
  generalize hruns : collapseConsecutiveTokens strLower _ tokens = runs at ht
  have hmem : t ∈ runs := by
    rw [collapseRepeatedPatterns] at ht
    split at ht
    · exact ht
    · split at ht
      · exact List.mem_of_mem_take ht
      · exact ht
  rw [← hruns] at hmem
  exact mem_of_mem_collapseConsecutiveTokens hmem

theorem postprocessVi_none (strLower : PyStr → PyStr) (text : PyStr) (isDraft : Bool) :
    postprocessVi strLower text none isDraft =
      if (pyStrip text).isEmpty then []
      else
        let t := capped (pyStrip (subSpaces false (pyStrip text)))
        if (pySplit t).isEmpty then t
        else pyStrip (joinWords ' ' (collapseTokens strLower isDraft (pySplit t))) :=
  rfl

/-- The words of a text that is cleaned up: its words, their marks shortened, and of
these what the two passes leave. -/
theorem pySplit_postprocessVi (strLower : PyStr → PyStr) (text : PyStr) (isDraft : Bool) :
    pySplit (postprocessVi strLower text none isDraft) =
      collapseTokens strLower isDraft ((pySplit text).map capped) := by
  have hstrip : ∀ s, pySplit (pyStrip s) = pySplit s := fun s =>
    (words_rdropWhile _).trans (words_dropWhile s)
  have hnil : collapseTokens strLower isDraft [] = [] := by
    simp [collapseTokens, collapseConsecutiveTokens, collapseRepeatedPatterns]
  have hword : ∀ w ∈ pySplit text, PyWord w := fun w hw => mem_words hw
  have htokens : pySplit (capped (pyStrip (subSpaces false (pyStrip text)))) =
      (pySplit text).map capped := by
    rw [pySplit_capped, pyStrip_subSpaces, hstrip, pySplit, words_joinWords pySpace_blank hword]
  have hout : ∀ w ∈ collapseTokens strLower isDraft ((pySplit text).map capped), PyWord w := by
    intro w hw
    obtain ⟨v, hv, rfl⟩ := List.mem_map.mp (mem_of_mem_collapseTokens hw)
    exact capped_word (hword v hv)
  rw [postprocessVi_none]
  split
  · next hempty =>
      rw [← hstrip text, List.isEmpty_iff.mp hempty]
      exact hnil.symm
  · simp only [htokens]
    split
    · next hempty => rw [htokens, List.isEmpty_iff.mp hempty, hnil]
    · rw [hstrip]
      exact words_joinWords pySpace_blank hout

end VTranser.Translator

import VTranser.Proofs.NormSpaces

/-!
# Complete sentences stay where they are

The pattern that cuts a normalized text into sentences reads on until a run of
terminators, with its closing brackets, is followed by a blank or the end of the
text (`bodyEnd`). It never skips anything, since a sentence may begin with any
character, and all it looks at behind a sentence is the one character that
follows. So a sentence that is not the last thing in a text is a sentence of
every longer text: `closedSentences_isPrefix`.
-/

namespace VTranser.Translator

open Regex Words

/-- `SENTENCE_SPLIT_RE` with its two groups. -/
abbrev sentenceRead : Matcher Char (PyStr × PyStr) := readPair sentenceBody sentenceSep

/-- What is left behind a run of terminators and its closing brackets. -/
def runRest (v : PyStr) : PyStr :=
  (v.dropWhile (onChar isTerm)).dropWhile (onChar isClosing)

/-- Nothing is left, or white space comes first. -/
def atBreak (t : PyStr) : Bool := (t.take 1).all (onChar pySpace)

/-- What is left behind the first run of terminators that ends a sentence. -/
def bodyEnd : PyStr → Option PyStr
  | [] => none
  | c :: cs =>
      if onChar isTerm c && atBreak (runRest (c :: cs)) then some (runRest (c :: cs))
      else bodyEnd cs

/-! ## One match -/

section Match

theorem term_facts {c : Char} (hc : onChar isTerm c = true) :
    onChar pySpace c = false ∧ onChar isClosing c = false := by
  have hall : ∀ n ∈ [0x2E, 0x21, 0x3F, 0x2026], pySpace n = false ∧ isClosing n = false := by decide
  rw [onChar, isTerm, List.contains_iff_mem] at hc
  exact hall _ hc

theorem closing_not_space {c : Char} (hc : onChar isClosing c = true) :
    onChar pySpace c = false := by
  have hall : ∀ n ∈ [0x22, 0x27, 0x29, 0x5D], pySpace n = false := by decide
  rw [onChar, isClosing, List.contains_iff_mem] at hc
  exact hall _ hc

theorem sentenceSep_head {t : PyStr} (ht : '\n' ∉ t) :
    (sentenceSep.rests t).head? =
      if atBreak t then some (t.dropWhile (onChar pySpace)) else none := by
  cases t with
  | nil => decide
  | cons c cs =>
      have hnl : onChar (· == 0x0A) c = false := by
        rw [Bool.eq_false_iff]
        intro h
        have hc : c = '\n' := Char.toNat_inj.mp (by simpa [onChar] using h)
        exact ht (by simp [hc])
      have hend : pyEnd.rests (c :: cs) = [] := by simp [pyEnd, Re.rests, hnl]
      rw [sentenceSep, Re.rests, hend, List.nil_append, atBreak, List.take_succ_cons,
        List.take_zero]
      cases hc : onChar pySpace c with
      | true => rw [plus_rests_head hc, if_pos (by simp [hc]), List.dropWhile_cons_of_pos hc]
      | false =>
          rw [plus_rests_of_not hc, if_neg (by simp [hc])]
          rfl

/-- The rests a separator accepts. -/
def passed (t : PyStr) : List PyStr := if atBreak t then [t] else []

theorem passed_of_not_space {c : Char} {cs : PyStr} (hc : onChar pySpace c = false) :
    passed (c :: cs) = [] := by
  rw [passed, if_neg (by simp [atBreak, hc])]

theorem closing_flatMap (w : PyStr) :
    ((Re.opt (.plus (onChar isClosing))).rests w).flatMap passed =
      passed (w.dropWhile (onChar isClosing)) := by
  have hbreak : ∀ c t, onChar isClosing c = true → passed (c :: t) = [] := fun c t hc =>
    passed_of_not_space (closing_not_space hc)
  rw [Re.opt, Re.rests, List.flatMap_append]
  cases w with
  | nil => simp [plus_rests_nil, Re.rests]
  | cons c cs =>
      cases hc : onChar isClosing c with
      | true =>
          rw [plus_flatMap_cons hbreak hc, List.dropWhile_cons_of_pos hc]
          simp [Re.rests, hbreak c cs hc]
      | false =>
          rw [plus_rests_of_not hc, List.dropWhile_cons_of_neg (by simp [hc])]
          simp [Re.rests]

/-- The rest behind the run at the head of a text, if there is one that passes. -/
def runPassed (v : PyStr) : List PyStr :=
  if (v.take 1).any (onChar isTerm) then passed (runRest v) else []

/-- A run of terminators and closing brackets is read whole or not at all. -/
theorem run_flatMap (v : PyStr) :
    ((Re.seq (.plus (onChar isTerm)) (.opt (.plus (onChar isClosing)))).rests v).flatMap passed =
      runPassed v := by
  rw [Re.rests, List.flatMap_assoc]
  simp only [closing_flatMap]
  cases v with
  | nil => rw [plus_rests_nil]; rfl
  | cons c cs =>
      cases hc : onChar isTerm c with
      | true =>
          rw [plus_flatMap_cons _ hc, runPassed, if_pos (by simp [hc]), runRest,
            List.dropWhile_cons_of_pos hc]
          intro d t hd
          rw [List.dropWhile_cons_of_neg (by simp [(term_facts hd).2])]
          exact passed_of_not_space (term_facts hd).1
      | false => rw [plus_rests_of_not hc, runPassed, if_neg (by simp [hc]), List.flatMap_nil]

theorem body_head {cs : PyStr} (hcs : '\n' ∉ cs) {c : Char} (hc : c ≠ '\n') :
    ((sentenceBody.rests (c :: cs)).flatMap passed).head? = bodyEnd cs := by
  rw [sentenceBody, Re.rests, Re.lazyPlus, Re.rests, Re.rests, if_pos (by simpa using hc),
    List.flatMap_cons, List.flatMap_nil, List.append_nil, Re.rests, List.flatMap_assoc]
  simp only [run_flatMap]
  induction cs with
  | nil => rfl
  | cons d ds ih =>
      have hd : d ≠ '\n' := fun h => hcs (by simp [h])
      rw [lazyRests, if_pos (by simpa using hd), List.flatMap_cons, bodyEnd, List.head?_append,
        ih fun h => hcs (by simp [h])]
      cases hterm : onChar isTerm d with
      | false => simp [runPassed, hterm]
      | true =>
          rw [runPassed, if_pos (by simp [hterm]), passed, Bool.true_and]
          split <;> rfl

/-- One match at the head of a text: everything up to the first run that ends a
sentence, and the white space behind it. -/
theorem sentenceRead_cons {c : Char} {cs : PyStr} (hs : '\n' ∉ c :: cs) :
    sentenceRead (c :: cs) = (bodyEnd cs).map fun w =>
      (((c :: cs).take ((c :: cs).length - w.length),
        w.take (w.length - (w.dropWhile (onChar pySpace)).length)),
        w.dropWhile (onChar pySpace)) := by
  have hsep : ∀ t ∈ sentenceBody.rests (c :: cs), (sentenceSep.rests t).head? =
      if atBreak t then some (t.dropWhile (onChar pySpace)) else none := fun t ht =>
    sentenceSep_head fun h => hs ((Re.rests_suffix _ ht).subset h)
  have hc : c ≠ '\n' := fun h => hs (by simp [h])
  have hcs : '\n' ∉ cs := fun h => hs (by simp [h])
  rw [sentenceRead, readPair_of_test sentenceBody atBreak hsep]
  exact congrArg _ (body_head hcs hc)

theorem sentenceRead_nil : sentenceRead [] = none := by decide

theorem sentence_reads : Reads sentenceRead fun v => v.1 ++ v.2 where
  split h := by rw [List.append_assoc]; exact readPair_split h
  pos {s b t} h := by
    -- The first group takes at least the character it starts with.
    have hne : ∀ u ∈ sentenceBody.rests s, u.length < s.length := by
      intro u hu
      rw [sentenceBody, Re.rests, List.mem_flatMap] at hu
      obtain ⟨v, hv, hu⟩ := hu
      have hle := (Re.rests_suffix _ hu).length_le
      rw [Re.lazyPlus, Re.rests, List.mem_flatMap] at hv
      obtain ⟨r, hr, hv⟩ := hv
      have hvr := (Re.rests_suffix _ hv).length_le
      cases s with
      | nil => cases hr
      | cons c cs =>
          rw [Re.rests] at hr
          split at hr
          · rw [List.mem_singleton.mp hr] at hvr
            rw [List.length_cons]
            omega
          · cases hr
    simp only [sentenceRead, readPair, List.findSome?_eq_some_iff] at h
    obtain ⟨l₁, u, l₂, hmem, hu, -⟩ := h
    have hlt := hne u (by rw [hmem]; simp)
    simp only [Option.map_eq_some_iff, Prod.mk.injEq] at hu
    obtain ⟨v, -, ⟨rfl, -⟩, -⟩ := hu
    rw [← List.length_pos_iff, List.length_append, List.length_take]
    omega

end Match

/-! ## A text that grows -/

section Grow

theorem runRest_append {v : PyStr} (h : runRest v ≠ []) (x : PyStr) :
    runRest (v ++ x) = runRest v ++ x := by
  have h₁ : v.dropWhile (onChar isTerm) ≠ [] := by
    intro hnil
    rw [runRest, hnil] at h
    exact h rfl
  rw [runRest] at h
  rw [runRest, List.dropWhile_append, if_neg (by simpa using h₁), List.dropWhile_append,
    if_neg (by simpa using h), runRest]

theorem atBreak_append {t : PyStr} (h : t ≠ []) (x : PyStr) : atBreak (t ++ x) = atBreak t := by
  obtain ⟨c, cs, rfl⟩ := List.exists_cons_of_ne_nil h
  rfl

theorem bodyEnd_append {cs w : PyStr} (h : bodyEnd cs = some w) (hw : w ≠ []) (x : PyStr) :
    bodyEnd (cs ++ x) = some (w ++ x) := by
  induction cs with
  | nil => cases h
  | cons c cs ih =>
      rw [bodyEnd] at h
      split at h
      · next hpass =>
          injection h with h
          have hne : runRest (c :: cs) ≠ [] := by rwa [h]
          rw [List.cons_append, bodyEnd, ← List.cons_append, runRest_append hne,
            atBreak_append hne, if_pos hpass, h]
      · next hpass =>
          have hfail : ¬ (onChar isTerm c && atBreak (runRest ((c :: cs) ++ x))) = true := by
            intro hx
            rw [Bool.and_eq_true] at hx hpass
            by_cases hne : runRest (c :: cs) = []
            · exact hpass ⟨hx.1, by rw [hne]; rfl⟩
            · rw [runRest_append hne, atBreak_append hne] at hx
              exact hpass hx
          rw [List.cons_append, bodyEnd, ← List.cons_append, if_neg hfail, ih h]

/-- Where there is no match there is none further right. -/
theorem search_sentence {s : PyStr} (hs : '\n' ∉ s) :
    search sentenceRead s = (sentenceRead s).map fun r => ([], r) := by
  induction s with
  | nil => decide
  | cons c cs ih =>
      cases h : sentenceRead (c :: cs) with
      | some r => rw [search_of_match h]; rfl
      | none =>
          have hcs : '\n' ∉ cs := fun hmem => hs (by simp [hmem])
          have hnone : sentenceRead cs = none := by
            cases cs with
            | nil => exact sentenceRead_nil
            | cons d ds =>
                rw [sentenceRead_cons hs, Option.map_eq_none_iff, bodyEnd] at h
                split at h
                · cases h
                · rw [sentenceRead_cons hcs, h]
                  rfl
          rw [search_of_no_match h, ih hcs, hnone]
          rfl

theorem take_grown (a b x : PyStr) :
    (a ++ x).take ((a ++ x).length - (b ++ x).length) = a.take (a.length - b.length) := by
  rw [List.length_append, List.length_append, Nat.add_sub_add_right]
  exact List.take_append_of_le_length (Nat.sub_le _ _)

theorem sentence_grows : Grows sentenceRead fun c => c ≠ '\n' := by
  intro s sk b t x hok h ht
  have hsx : '\n' ∉ s ++ x := fun hmem => hok _ hmem rfl
  have hs : '\n' ∉ s := fun hmem => hsx (List.mem_append_left _ hmem)
  rw [search_sentence hs] at h
  rw [search_sentence hsx]
  cases s with
  | nil => rw [sentenceRead_nil] at h; cases h
  | cons c cs =>
      rw [sentenceRead_cons hs] at h
      rw [List.cons_append] at hsx ⊢
      rw [sentenceRead_cons hsx]
      cases hend : bodyEnd cs with
      | none => rw [hend] at h; cases h
      | some w =>
          rw [hend] at h
          simp only [Option.map_some, Option.some.injEq, Prod.mk.injEq] at h
          obtain ⟨rfl, rfl, rfl⟩ := h
          have hw : w ≠ [] := by
            rintro rfl
            exact ht rfl
          have hdrop : (w ++ x).dropWhile (onChar pySpace) = w.dropWhile (onChar pySpace) ++ x := by
            rw [List.dropWhile_append, if_neg (by simpa using ht)]
          rw [bodyEnd_append hend hw, Option.map_some, hdrop, take_grown,
            ← List.cons_append, take_grown]
          rfl

end Grow

/-! ## Sentences -/

section Sentences

variable (cfg : TextConfig)

/-- The complete sentences of a text. -/
def sentences (t : PyStr) : List PyStr := (splitCompleteSentencesText cfg t).1

/-- The sentences that a list of matches stands for. -/
def sentencesOf (hs : List (Hit Char (PyStr × PyStr))) : List PyStr :=
  (hs.map fun h => normSpaces cfg h.value.1).filter fun s => !s.isEmpty

/-- The complete sentences that something follows. -/
def closedSentences (t : PyStr) : List PyStr := sentencesOf cfg (settled sentenceRead t)

variable {cfg}

theorem sentences_eq {t : PyStr} (ht : normSpaces cfg t = t) :
    sentences cfg t = sentencesOf cfg (scan sentenceRead t).1 := by
  rw [sentences, splitCompleteSentencesText, ht]
  split
  · next hnil =>
      rw [List.isEmpty_iff.mp hnil]
      rfl
  · rfl

theorem newline_not_mem {t : PyStr} (ht : normSpaces cfg t = t) : '\n' ∉ t := by
  intro hmem
  rw [← ht] at hmem
  exact absurd (normSpaces_blank hmem (by decide)) (by decide)

theorem length_sentencesOf_append_le (hs : List (Hit Char (PyStr × PyStr)))
    (h : Hit Char (PyStr × PyStr)) :
    (sentencesOf cfg (hs ++ [h])).length ≤ (sentencesOf cfg hs).length + 1 := by
  rw [sentencesOf, List.map_append, List.filter_append, List.length_append, ← sentencesOf]
  have hle := List.length_filter_le (fun s : PyStr => !s.isEmpty)
    ([h].map fun h => normSpaces cfg h.value.1)
  simp only [List.map_cons, List.map_nil, List.length_singleton] at hle ⊢
  omega

/-- At most the last sentence is not closed. -/
theorem length_closedSentences {t : PyStr} (ht : normSpaces cfg t = t) :
    (sentences cfg t).length ≤ (closedSentences cfg t).length + 1 := by
  rw [sentences_eq ht, closedSentences, settled]
  split
  · rcases List.eq_nil_or_concat (scan sentenceRead t).1 with hnil | ⟨hs, h, heq⟩
    · rw [hnil]
      exact Nat.zero_le _
    · rw [heq, List.concat_eq_append, List.dropLast_concat]
      exact length_sentencesOf_append_le hs h
  · omega

theorem closedSentences_isPrefix {t : PyStr} (ht : normSpaces cfg t = t) :
    closedSentences cfg t <+: sentences cfg t := by
  rw [sentences_eq ht]
  exact ((settled_isPrefix sentenceRead t).map _).filter _

/-- A closed sentence is a closed sentence of every longer text. -/
theorem closedSentences_grow {t t' : PyStr} (ht' : normSpaces cfg t' = t') (h : t <+: t') :
    closedSentences cfg t <+: closedSentences cfg t' := by
  obtain ⟨x, rfl⟩ := h
  refine ((settled_grow sentence_reads sentence_grows t x fun c hc => ?_).map _).filter _
  rintro rfl
  exact newline_not_mem ht' hc

theorem mem_sentences {t s : PyStr} (h : s ∈ sentences cfg t) :
    normSpaces cfg s = s ∧ s ≠ [] := by
  rw [sentences, splitCompleteSentencesText] at h
  split at h
  · cases h
  · obtain ⟨hmem, hne⟩ := List.mem_filter.mp h
    obtain ⟨hit, -, rfl⟩ := List.mem_map.mp hmem
    exact ⟨normSpaces_normSpaces cfg _, by simpa using hne⟩

end Sentences

end VTranser.Translator

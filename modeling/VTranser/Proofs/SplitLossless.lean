import Mathlib.Data.List.Chain
import VTranser.Proofs.SplitComplete

/-!
# Splitting into sentences loses nothing

Every cut between two sentences falls on one of the blanks of a normalized text, and
such a text can be cut at a blank into two normalized ones (`normal_split`): no
pass has anything to do in a part of the words that it had nothing to do in. So the
pieces come back as they were read, and joined by single blanks they are the
text (`split_rejoin`).
-/

namespace VTranser.Translator

open Regex Words

variable {cfg : TextConfig}

/-! ## Cutting a normalized text -/

section Cut

/-- Words that every pass leaves as they are. -/
structure NormalWords (cfg : TextConfig) (ws : List PyStr) : Prop where
  settled : Settled ws
  whole : cfg.fixBrokenWords = true → ws.IsChain fun x y => repaired x y = none

theorem length_fixTokens_le (ws : List PyStr) : (fixTokens ws).length ≤ ws.length := by
  induction ws using fixTokens.induct with
  | case1 x y rest rep h ih =>
      rw [fixTokens, h]
      simp only [List.length_cons]
      omega
  | case2 x y rest h ih =>
      rw [fixTokens_cons_none h]
      simpa using ih
  | case3 ws h =>
      cases ws with
      | nil => exact Nat.le_refl _
      | cons x rest =>
          cases rest with
          | nil => exact Nat.le_refl _
          | cons y ys => exact absurd rfl (h x y ys)

/-- Only neighbours that are no halves of a word stay. -/
theorem fixTokens_eq_iff (ws : List PyStr) :
    fixTokens ws = ws ↔ ws.IsChain fun x y => repaired x y = none := by
  induction ws using fixTokens.induct with
  | case1 x y rest rep h ih =>
      have hlt := length_fixTokens_le rest
      constructor
      · intro heq
        have hlen := congrArg List.length heq
        rw [fixTokens, h] at hlen
        simp only [List.length_cons] at hlen
        omega
      · intro hchain
        rw [List.isChain_cons_cons, h] at hchain
        cases hchain.1
  | case2 x y rest h ih =>
      rw [fixTokens_cons_none h, List.isChain_cons_cons, List.cons.injEq, ih]
      simp [h]
  | case3 ws h =>
      cases ws with
      | nil => simp [fixTokens]
      | cons x rest =>
          cases rest with
          | nil => simp [fixTokens]
          | cons y ys => exact absurd rfl (h x y ys)

theorem NormalWords.words {ws : List PyStr} (h : NormalWords cfg ws) : ∀ w ∈ ws, PyWord w :=
  fun w hw => (h.settled.words w hw).1

theorem NormalWords.normWords {ws : List PyStr} (h : NormalWords cfg ws) :
    normWords cfg ws = ws := by
  have hmap : ws.map (subMultiDots 0) = ws :=
    (List.map_congr_left fun w hw => (h.settled.words w hw).2).trans (List.map_id _)
  rw [Translator.normWords, glue_of_apart h.settled.apart, hmap]
  split
  · next hfix => exact (fixTokens_eq_iff ws).mpr (h.whole hfix)
  · rfl

theorem NormalWords.append {us vs : List PyStr} (h : NormalWords cfg (us ++ vs)) :
    NormalWords cfg us ∧ NormalWords cfg vs := by
  constructor
  · refine ⟨⟨fun w hw => h.settled.words w (by simp [hw]), fun w hw => ?_⟩,
      fun hfix => (h.whole hfix).left_of_append⟩
    cases us with
    | nil => cases hw
    | cons u us => exact h.settled.apart w (List.mem_append_left vs hw)
  · refine ⟨⟨fun w hw => h.settled.words w (by simp [hw]), fun w hw => ?_⟩,
      fun hfix => (h.whole hfix).right_of_append⟩
    cases us with
    | nil => exact h.settled.apart w hw
    | cons u us =>
        exact h.settled.apart w (List.mem_append_right us (List.mem_of_mem_tail hw))

theorem normal_joinWords {ws : List PyStr} (h : NormalWords cfg ws) :
    normSpaces cfg (joinWords ' ' ws) = joinWords ' ' ws := by
  rw [normSpaces_eq, pySplit, words_joinWords pySpace_blank h.words, h.normWords]

/-- A text is normalized when its words are. -/
theorem normal_words {t : PyStr} (ht : normSpaces cfg t = t) :
    ∃ ws, NormalWords cfg ws ∧ joinWords ' ' ws = t := by
  have hws : ∀ w ∈ pySplit t, PyWord w := fun w hw => mem_words hw
  refine ⟨normWords cfg (pySplit t), ⟨settled_normWords cfg hws, fun hfix => ?_⟩, ?_⟩
  · rw [normWords, if_pos hfix]
    exact (fixTokens_eq_iff _).mp (fixTokens_fixTokens _)
  · rw [← normSpaces_eq, ht]

/-- Cut at a blank, a normalized text falls into two. -/
theorem normal_split {s t : PyStr} (h : normSpaces cfg (s ++ ' ' :: t) = s ++ ' ' :: t) :
    (normSpaces cfg s = s ∧ s ≠ []) ∧ normSpaces cfg t = t ∧ t ≠ [] := by
  obtain ⟨ws, hws, hjoin⟩ := normal_words h
  obtain ⟨us, vs, rfl, ⟨hus, rfl⟩, hvs, rfl⟩ := joinWords_split pySpace_blank hws.words hjoin
  obtain ⟨hu, hv⟩ := hws.append
  have hne : ∀ {l : List PyStr}, NormalWords cfg l → l ≠ [] → joinWords ' ' l ≠ [] :=
    fun hl hnil heq => hnil ((joinWords_eq_nil hl.words).mp heq)
  exact ⟨⟨normal_joinWords hu, hne hu hus⟩, normal_joinWords hv, hne hv hvs⟩

theorem normSpaces_cons_blank (t : PyStr) : normSpaces cfg (' ' :: t) = normSpaces cfg t := by
  rw [normSpaces_eq, normSpaces_eq, pySplit, words_cons_sep pySpace_blank, ← pySplit]

/-- A normalized text does not start with white space. -/
theorem normal_dropWhile {t : PyStr} (ht : normSpaces cfg t = t) :
    t.dropWhile (onChar pySpace) = t := by
  obtain ⟨ws, hws, rfl⟩ := normal_words ht
  cases ws with
  | nil => rfl
  | cons w ws =>
      have hw := hws.words w (by simp)
      obtain ⟨c, cs, rfl⟩ := List.exists_cons_of_ne_nil hw.ne_nil
      have hc : onChar pySpace c = false := hw.not_sep c (by simp)
      cases ws with
      | nil => rw [joinWords_singleton, List.dropWhile_cons_of_neg (by simp [hc])]
      | cons v vs =>
          rw [joinWords_cons_cons, List.cons_append, List.dropWhile_cons_of_neg (by simp [hc])]

end Cut

/-! ## Reading sentence by sentence -/

section Read

theorem bodyEnd_suffix {cs w : PyStr} (h : bodyEnd cs = some w) : w <:+ cs ∧ atBreak w = true := by
  induction cs with
  | nil => cases h
  | cons c cs ih =>
      rw [bodyEnd] at h
      split at h
      · next hpass =>
          injection h with h
          rw [Bool.and_eq_true] at hpass
          have hdrop := (List.dropWhile_suffix (l := (c :: cs).dropWhile (onChar isTerm))
            (onChar isClosing)).trans (List.dropWhile_suffix (onChar isTerm))
          exact ⟨h ▸ hdrop, h ▸ hpass.2⟩
      · exact ⟨(ih h).1.trans (List.suffix_cons c cs), (ih h).2⟩

/-- A sentence of a normalized text is the whole of it, or the part before a blank. -/
theorem normal_read {t g sep u : PyStr} (ht : normSpaces cfg t = t)
    (h : sentenceRead t = some ((g, sep), u)) :
    (g = t ∧ sep = [] ∧ u = []) ∨ (t = g ++ ' ' :: u ∧ sep = [' ']) := by
  cases t with
  | nil => rw [sentenceRead_nil] at h; cases h
  | cons c cs =>
      rw [sentenceRead_cons (newline_not_mem ht)] at h
      simp only [Option.map_eq_some_iff, Prod.mk.injEq] at h
      obtain ⟨w, hw, ⟨hg, hsep⟩, hu⟩ := h
      obtain ⟨hsuffix, hbreak⟩ := bodyEnd_suffix hw
      obtain ⟨v, hv⟩ := hsuffix.trans (List.suffix_cons c cs)
      have hgv : g = v := by rw [← hg, take_sub_length hv.symm]
      cases w with
      | nil =>
          left
          rw [List.append_nil] at hv
          exact ⟨hgv.trans hv, hsep.symm, hu.symm⟩
      | cons d w =>
          right
          have hd : onChar pySpace d = true := by simpa [atBreak] using hbreak
          have hblank : d = ' ' := by
            have hmem : d ∈ normSpaces cfg (c :: cs) := by
              rw [ht, ← hv]
              simp
            exact normSpaces_blank hmem hd
          subst hblank
          rw [← hv] at ht
          rw [List.dropWhile_cons_of_pos hd, normal_dropWhile (normal_split ht).2.1] at hu hsep
          rw [← hu, ← hsep, hgv, ← hv]
          refine ⟨rfl, ?_⟩
          rw [List.length_cons, Nat.add_sub_cancel_left]
          rfl

/-- What is left behind the last of the matches, with the white space before it. -/
def restOf (t : PyStr) (out : List (Hit Char (PyStr × PyStr)) × PyStr) : PyStr :=
  match out.1.getLast? with
  | none => t
  | some h => h.value.2 ++ out.2

/-- The tail of a split, if there is one. -/
def lastPiece (tail : PyStr) : List PyStr := if tail.isEmpty then [] else [tail]

/-- What a scan of a normalized text finds: the tail is what it leaves, and the
pieces are the text. -/
structure Rejoins (cfg : TextConfig) (t : PyStr) : Prop where
  tail : normSpaces cfg (restOf t (scan sentenceRead t)) = (scan sentenceRead t).2
  pieces : joinWords ' ' (sentencesOf cfg (scan sentenceRead t).1 ++
    lastPiece (scan sentenceRead t).2) = t

theorem Rejoins.none {t : PyStr} (ht : normSpaces cfg t = t) (h : search sentenceRead t = none) :
    Rejoins cfg t := by
  constructor
  · rw [scan_none h]
    exact ht
  · rw [scan_none h, sentencesOf, List.map_nil, List.filter_nil, List.nil_append, lastPiece]
    split
    · next hnil => exact (List.isEmpty_iff.mp hnil).symm
    · exact joinWords_singleton t

theorem sentencesOf_cons {g sep : PyStr} (hg : normSpaces cfg g = g) (hne : g ≠ [])
    (sk : PyStr) (hs : List (Hit Char (PyStr × PyStr))) :
    sentencesOf cfg (⟨sk, (g, sep)⟩ :: hs) = g :: sentencesOf cfg hs := by
  rw [sentencesOf, List.map_cons, hg, List.filter_cons_of_pos (by simpa using hne)]
  rfl

/-- The match that takes the whole text. -/
theorem Rejoins.whole {t : PyStr} (ht : normSpaces cfg t = t) (hne : t ≠ [])
    (h : search sentenceRead t = some ([], (t, []), [])) : Rejoins cfg t := by
  have hnil : search sentenceRead [] = Option.none := by decide
  constructor
  · rw [scan_some sentence_reads h, scan_none hnil]
    rfl
  · rw [scan_some sentence_reads h, scan_none hnil, sentencesOf_cons ht hne]
    exact joinWords_singleton t

theorem restOf_cons_blank {g u : PyStr} {out : List (Hit Char (PyStr × PyStr)) × PyStr}
    (hu : normSpaces cfg u = u) (h : normSpaces cfg (restOf u out) = out.2) :
    normSpaces cfg (restOf (g ++ ' ' :: u) (⟨[], (g, [' '])⟩ :: out.1, out.2)) = out.2 := by
  obtain ⟨hs, rest⟩ := out
  rw [restOf, List.getLast?_cons]
  rw [restOf] at h
  cases hlast : hs.getLast? with
  | none =>
      simp only [hlast, hu] at h
      show normSpaces cfg (' ' :: rest) = rest
      rw [normSpaces_cons_blank, ← h, hu]
  | some hit =>
      simp only [hlast] at h
      exact h

/-- The match that ends before a blank. -/
theorem Rejoins.blank {g u : PyStr} (ht : normSpaces cfg (g ++ ' ' :: u) = g ++ ' ' :: u)
    (h : search sentenceRead (g ++ ' ' :: u) = some ([], (g, [' ']), u)) (ih : Rejoins cfg u) :
    Rejoins cfg (g ++ ' ' :: u) := by
  obtain ⟨⟨hg, hgne⟩, hu, hune⟩ := normal_split ht
  constructor
  · rw [scan_some sentence_reads h]
    exact restOf_cons_blank hu ih.tail
  · rw [scan_some sentence_reads h, sentencesOf_cons hg hgne, List.cons_append]
    have hpieces := ih.pieces
    generalize sentencesOf cfg (scan sentenceRead u).1 ++
      lastPiece (scan sentenceRead u).2 = l at hpieces ⊢
    cases l with
    | nil => exact absurd hpieces.symm hune
    | cons p ps => rw [joinWords_cons_cons, hpieces]

theorem rejoins (t : PyStr) : normSpaces cfg t = t → Rejoins cfg t := by
  refine scan_induction sentence_reads (motive := fun t =>
    normSpaces cfg t = t → Rejoins cfg t) ?_ ?_ t
  · intro t h ht
    exact .none ht h
  · intro t sk b u h ih ht
    obtain ⟨g, sep⟩ := b
    have hread := search_sentence (newline_not_mem ht)
    rw [h, eq_comm, Option.map_eq_some_iff] at hread
    obtain ⟨r, hr, heq⟩ := hread
    simp only [Prod.mk.injEq] at heq
    obtain ⟨rfl, rfl⟩ := heq
    rcases normal_read ht hr with ⟨rfl, rfl, rfl⟩ | ⟨rfl, rfl⟩
    · refine .whole ht ?_ h
      rintro rfl
      rw [sentenceRead_nil] at hr
      cases hr
    · exact .blank ht h (ih (normal_split ht).2.1)

end Read

/-! ## The function of the source -/

section Split

/-- The sentences of a split and its tail, if it is not empty. -/
def splitPieces (out : List PyStr × PyStr) : List PyStr := out.1 ++ lastPiece out.2

theorem split_eq {t : PyStr} (ht : normSpaces cfg t = t) :
    splitCompleteSentencesText cfg t =
      (sentencesOf cfg (scan sentenceRead t).1, (scan sentenceRead t).2) := by
  rw [splitCompleteSentencesText, ht]
  split
  · next hnil => rw [List.isEmpty_iff.mp hnil]; rfl
  · exact Prod.ext rfl (rejoins t ht).tail

theorem split_normSpaces (cfg : TextConfig) (text : PyStr) :
    splitCompleteSentencesText cfg (normSpaces cfg text) = splitCompleteSentencesText cfg text := by
  rw [splitCompleteSentencesText, normSpaces_normSpaces]
  rfl

/-- The pieces of a split are the normalized text. -/
theorem split_rejoin (cfg : TextConfig) (text : PyStr) :
    joinWords ' ' (splitPieces (splitCompleteSentencesText cfg text)) = normSpaces cfg text := by
  have hnorm := normSpaces_normSpaces cfg text
  rw [← split_normSpaces, split_eq hnorm]
  exact (rejoins _ hnorm).pieces

/-- With a tail every sentence is closed. -/
theorem closedSentences_of_tail {t : PyStr} (ht : normSpaces cfg t = t)
    (htail : (splitCompleteSentencesText cfg t).2 ≠ []) :
    closedSentences cfg t = sentences cfg t := by
  rw [split_eq ht] at htail
  rw [closedSentences, settled, if_neg (by simpa using htail), sentences_eq ht]

end Split

/-- Splitting is lossless, and a sentence that something follows is a sentence of
every longer text, at the same place. -/
theorem split_lossless_stable (cfg : TextConfig) :
    (∀ text, [' '].intercalate (splitPieces (splitCompleteSentencesText cfg text)) =
      normSpaces cfg text) ∧
    ∀ t t', normSpaces cfg t = t → normSpaces cfg t' = t' → t <+: t' →
      ∀ i s, (splitCompleteSentencesText cfg t).1[i]? = some s →
        i + 1 < (splitCompleteSentencesText cfg t).1.length ∨
          (splitCompleteSentencesText cfg t).2 ≠ [] →
        (splitCompleteSentencesText cfg t').1[i]? = some s := by
  refine ⟨split_rejoin cfg, fun t t' ht ht' hgrow i s hs hfollowed => ?_⟩
  have hclosed : i < (closedSentences cfg t).length := by
    have hi : i < (sentences cfg t).length := (List.getElem?_eq_some_iff.mp hs).1
    rcases hfollowed with hnext | htail
    · have hlen := length_closedSentences ht
      rw [sentences] at hlen
      omega
    · rwa [closedSentences_of_tail ht htail]
  -- Closed in `t`, hence closed in `t'`, hence a sentence of `t'`.
  have hsame := List.prefix_iff_getElem?.mp (closedSentences_isPrefix ht) i hclosed
  have hgrown := List.prefix_iff_getElem?.mp ((closedSentences_grow ht' hgrow).trans
    (closedSentences_isPrefix ht')) i hclosed
  rw [← sentences] at hs ⊢
  rw [hgrown, ← hsame, hs]

theorem split_lossless_stable_words :
    (splitCompleteSentencesText ⟨Char.isAlphanum, true⟩ "Not to. Day two.".toList).1[0]? =
      some "Not to.".toList :=
  (split_lossless_stable ⟨Char.isAlphanum, true⟩).2 "Not to. Day".toList "Not to. Day two.".toList
    (by decide +kernel) (by decide +kernel) ⟨" two.".toList, by decide⟩ 0 "Not to.".toList
    (by decide +kernel) (Or.inr (by decide +kernel))

end VTranser.Translator

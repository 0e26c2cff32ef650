import VTranser.Proofs.SplitLossless
import VTranser.Proofs.Tidy

/-!
# The letters of a text that is cut and repaired

Repairing a broken word puts its two halves together, and writes the word as the list
of such words has it. So `normSpaces` keeps the letters and digits of a text,
except that a repaired word may change their case: `glyphs` is what it keeps
(`glyphs_normSpaces`). Cutting a text into sentences keeps them too.
-/

namespace VTranser.Translator

open Words

/-- Letters and digits are what `str.isalnum` says of the characters the source
names. -/
structure TextConfig.Alphabetic (cfg : TextConfig) : Prop extends cfg.Proper where
  alpha : ∀ c, c.isAlpha = true → cfg.isalnum c = true

/-- The letters and digits of a text, up to case if broken words are repaired. -/
def glyphs (cfg : TextConfig) (s : PyStr) : PyStr :=
  if cfg.fixBrokenWords then lower (letters cfg s) else letters cfg s

variable {cfg : TextConfig}

section Glyphs

@[simp] theorem glyphs_nil : glyphs cfg [] = [] := by
  rw [glyphs]
  split <;> rfl

@[simp] theorem glyphs_append (s t : PyStr) :
    glyphs cfg (s ++ t) = glyphs cfg s ++ glyphs cfg t := by
  rw [glyphs, glyphs, glyphs, letters_append]
  split
  · exact List.map_append
  · rfl

/-- Texts with the same letters have the same glyphs. -/
theorem glyphs_congr {s t : PyStr} (h : letters cfg s = letters cfg t) :
    glyphs cfg s = glyphs cfg t := by
  rw [glyphs, glyphs, h]

theorem glyphs_of_noise (hcfg : cfg.Proper) {s : PyStr}
    (h : (s.isEmpty || isPunctOnly cfg s) = true) : glyphs cfg s = [] := by
  have hnil : letters cfg s = letters cfg [] := letters_of_noise hcfg h
  rw [glyphs_congr hnil, glyphs_nil]

end Glyphs

/-! ## Repair -/

section Repair

theorem isAlpha_of_toLower {c : Char} (h : c.toLower.isLower = true) : c.isAlpha = true := by
  show (c.isUpper || c.isLower) = true
  by_cases hup : c.isUpper = true
  · rw [hup, Bool.true_or]
  · have hsame : c.toLower = c := dif_neg fun hrange => hup (decide_eq_true hrange)
    rw [hsame] at h
    rw [h, Bool.or_true]

/-- A text whose letters are lower case ones up to case. -/
theorem letters_of_lower (hcfg : cfg.Alphabetic) {s w : PyStr} (h : lower s = w)
    (hw : w.all Char.isLower = true) : letters cfg s = s := by
  rw [letters, List.filter_eq_self]
  intro c hc
  refine hcfg.alpha c (isAlpha_of_toLower (List.all_eq_true.mp hw _ ?_))
  rw [← h]
  exact List.mem_map_of_mem hc

/-- A repaired word is its two halves, up to case. -/
theorem repaired_letters (hcfg : cfg.Alphabetic) {x y rep : PyStr} (h : repaired x y = some rep) :
    lower (letters cfg rep) = lower (letters cfg x) ++ lower (letters cfg y) := by
  have hlist : ∀ e ∈ brokenWordWhitelist, e.2 = e.1.1 ++ e.1.2 ∧
      (lower e.2 = e.2 ∧ lower (title e.2) = e.2) ∧
      e.1.1.all Char.isLower = true ∧ e.1.2.all Char.isLower = true ∧
        e.2.all Char.isLower = true := by decide
  simp only [repaired, Option.map_eq_some_iff] at h
  obtain ⟨w, hw, hrep⟩ := h
  obtain ⟨hcat, ⟨hlow, htitle⟩, hx, hy, hall⟩ := hlist _ (mem_of_lookup hw)
  have hlower : lower rep = w := by
    split at hrep
    · rw [← hrep]; exact htitle
    · rw [← hrep]; exact hlow
  rw [letters_of_lower hcfg hlower hall, letters_of_lower hcfg rfl hx,
    letters_of_lower hcfg rfl hy, hlower]
  exact hcat

theorem fixTokens_letters (hcfg : cfg.Alphabetic) (ws : List PyStr) :
    (fixTokens ws).flatMap (fun w => lower (letters cfg w)) =
      ws.flatMap fun w => lower (letters cfg w) := by
  induction ws using fixTokens.induct with
  | case1 x y rest rep h ih =>
      rw [fixTokens, h]
      simp only [List.flatMap_cons, ih, repaired_letters hcfg h, List.append_assoc]
  | case2 x y rest h ih =>
      rw [fixTokens_cons_none h]
      simp only [List.flatMap_cons] at ih ⊢
      rw [ih]
  | case3 ws h =>
      cases ws with
      | nil => rfl
      | cons x rest =>
          cases rest with
          | nil => rfl
          | cons y ys => exact absurd rfl (h x y ys)

/-- The letters of a text are those of its words. -/
theorem letters_pySplit (hcfg : cfg.Proper) (s : PyStr) :
    (pySplit s).flatMap (letters cfg) = letters cfg s := by
  have hkeep : ∀ c, ((!onChar pySpace c) && cfg.isalnum c) = cfg.isalnum c := by
    intro c
    cases hc : onChar pySpace c with
    | true => rw [hcfg.space c hc, Bool.and_false]
    | false => rfl
  have hflat : (pySplit s).flatten = s.filter fun c => !onChar pySpace c := words_flatten s
  calc (pySplit s).flatMap (letters cfg)
      = letters cfg (pySplit s).flatten := List.filter_flatten.symm
    _ = letters cfg s := by
      rw [hflat, letters, letters, List.filter_filter]
      exact List.filter_congr fun c _ => by rw [Bool.and_comm, hkeep]

theorem letters_joinWords (hcfg : cfg.Proper) (ws : List PyStr) :
    letters cfg (joinWords ' ' ws) = ws.flatMap (letters cfg) := by
  induction ws with
  | nil => rfl
  | cons w ws ih =>
      cases ws with
      | nil => simp
      | cons v vs =>
          rw [joinWords_cons_cons, letters_append,
            letters_cons_of_not (hcfg.space ' ' pySpace_blank), ih]
          exact List.flatMap_cons.symm

/-- `_fix_broken_words_whitelist` keeps the letters up to case. -/
theorem fixBrokenWords_letters (hcfg : cfg.Alphabetic) (s : PyStr) :
    lower (letters cfg (fixBrokenWordsWhitelist s)) = lower (letters cfg s) := by
  have hlower : ∀ ws : List PyStr,
      lower (ws.flatMap (letters cfg)) = ws.flatMap fun w => lower (letters cfg w) :=
    fun ws => List.map_flatMap
  rw [fixBrokenWordsWhitelist]
  split
  · rfl
  · show lower (letters cfg (joinWords ' ' (fixTokens (pySplit s)))) = _
    rw [letters_joinWords hcfg.toProper, hlower, fixTokens_letters hcfg, ← hlower,
      letters_pySplit hcfg.toProper]

end Repair

/-! ## Normalizing and cutting -/

section Cutting

theorem glyphs_normSpaces (hcfg : cfg.Alphabetic) (s : PyStr) :
    glyphs cfg (normSpaces cfg s) = glyphs cfg s := by
  cases hfix : cfg.fixBrokenWords with
  | false => exact glyphs_congr (letters_normSpaces hcfg.toProper hfix s)
  | true =>
      -- The passes before the repair are those of the same settings without it.
      have hproper : { cfg with fixBrokenWords := false }.Proper := ⟨hcfg.space, hcfg.punct⟩
      have hpasses := letters_normSpaces hproper rfl s
      have hrepair : normSpaces cfg s =
          fixBrokenWordsWhitelist (normSpaces { cfg with fixBrokenWords := false } s) := by
        rw [normSpaces, normSpaces]
        simp only [hfix, if_true, Bool.false_eq_true, if_false]
        split
        · rfl
        · rfl
      have hsame : letters cfg = letters { cfg with fixBrokenWords := false } := rfl
      rw [glyphs, glyphs, if_pos hfix, if_pos hfix, hrepair, fixBrokenWords_letters hcfg, hsame,
        hpasses]

theorem letters_joinTextParts (hcfg : cfg.Proper) (base piece : PyStr) :
    letters cfg (joinTextParts base piece) = letters cfg base ++ letters cfg piece := by
  rw [← letters_pyStrip hcfg base, ← letters_pyStrip hcfg piece, joinTextParts]
  split
  · next hnil => rw [List.isEmpty_iff.mp hnil]; rfl
  · split
    · next hnil => rw [hnil, letters_nil, List.append_nil]
    · next c cs hcons =>
        rw [hcons]
        split
        · exact letters_append _ _
        · rw [letters_append, letters_cons_of_not (hcfg.space ' ' pySpace_blank)]

theorem glyphs_joinTextParts (hcfg : cfg.Proper) (base piece : PyStr) :
    glyphs cfg (joinTextParts base piece) = glyphs cfg base ++ glyphs cfg piece := by
  rw [← glyphs_append]
  exact glyphs_congr (by rw [letters_joinTextParts hcfg, letters_append])

theorem glyphs_lastPiece (tail : PyStr) : (lastPiece tail).flatMap (glyphs cfg) = glyphs cfg tail := by
  rw [lastPiece]
  split
  · next hnil => rw [List.isEmpty_iff.mp hnil, glyphs_nil]; rfl
  · exact List.flatMap_singleton _ _

/-- Sentences and tail have the letters of the text. -/
theorem glyphs_split (hcfg : cfg.Alphabetic) (text : PyStr) :
    (splitCompleteSentencesText cfg text).1.flatMap (glyphs cfg) ++
      glyphs cfg (splitCompleteSentencesText cfg text).2 = glyphs cfg text := by
  have hjoin : ∀ ws : List PyStr, glyphs cfg (joinWords ' ' ws) = ws.flatMap (glyphs cfg) := by
    intro ws
    induction ws with
    | nil => exact glyphs_nil
    | cons w ws ih =>
        rw [List.flatMap_cons, ← ih, ← glyphs_append]
        refine glyphs_congr ?_
        rw [letters_append, letters_joinWords hcfg.toProper, letters_joinWords hcfg.toProper,
          List.flatMap_cons]
  have hrejoin := congrArg (glyphs cfg) (split_rejoin cfg text)
  rw [glyphs_normSpaces hcfg, hjoin, splitPieces, List.flatMap_append, glyphs_lastPiece] at hrejoin
  exact hrejoin

end Cutting

end VTranser.Translator

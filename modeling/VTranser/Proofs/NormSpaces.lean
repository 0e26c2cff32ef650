import VTranser.Translator.Text

/-!
# The normal form of the translator's texts

Seen as a list of words, `normSpaces` glues a word that starts with punctuation
to the word before it, shortens runs of dots inside words, and repairs broken
words (`normWords`); in between it only moves blanks. `normSpaces_eq` says so,
one lemma for each pass of the source.

The words that come out are `Settled`: each pass leaves them alone. Hence a
normalized text is its own normal form (`normSpaces_normSpaces`).
-/

namespace VTranser.Translator

open Words

/-- A run without white space. -/
abbrev PyWord (w : PyStr) : Prop := Word (onChar pySpace) w

theorem pySpace_blank : onChar pySpace ' ' = true := by decide

/-! ## Blanks -/

section Blanks

theorem subSpaces_word {w : PyStr} (hw : ∀ c ∈ w, onChar pySpace c = false) (hne : w ≠ [])
    (inRun : Bool) (s : PyStr) : subSpaces inRun (w ++ s) = w ++ subSpaces false s := by
  induction w generalizing inRun with
  | nil => exact absurd rfl hne
  | cons c cs ih =>
      rw [List.cons_append, subSpaces, if_neg (by simp [hw c (by simp)]), List.cons_append]
      cases cs with
      | nil => rfl
      | cons d ds => rw [ih (fun e he => hw e (by simp [he])) (by simp)]

/-- Stripping the left end is starting inside a run of white space. -/
theorem dropWhile_subSpaces (s : PyStr) :
    (subSpaces false s).dropWhile (onChar pySpace) = subSpaces true s := by
  have hhead : ∀ s : PyStr, (subSpaces true s).dropWhile (onChar pySpace) = subSpaces true s := by
    intro s
    induction s with
    | nil => rfl
    | cons c cs ih =>
        rw [subSpaces]
        split
        · rw [if_pos rfl, ih]
        · next hc => rw [List.dropWhile_cons_of_neg hc]
  cases s with
  | nil => rfl
  | cons c cs =>
      rw [subSpaces, subSpaces]
      split
      · rw [if_neg (by simp), if_pos rfl, List.dropWhile_cons_of_pos pySpace_blank, hhead]
      · next hc => rw [List.dropWhile_cons_of_neg hc]

theorem rdropWhile_append {p : Char → Bool} (a b : PyStr) :
    (a ++ b).rdropWhile p = if b.rdropWhile p = [] then a.rdropWhile p else a ++ b.rdropWhile p := by
  have hiff : (b.reverse.dropWhile p).isEmpty = true ↔ b.rdropWhile p = [] := by
    simp [List.rdropWhile]
  rw [List.rdropWhile, List.reverse_append, List.dropWhile_append]
  by_cases h : b.rdropWhile p = []
  · rw [if_pos (hiff.mpr h), if_pos h, List.rdropWhile]
  · rw [if_neg (fun h' => h (hiff.mp h')), if_neg h, List.reverse_append, List.reverse_reverse]
    rfl

theorem rdropWhile_word {w : PyStr} (hw : PyWord w) : w.rdropWhile (onChar pySpace) = w := by
  rw [List.rdropWhile_eq_self_iff]
  intro hne
  simp [hw.not_sep _ (List.getLast_mem hne)]

/-- Collapsing and stripping leaves the words with a blank between them. -/
theorem rdropWhile_subSpaces (s : PyStr) :
    (subSpaces true s).rdropWhile (onChar pySpace) = joinWords ' ' (pySplit s) := by
  induction s using words_induction (p := onChar pySpace) with
  | nil => rfl
  | sep c cs hc ih => rw [subSpaces, if_pos hc, if_pos rfl, ih, pySplit, pySplit,
      words_cons_sep hc]
  | last w hw =>
      have hself := subSpaces_word hw.not_sep hw.ne_nil true []
      rw [List.append_nil] at hself
      rw [hself, subSpaces, List.append_nil, rdropWhile_word hw, pySplit, words_word hw,
        joinWords_singleton]
  | word w c cs hw hc ih =>
      have hblank : subSpaces false (c :: cs) = ' ' :: subSpaces true (c :: cs) := by
        rw [subSpaces, subSpaces, if_pos hc, if_neg (by simp), if_pos hc, if_pos rfl]
      have hwords : pySplit (w ++ c :: cs) = w :: pySplit (c :: cs) := words_append hw hc cs
      rw [subSpaces_word hw.not_sep hw.ne_nil, hblank, hwords, List.append_cons,
        rdropWhile_append, ih]
      have hall : ∀ v ∈ pySplit (c :: cs), PyWord v := fun v hv => mem_words hv
      cases hrest : pySplit (c :: cs) with
      | nil =>
          rw [joinWords_nil, if_pos rfl, rdropWhile_append,
            if_pos (by simp [List.rdropWhile_singleton, pySpace_blank]), rdropWhile_word hw,
            joinWords_singleton]
      | cons v vs =>
          rw [hrest] at hall
          have hne : joinWords ' ' (v :: vs) ≠ [] := fun h => by
            simpa using (joinWords_eq_nil hall).mp h
          rw [if_neg hne, joinWords_cons_cons]
          simp

theorem pyStrip_subSpaces (s : PyStr) :
    pyStrip (subSpaces false s) = joinWords ' ' (pySplit s) := by
  rw [pyStrip, dropWhile_subSpaces, rdropWhile_subSpaces]

end Blanks

/-! ## Punctuation and dots, word by word -/

section Glue

/-- Whether a word takes no blank before it. -/
def startsPunct (w : PyStr) : Bool := w.head?.any (noBlankBefore.contains ·)

/-- Words that start with punctuation go to the word before them. -/
def glue : List PyStr → List PyStr
  | [] => []
  | w :: ws =>
      match glue ws with
      | [] => [w]
      | v :: vs => if startsPunct v then (w ++ v) :: vs else w :: v :: vs

theorem punctNext_word {w : PyStr} (hw : PyWord w) (s : PyStr) :
    punctNext (w ++ s) = startsPunct w := by
  obtain ⟨c, cs, rfl⟩ := List.exists_cons_of_ne_nil hw.ne_nil
  have hc : onChar pySpace c = false := hw.not_sep c (by simp)
  rw [punctNext, List.cons_append, List.dropWhile_cons_of_neg (by simp [hc])]
  simp [startsPunct]

theorem subBlankBeforePunct_word {w : PyStr} (hw : ∀ c ∈ w, onChar pySpace c = false) (s : PyStr) :
    subBlankBeforePunct (w ++ s) = w ++ subBlankBeforePunct s := by
  induction w with
  | nil => rfl
  | cons c cs ih =>
      rw [List.cons_append, subBlankBeforePunct, hw c (by simp), Bool.false_and,
        if_neg (by simp), ih fun d hd => hw d (by simp [hd]), List.cons_append]

/-- Gluing keeps the first character. -/
theorem glue_cons_head {w : PyStr} (hw : PyWord w) (ws : List PyStr) :
    ∃ v vs, glue (w :: ws) = v :: vs ∧ startsPunct v = startsPunct w := by
  rw [glue]
  split
  · exact ⟨w, [], rfl, rfl⟩
  · next v vs _ =>
      split
      · refine ⟨w ++ v, vs, rfl, ?_⟩
        obtain ⟨c, cs, rfl⟩ := List.exists_cons_of_ne_nil hw.ne_nil
        rfl
      · exact ⟨w, v :: vs, rfl, rfl⟩

theorem glue_cons_of {w v : PyStr} {ws vs : List PyStr} (h : glue ws = v :: vs) :
    glue (w :: ws) = if startsPunct v then (w ++ v) :: vs else w :: v :: vs := by
  rw [glue, h]

theorem subBlankBeforePunct_joinWords {ws : List PyStr} (hws : ∀ w ∈ ws, PyWord w) :
    subBlankBeforePunct (joinWords ' ' ws) = joinWords ' ' (glue ws) := by
  induction ws with
  | nil => rfl
  | cons w ws ih =>
      have hw := hws w (by simp)
      cases ws with
      | nil =>
          have hself := subBlankBeforePunct_word hw.not_sep []
          rw [List.append_nil] at hself
          rw [joinWords_singleton, hself]
          simp [glue, subBlankBeforePunct]
      | cons v vs =>
          have hv := hws v (by simp)
          have hnext : punctNext (joinWords ' ' (v :: vs)) = startsPunct v := by
            cases vs with
            | nil =>
                have hself := punctNext_word hv []
                rw [joinWords_singleton, ← hself, List.append_nil]
            | cons u us => rw [joinWords_cons_cons, punctNext_word hv]
          obtain ⟨v', vs', hglue, hhead⟩ := glue_cons_head hv vs
          rw [joinWords_cons_cons, subBlankBeforePunct_word hw.not_sep, subBlankBeforePunct,
            pySpace_blank, Bool.true_and, hnext, ih fun u hu => hws u (by simp [hu]),
            glue_cons_of hglue, hglue, hhead]
          split
          · cases vs' with
            | nil => simp
            | cons u us => simp [joinWords_cons_cons]
          · rw [joinWords_cons_cons]

theorem subMultiDots_append_blank (n : Nat) (w s : PyStr) :
    subMultiDots n (w ++ ' ' :: s) = subMultiDots n w ++ ' ' :: subMultiDots 0 s := by
  induction w generalizing n with
  | nil => rfl
  | cons c cs ih =>
      rw [List.cons_append, subMultiDots, subMultiDots]
      split
      · split <;> rw [ih]
        rfl
      · rw [ih]
        rfl

theorem subMultiDots_joinWords (ws : List PyStr) :
    subMultiDots 0 (joinWords ' ' ws) = joinWords ' ' (ws.map (subMultiDots 0)) := by
  induction ws with
  | nil => rfl
  | cons w ws ih =>
      cases ws with
      | nil => simp
      | cons v vs =>
          rw [joinWords_cons_cons, subMultiDots_append_blank, ih]
          simp only [List.map_cons, joinWords_cons_cons]

theorem subMultiDots_subMultiDots (n : Nat) (s : PyStr) :
    subMultiDots n (subMultiDots n s) = subMultiDots n s := by
  induction s generalizing n with
  | nil => rfl
  | cons c cs ih =>
      rw [subMultiDots]
      split
      · next hc =>
          split
          · exact ih n
          · next hn => rw [subMultiDots, if_pos rfl, if_neg hn, ih]
      · next hc => rw [subMultiDots, if_neg hc, ih]

theorem mem_subMultiDots {n : Nat} {s : PyStr} {c : Char} (h : c ∈ subMultiDots n s) : c ∈ s := by
  induction s generalizing n with
  | nil => exact h
  | cons d ds ih =>
      rw [subMultiDots] at h
      split at h
      · next hd =>
          split at h
          · exact List.mem_cons_of_mem _ (ih h)
          · rcases List.mem_cons.mp h with rfl | h
            · simp [hd]
            · exact List.mem_cons_of_mem _ (ih h)
      · rcases List.mem_cons.mp h with rfl | h
        · simp
        · exact List.mem_cons_of_mem _ (ih h)

theorem subMultiDots_cons (c : Char) (cs : PyStr) :
    ∃ ds, subMultiDots 0 (c :: cs) = c :: ds := by
  rw [subMultiDots]
  split
  · next hc => exact ⟨_, by rw [if_neg (by simp), hc]⟩
  · exact ⟨_, rfl⟩

theorem subMultiDots_word {w : PyStr} (hw : PyWord w) :
    PyWord (subMultiDots 0 w) ∧ startsPunct (subMultiDots 0 w) = startsPunct w := by
  obtain ⟨c, cs, rfl⟩ := List.exists_cons_of_ne_nil hw.ne_nil
  obtain ⟨ds, hds⟩ := subMultiDots_cons c cs
  refine ⟨⟨by simp [hds], fun d hd => hw.not_sep d (mem_subMultiDots hd)⟩, ?_⟩
  rw [hds]
  rfl

end Glue

/-! ## Broken words -/

section Repair

/-- The words that repairing makes. -/
def repairedWords : List PyStr :=
  (brokenWordWhitelist.map Prod.snd) ++ brokenWordWhitelist.map fun e => title e.2

theorem mem_of_lookup {α β : Type*} [BEq α] [LawfulBEq α] {a : α} {b : β} {l : List (α × β)}
    (h : l.lookup a = some b) : (a, b) ∈ l := by
  obtain ⟨l₁, l₂, rfl, -⟩ := List.lookup_eq_some_iff.mp h
  simp

theorem repaired_mem {x y rep : PyStr} (h : repaired x y = some rep) : rep ∈ repairedWords := by
  simp only [repaired, Option.map_eq_some_iff] at h
  obtain ⟨w, hw, hrep⟩ := h
  have hentry := mem_of_lookup hw
  rw [repairedWords, List.mem_append, List.mem_map, List.mem_map]
  split at hrep
  · exact Or.inr ⟨_, hentry, hrep⟩
  · exact Or.inl ⟨_, hentry, hrep⟩

/-- A repaired word is no half of another. -/
theorem repaired_halves {w : PyStr} (hw : w ∈ repairedWords) (z : PyStr) :
    repaired w z = none ∧ repaired z w = none := by
  have hhalf : ∀ w ∈ repairedWords, ∀ e ∈ brokenWordWhitelist,
      e.1.1 ≠ lower w ∧ e.1.2 ≠ lower w := by decide
  simp only [repaired, Option.map_eq_none_iff, List.lookup_eq_none_iff, bne_iff_ne]
  refine ⟨fun e he heq => (hhalf w hw e he).1 ?_, fun e he heq => (hhalf w hw e he).2 ?_⟩
  · exact (congrArg Prod.fst heq).symm
  · exact (congrArg Prod.snd heq).symm

theorem fixTokens_cons_none {x y : PyStr} {rest : List PyStr} (h : repaired x y = none) :
    fixTokens (x :: y :: rest) = x :: fixTokens (y :: rest) := by
  rw [fixTokens, h]

/-- The first word of a repaired list is the first word or a repaired one. -/
theorem fixTokens_cons_head (y : PyStr) (rest : List PyStr) :
    ∃ z zs, fixTokens (y :: rest) = z :: zs ∧ (z = y ∨ z ∈ repairedWords) := by
  cases rest with
  | nil => exact ⟨y, [], rfl, Or.inl rfl⟩
  | cons u us =>
      cases h : repaired y u with
      | none => exact ⟨y, _, fixTokens_cons_none h, Or.inl rfl⟩
      | some rep => exact ⟨rep, fixTokens us, by rw [fixTokens, h], Or.inr (repaired_mem h)⟩

theorem fixTokens_fixTokens (ws : List PyStr) : fixTokens (fixTokens ws) = fixTokens ws := by
  induction ws using fixTokens.induct with
  | case1 x y rest rep h ih =>
      have hfix : fixTokens (x :: y :: rest) = rep :: fixTokens rest := by rw [fixTokens, h]
      rw [hfix]
      cases hrest : fixTokens rest with
      | nil => rfl
      | cons z zs =>
          rw [fixTokens_cons_none (repaired_halves (repaired_mem h) z).1, ← hrest, ih]
  | case2 x y rest h ih =>
      rw [fixTokens_cons_none h]
      obtain ⟨z, zs, hz, hor⟩ := fixTokens_cons_head y rest
      have hnone : repaired x z = none := by
        rcases hor with rfl | hmem
        · exact h
        · exact (repaired_halves hmem x).2
      rw [hz, fixTokens_cons_none hnone, ← hz, ih]
  | case3 ws h =>
      cases ws with
      | nil => rfl
      | cons x rest =>
          cases rest with
          | nil => rfl
          | cons y ys => exact absurd rfl (h x y ys)

end Repair

/-! ## Settled words -/

section Settled

/-- A word that every pass leaves as it is. -/
def SettledWord (w : PyStr) : Prop := PyWord w ∧ subMultiDots 0 w = w

/-- Words that every pass but the repair leaves as they are. -/
structure Settled (ws : List PyStr) : Prop where
  words : ∀ w ∈ ws, SettledWord w
  apart : ∀ w ∈ ws.tail, startsPunct w = false

theorem glue_words {ws : List PyStr} (hws : ∀ w ∈ ws, PyWord w) : ∀ w ∈ glue ws, PyWord w := by
  induction ws with
  | nil => simp [glue]
  | cons w ws ih =>
      have hw := hws w (by simp)
      have hrec := ih fun u hu => hws u (by simp [hu])
      cases hg : glue ws with
      | nil => simpa [glue, hg] using hw
      | cons v vs =>
          rw [hg] at hrec
          have hv := hrec v (by simp)
          rw [glue_cons_of hg]
          split
          · intro u hu
            rcases List.mem_cons.mp hu with rfl | hu
            · refine ⟨by simp [hw.ne_nil], fun c hc => ?_⟩
              rcases List.mem_append.mp hc with hc | hc
              · exact hw.not_sep c hc
              · exact hv.not_sep c hc
            · exact hrec u (by simp [hu])
          · intro u hu
            rcases List.mem_cons.mp hu with rfl | hu
            · exact hw
            · exact hrec u hu

theorem glue_apart (ws : List PyStr) : ∀ w ∈ (glue ws).tail, startsPunct w = false := by
  induction ws with
  | nil => simp [glue]
  | cons w ws ih =>
      cases hg : glue ws with
      | nil => simp [glue, hg]
      | cons v vs =>
          rw [hg, List.tail_cons] at ih
          rw [glue_cons_of hg]
          split
          · exact ih
          · next hv =>
              intro u hu
              rcases List.mem_cons.mp hu with rfl | hu
              · simpa using hv
              · exact ih u hu

theorem glue_of_apart {ws : List PyStr} (h : ∀ w ∈ ws.tail, startsPunct w = false) :
    glue ws = ws := by
  induction ws with
  | nil => rfl
  | cons w ws ih =>
      cases ws with
      | nil => rfl
      | cons v vs =>
          have hv : startsPunct v = false := h v (by simp)
          rw [glue_cons_of (ih fun u hu => h u (by simp_all)), if_neg (by simp [hv])]

theorem settled_dots {ws : List PyStr} (hws : ∀ w ∈ ws, PyWord w)
    (hapart : ∀ w ∈ ws.tail, startsPunct w = false) : Settled (ws.map (subMultiDots 0)) where
  words w hw := by
    obtain ⟨v, hv, rfl⟩ := List.mem_map.mp hw
    exact ⟨(subMultiDots_word (hws v hv)).1, subMultiDots_subMultiDots 0 v⟩
  apart w hw := by
    rw [← List.map_tail] at hw
    obtain ⟨v, hv, rfl⟩ := List.mem_map.mp hw
    rw [(subMultiDots_word (hws v (List.mem_of_mem_tail hv))).2]
    exact hapart v hv

theorem settled_repaired {w : PyStr} (hw : w ∈ repairedWords) :
    SettledWord w ∧ startsPunct w = false := by
  have hne : ∀ w ∈ repairedWords, w ≠ [] := by decide
  have hspaces : ∀ w ∈ repairedWords, w.all (fun c => !onChar pySpace c) = true := by decide
  have hdots : ∀ w ∈ repairedWords, subMultiDots 0 w = w := by decide
  have hpunct : ∀ w ∈ repairedWords, startsPunct w = false := by decide
  have hword : ∀ c ∈ w, onChar pySpace c = false := by
    intro c hc
    simpa using List.all_eq_true.mp (hspaces w hw) c hc
  exact ⟨⟨⟨hne w hw, hword⟩, hdots w hw⟩, hpunct w hw⟩

/-- Every word of a repaired list is a word of the list or a repaired one, and
behind its first the same holds of the tail. -/
theorem mem_fixTokens {ws : List PyStr} :
    (∀ w ∈ fixTokens ws, w ∈ ws ∨ w ∈ repairedWords) ∧
      ∀ w ∈ (fixTokens ws).tail, w ∈ ws.tail ∨ w ∈ repairedWords := by
  induction ws using fixTokens.induct with
  | case1 x y rest rep h ih =>
      have hfix : fixTokens (x :: y :: rest) = rep :: fixTokens rest := by rw [fixTokens, h]
      rw [hfix]
      have hrest : ∀ w ∈ fixTokens rest, w ∈ y :: rest ∨ w ∈ repairedWords := fun w hw =>
        (ih.1 w hw).imp_left (List.mem_cons_of_mem _)
      refine ⟨fun w hw => ?_, hrest⟩
      rcases List.mem_cons.mp hw with rfl | hw
      · exact Or.inr (repaired_mem h)
      · exact (hrest w hw).imp_left (List.mem_cons_of_mem _)
  | case2 x y rest h ih =>
      rw [fixTokens_cons_none h]
      refine ⟨fun w hw => ?_, ih.1⟩
      rcases List.mem_cons.mp hw with rfl | hw
      · exact Or.inl (by simp)
      · exact (ih.1 w hw).imp_left (List.mem_cons_of_mem _)
  | case3 ws h =>
      cases ws with
      | nil => exact ⟨fun _ => Or.inl, fun _ => Or.inl⟩
      | cons x rest =>
          cases rest with
          | nil => exact ⟨fun _ => Or.inl, fun _ => Or.inl⟩
          | cons y ys => exact absurd rfl (h x y ys)

theorem settled_fixTokens {ws : List PyStr} (h : Settled ws) : Settled (fixTokens ws) where
  words w hw := by
    rcases mem_fixTokens.1 w hw with hmem | hmem
    · exact h.words w hmem
    · exact (settled_repaired hmem).1
  apart w hw := by
    rcases mem_fixTokens.2 w hw with hmem | hmem
    · exact h.apart w hmem
    · exact (settled_repaired hmem).2

end Settled

/-! ## The whole function -/

/-- What `normSpaces` does to the words of a text. -/
def normWords (cfg : TextConfig) (ws : List PyStr) : List PyStr :=
  let ws := (glue ws).map (subMultiDots 0)
  if cfg.fixBrokenWords then fixTokens ws else ws

theorem settled_normWords (cfg : TextConfig) {ws : List PyStr} (hws : ∀ w ∈ ws, PyWord w) :
    Settled (normWords cfg ws) := by
  have hsettled := settled_dots (glue_words hws) (glue_apart ws)
  rw [normWords]
  split
  · exact settled_fixTokens hsettled
  · exact hsettled

theorem normWords_normWords (cfg : TextConfig) {ws : List PyStr} (hws : ∀ w ∈ ws, PyWord w) :
    normWords cfg (normWords cfg ws) = normWords cfg ws := by
  have hsettled := settled_normWords cfg hws
  have hmap : (normWords cfg ws).map (subMultiDots 0) = normWords cfg ws :=
    (List.map_congr_left fun w hw => (hsettled.words w hw).2).trans (List.map_id _)
  conv_lhs => rw [normWords, glue_of_apart hsettled.apart, hmap]
  split
  · next hfix => rw [normWords, if_pos hfix, fixTokens_fixTokens]
  · rfl

theorem fixBrokenWordsWhitelist_joinWords {ws : List PyStr} (hws : ∀ w ∈ ws, PyWord w) :
    fixBrokenWordsWhitelist (joinWords ' ' ws) = joinWords ' ' (fixTokens ws) := by
  rw [fixBrokenWordsWhitelist, pySplit, words_joinWords pySpace_blank hws]
  split
  · next hlen =>
      match ws with
      | [] => rfl
      | [w] => rfl
      | w :: v :: rest => exact absurd hlen (by simp)
  · rfl

/-- Replacing the line breaks by blanks leaves the words. -/
theorem pySplit_replace (s : PyStr) :
    pySplit ((s.map fun c => if c = '\r' then ' ' else c).map fun c => if c = '\n' then ' ' else c) =
      pySplit s := by
  have hmap : ∀ (d : Char) (s : PyStr), onChar pySpace d = true →
      pySplit (s.map fun c => if c = d then ' ' else c) = pySplit s := by
    intro d s hd
    refine words_map (fun c hc => ?_) (fun c hc => ?_) s
    · split
      · exact pySpace_blank
      · exact hc
    · split
      · next h => rw [h, hd] at hc; cases hc
      · rfl
  rw [hmap '\n' _ (by decide), hmap '\r' _ (by decide)]

theorem normSpaces_eq (cfg : TextConfig) (s : PyStr) :
    normSpaces cfg s = joinWords ' ' (normWords cfg (pySplit s)) := by
  have hws : ∀ w ∈ pySplit s, PyWord w := fun w hw => mem_words hw
  simp only [normSpaces, pyStrip_subSpaces, pySplit_replace]
  split
  · next hnil =>
      have hwords : pySplit s = [] := (joinWords_eq_nil hws).mp (List.isEmpty_iff.mp hnil)
      rw [hwords, normWords]
      split <;> rfl
  · rw [subBlankBeforePunct_joinWords hws, subMultiDots_joinWords, normWords]
    have hdots := (settled_dots (glue_words hws) (glue_apart (pySplit s))).words
    split
    · exact fixBrokenWordsWhitelist_joinWords fun w hw => (hdots w hw).1
    · rfl

/-- A normalized text is its own normal form. -/
theorem normSpaces_normSpaces (cfg : TextConfig) (s : PyStr) :
    normSpaces cfg (normSpaces cfg s) = normSpaces cfg s := by
  have hws : ∀ w ∈ pySplit s, PyWord w := fun w hw => mem_words hw
  have hsettled := settled_normWords cfg hws
  have hsplit : pySplit (joinWords ' ' (normWords cfg (pySplit s))) = normWords cfg (pySplit s) :=
    words_joinWords pySpace_blank fun w hw => (hsettled.words w hw).1
  rw [normSpaces_eq cfg s, normSpaces_eq, hsplit, normWords_normWords cfg hws]

/-- The only white space of a normalized text is the blank. -/
theorem normSpaces_blank {cfg : TextConfig} {s : PyStr} {c : Char} (hc : c ∈ normSpaces cfg s)
    (hspace : onChar pySpace c = true) : c = ' ' := by
  have hws : ∀ w ∈ pySplit s, PyWord w := fun w hw => mem_words hw
  have hsettled := settled_normWords cfg hws
  rw [normSpaces_eq] at hc
  revert hc
  generalize normWords cfg (pySplit s) = ws at hsettled
  intro hc
  rcases mem_joinWords hc with rfl | ⟨w, hw, hcw⟩
  · rfl
  · rw [(hsettled.words w hw).1.not_sep c hcw] at hspace
    cases hspace

end VTranser.Translator

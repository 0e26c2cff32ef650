import VTranser.Proofs.NormSpaces
import VTranser.Translator.Segmenter

/-!
# What the passes over a text keep

`normSpaces` and the stripping of noise touch white space and punctuation only,
so they keep the letters and digits of a text (`letters_normSpaces`), as long as
no broken words are repaired.

Each pass of `normSpaces` looks at the characters one after the other, which has
two consequences. What it makes of a text is the beginning of what it makes of a
longer one (`normSpaces_isPrefix`). And a text it leaves alone is made of parts it
leaves alone (`Tidy.part`): every stripped part of a normalized text is its own
normal form (`Tidy.normSpaces`).
-/

namespace VTranser.Translator

/-- White space and punctuation are no letters or digits. -/
structure TextConfig.Proper (cfg : TextConfig) : Prop where
  space : ∀ c, onChar pySpace c = true → cfg.isalnum c = false
  punct : ∀ c ∈ punctChars, cfg.isalnum c = false

/-- The letters of English are no white space and no punctuation. -/
theorem isAlphanum_proper (fixBrokenWords : Bool) :
    TextConfig.Proper ⟨Char.isAlphanum, fixBrokenWords⟩ where
  space c hc := by
    have hfar : c.toNat < 48 ∨ 122 < c.toNat := by
      simp only [onChar, pySpace, Bool.or_eq_true, Bool.and_eq_true, decide_eq_true_eq,
        List.contains_iff_mem, List.mem_cons, List.not_mem_nil, or_false] at hc
      omega
    have hbounds : 'A'.val.toNat = 65 ∧ 'Z'.val.toNat = 90 ∧ 'a'.val.toNat = 97 ∧
        'z'.val.toNat = 122 ∧ '0'.val.toNat = 48 ∧ '9'.val.toNat = 57 := by decide
    show (decide (c.val ≥ 'A'.val ∧ c.val ≤ 'Z'.val) ||
      (decide (c.val ≥ 'a'.val) && decide (c.val ≤ 'z'.val)) ||
        (decide (c.val ≥ '0'.val) && decide (c.val ≤ '9'.val))) = false
    simp only [Bool.or_eq_false_iff, Bool.and_eq_false_iff, decide_eq_false_iff_not,
      UInt32.le_iff_toNat_le, Char.toNat, ge_iff_le] at hfar ⊢
    omega
  punct := fun c hc => by
    have hnone : punctChars.all (fun c => !c.isAlphanum) = true := by decide
    simpa using List.all_eq_true.mp hnone c hc

/-- The letters and digits of a text. -/
def letters (cfg : TextConfig) (s : PyStr) : PyStr := s.filter cfg.isalnum

variable {cfg : TextConfig}

/-! ## Letters -/

section Letters

@[simp] theorem letters_nil : letters cfg [] = [] := rfl

@[simp] theorem letters_append (s t : PyStr) :
    letters cfg (s ++ t) = letters cfg s ++ letters cfg t := List.filter_append ..

theorem letters_take_drop (n : Nat) (s : PyStr) :
    letters cfg (s.take n) ++ letters cfg (s.drop n) = letters cfg s := by
  rw [← letters_append, List.take_append_drop]

theorem letters_isPrefix {s t : PyStr} (h : s <+: t) : letters cfg s <+: letters cfg t :=
  h.filter _

theorem letters_cons_of_not {c : Char} (hc : cfg.isalnum c = false) (s : PyStr) :
    letters cfg (c :: s) = letters cfg s := List.filter_cons_of_neg (by simp [hc])

theorem letters_eq_nil {s : PyStr} (h : ∀ c ∈ s, cfg.isalnum c = false) : letters cfg s = [] :=
  List.filter_eq_nil_iff.mpr fun c hc => by simp [h c hc]

theorem letters_of_not_hasAlnum {s : PyStr} (h : hasAlnum cfg s = false) : letters cfg s = [] :=
  letters_eq_nil fun c hc => by simpa using List.any_eq_false.mp h c hc

theorem letters_dropWhile {p : Char → Bool} (hp : ∀ c, p c = true → cfg.isalnum c = false)
    (s : PyStr) : letters cfg (s.dropWhile p) = letters cfg s := by
  induction s with
  | nil => rfl
  | cons c cs ih =>
      rw [List.dropWhile_cons]
      split
      · next hc => rw [ih, letters_cons_of_not (hp c hc)]
      · rfl

theorem letters_rdropWhile {p : Char → Bool} (hp : ∀ c, p c = true → cfg.isalnum c = false)
    (s : PyStr) : letters cfg (s.rdropWhile p) = letters cfg s := by
  have h := letters_dropWhile hp s.reverse
  rw [letters, letters, List.filter_reverse] at h
  rw [List.rdropWhile, letters, List.filter_reverse, h, List.reverse_reverse, letters]

variable (hcfg : cfg.Proper)
include hcfg

theorem letters_lstrip (s : PyStr) : letters cfg (lstrip s) = letters cfg s :=
  letters_dropWhile hcfg.space s

theorem letters_pyStrip (s : PyStr) : letters cfg (pyStrip s) = letters cfg s := by
  rw [pyStrip, letters_rdropWhile hcfg.space, letters_dropWhile hcfg.space]

theorem not_isalnum_of_isNoise {c : Char} (hc : isNoise c = true) : cfg.isalnum c = false := by
  simp only [isNoise, Bool.or_eq_true, List.contains_iff_mem] at hc
  rcases hc with hc | hc
  · exact hcfg.space c hc
  · exact hcfg.punct c hc

theorem letters_stripLeadingNoise (s : PyStr) :
    letters cfg (stripLeadingNoise s) = letters cfg s := by
  rw [stripLeadingNoise, letters_pyStrip hcfg,
    letters_dropWhile fun c => not_isalnum_of_isNoise hcfg, letters_pyStrip hcfg]

theorem letters_of_isPunctOnly {s : PyStr} (h : isPunctOnly cfg s = true) : letters cfg s = [] := by
  simp only [isPunctOnly, Bool.and_eq_true, Bool.not_eq_true'] at h
  rw [← letters_pyStrip hcfg, letters_of_not_hasAlnum h.2]

/-- What the segmenter takes for noise has no letters. -/
theorem letters_of_noise {s : PyStr} (h : (s.isEmpty || isPunctOnly cfg s) = true) :
    letters cfg s = [] := by
  rw [Bool.or_eq_true] at h
  rcases h with h | h
  · rw [List.isEmpty_iff.mp h]
    rfl
  · exact letters_of_isPunctOnly hcfg h

theorem letters_subSpaces (inRun : Bool) (s : PyStr) :
    letters cfg (subSpaces inRun s) = letters cfg s := by
  have hblank : cfg.isalnum ' ' = false := hcfg.space ' ' pySpace_blank
  induction s generalizing inRun with
  | nil => rfl
  | cons c cs ih =>
      rw [subSpaces]
      split
      · next hc =>
          rw [letters_cons_of_not (hcfg.space c hc)]
          split
          · exact ih true
          · rw [letters_cons_of_not hblank, ih]
      · show letters cfg ([c] ++ subSpaces false cs) = letters cfg ([c] ++ cs)
        rw [letters_append, letters_append, ih]

theorem letters_subBlankBeforePunct (s : PyStr) :
    letters cfg (subBlankBeforePunct s) = letters cfg s := by
  induction s with
  | nil => rfl
  | cons c cs ih =>
      rw [subBlankBeforePunct]
      split
      · next hc =>
          rw [Bool.and_eq_true] at hc
          rw [ih, letters_cons_of_not (hcfg.space c hc.1)]
      · show letters cfg ([c] ++ subBlankBeforePunct cs) = letters cfg ([c] ++ cs)
        rw [letters_append, letters_append, ih]

theorem letters_subMultiDots (n : Nat) (s : PyStr) :
    letters cfg (subMultiDots n s) = letters cfg s := by
  have hdot : cfg.isalnum '.' = false := hcfg.punct '.' (by decide)
  induction s generalizing n with
  | nil => rfl
  | cons c cs ih =>
      rw [subMultiDots]
      split
      · next hc =>
          rw [hc, letters_cons_of_not hdot]
          split
          · exact ih n
          · rw [letters_cons_of_not hdot, ih]
      · show letters cfg ([c] ++ subMultiDots 0 cs) = letters cfg ([c] ++ cs)
        rw [letters_append, letters_append, ih]

end Letters

/-! ## The passes, when no words are repaired -/

section Passes

/-- The line breaks that `normSpaces` takes out are white space anyway. -/
theorem subSpaces_replace {d : Char} (hd : onChar pySpace d = true) (inRun : Bool) (s : PyStr) :
    subSpaces inRun (s.map fun c => if c = d then ' ' else c) = subSpaces inRun s := by
  induction s generalizing inRun with
  | nil => rfl
  | cons c cs ih =>
      rw [List.map_cons, subSpaces, subSpaces, ih, ih]
      by_cases hc : c = d
      · rw [if_pos hc, hc, if_pos pySpace_blank, if_pos hd]
      · rw [if_neg hc]

theorem normSpaces_passes (hfix : cfg.fixBrokenWords = false) (s : PyStr) :
    normSpaces cfg s = subMultiDots 0 (subBlankBeforePunct (pyStrip (subSpaces false s))) := by
  have hr : onChar pySpace '\r' = true := by decide
  have hn : onChar pySpace '\n' = true := by decide
  rw [normSpaces]
  simp only [subSpaces_replace hn, subSpaces_replace hr, hfix]
  split
  · next h => rw [List.isEmpty_iff.mp h]; rfl
  · rfl

theorem letters_normSpaces (hcfg : cfg.Proper) (hfix : cfg.fixBrokenWords = false) (s : PyStr) :
    letters cfg (normSpaces cfg s) = letters cfg s := by
  rw [normSpaces_passes hfix, letters_subMultiDots hcfg, letters_subBlankBeforePunct hcfg,
    letters_pyStrip hcfg, letters_subSpaces hcfg]

/-- Whether a run of white space is going on behind a text. -/
def inRunAfter : Bool → PyStr → Bool
  | inRun, [] => inRun
  | _, c :: cs => inRunAfter (onChar pySpace c) cs

theorem subSpaces_append (inRun : Bool) (s t : PyStr) :
    subSpaces inRun (s ++ t) = subSpaces inRun s ++ subSpaces (inRunAfter inRun s) t := by
  induction s generalizing inRun with
  | nil => rfl
  | cons c cs ih =>
      rw [List.cons_append, subSpaces, subSpaces, inRunAfter]
      cases hc : onChar pySpace c with
      | true =>
          rw [if_pos rfl, if_pos rfl]
          split
          · exact ih true
          · rw [ih, List.cons_append]
      | false => rw [if_neg (by simp), if_neg (by simp), ih, List.cons_append]

/-- How many dots stand at the end of a text. -/
def dotsAfter : Nat → PyStr → Nat
  | n, [] => n
  | n, c :: cs => dotsAfter (if c = '.' then (if 3 ≤ n then n else n + 1) else 0) cs

theorem subMultiDots_append (n : Nat) (s t : PyStr) :
    subMultiDots n (s ++ t) = subMultiDots n s ++ subMultiDots (dotsAfter n s) t := by
  induction s generalizing n with
  | nil => rfl
  | cons c cs ih =>
      rw [List.cons_append, subMultiDots, subMultiDots, dotsAfter]
      by_cases hc : c = '.'
      · rw [if_pos hc, if_pos hc, if_pos hc]
        split
        · exact ih n
        · rw [ih, List.cons_append]
      · rw [if_neg hc, if_neg hc, if_neg hc, ih, List.cons_append]

theorem rstrip_of_cons {c : Char} {cs : PyStr} (h : rstrip (c :: cs) = c :: cs) :
    rstrip cs = cs ∧ (onChar pySpace c = true → cs.dropWhile (onChar pySpace) ≠ []) := by
  rw [rstrip, List.rdropWhile_eq_self_iff] at h
  have hlast := h (List.cons_ne_nil c cs)
  constructor
  · rw [rstrip, List.rdropWhile_eq_self_iff]
    intro hne
    rwa [List.getLast_cons hne] at hlast
  · intro hc hnil
    have hall : ∀ d ∈ c :: cs, onChar pySpace d = true := by
      intro d hd
      rcases List.mem_cons.mp hd with rfl | hd
      · exact hc
      · exact List.dropWhile_eq_nil_iff.mp hnil d hd
    exact hlast (hall _ (List.getLast_mem _))

/-- A text that does not end in white space shows all that this pass looks at. -/
theorem subBlankBeforePunct_append {s : PyStr} (hs : rstrip s = s) (t : PyStr) :
    subBlankBeforePunct (s ++ t) = subBlankBeforePunct s ++ subBlankBeforePunct t := by
  induction s with
  | nil => rfl
  | cons c cs ih =>
      obtain ⟨hcs, hword⟩ := rstrip_of_cons hs
      rw [List.cons_append, subBlankBeforePunct, subBlankBeforePunct, ih hcs]
      cases hc : onChar pySpace c with
      | false => rfl
      | true =>
          have hnext : punctNext (cs ++ t) = punctNext cs := by
            rw [punctNext, punctNext, List.dropWhile_append]
            cases hdrop : cs.dropWhile (onChar pySpace) with
            | nil => exact absurd hdrop (hword hc)
            | cons d ds => rfl
          rw [hnext]
          split <;> rfl

end Passes

/-! ## The beginning of a text -/

section Beginning

theorem rstrip_isPrefix (s : PyStr) : rstrip s <+: s := List.rdropWhile_prefix _ _

theorem pyStrip_isPrefix {s t : PyStr} (h : s <+: t) : pyStrip s <+: pyStrip t := by
  obtain ⟨u, rfl⟩ := h
  show rstrip (lstrip s) <+: rstrip (lstrip (s ++ u))
  rw [lstrip, lstrip, List.dropWhile_append]
  cases hs : s.dropWhile (onChar pySpace) with
  | nil => exact List.nil_prefix
  | cons c cs =>
      rw [if_neg (by simp), rstrip, rstrip, rdropWhile_append]
      split
      · exact List.prefix_refl _
      · exact (List.rdropWhile_prefix _ _).trans (List.prefix_append _ _)

theorem rstrip_pyStrip (s : PyStr) : rstrip (pyStrip s) = pyStrip s :=
  List.rdropWhile_idempotent _ _

theorem lstrip_of_isPrefix {s t : PyStr} (h : s <+: t) (ht : lstrip t = t) : lstrip s = s := by
  cases s with
  | nil => rfl
  | cons c cs =>
      obtain ⟨u, rfl⟩ := h
      rw [lstrip, List.cons_append, List.dropWhile_cons] at ht
      split at ht
      · have hlen := (List.dropWhile_suffix (onChar pySpace) (l := cs ++ u)).length_le
        rw [ht, List.length_cons] at hlen
        omega
      · next hc => exact List.dropWhile_cons_of_neg hc

theorem lstrip_of_head {s : PyStr} (h : ∀ c ∈ s.head?, onChar pySpace c = false) :
    lstrip s = s := by
  cases s with
  | nil => rfl
  | cons c cs => exact List.dropWhile_cons_of_neg (by simp [h c rfl])

theorem rstrip_of_getLast {s : PyStr} (h : ∀ c ∈ s.getLast?, onChar pySpace c = false) :
    rstrip s = s := by
  refine List.rdropWhile_eq_self_iff.mpr fun hne => ?_
  simp [h _ (List.getLast?_eq_some_getLast hne)]

theorem lstrip_lstrip (s : PyStr) : lstrip (lstrip s) = lstrip s := List.dropWhile_idempotent _ _

theorem pyStrip_pyStrip (s : PyStr) : pyStrip (pyStrip s) = pyStrip s := by
  have hfront : lstrip (pyStrip s) = pyStrip s :=
    lstrip_of_isPrefix (rstrip_isPrefix _) (lstrip_lstrip s)
  show rstrip (lstrip (pyStrip s)) = pyStrip s
  rw [hfront, rstrip_pyStrip]

/-- A beginning of a stripped text, stripped. -/
theorem pyStrip_isPrefix_of_strip {s t : PyStr} (h : s <+: pyStrip t) : pyStrip s <+: pyStrip t := by
  rw [← pyStrip_pyStrip t]
  exact pyStrip_isPrefix h

theorem normSpaces_pyStrip (cfg : TextConfig) (s : PyStr) :
    normSpaces cfg (pyStrip s) = normSpaces cfg s := by
  rw [normSpaces_eq, normSpaces_eq, pySplit, pyStrip, Words.words_rdropWhile,
    Words.words_dropWhile, pySplit]

theorem pyStrip_normSpaces (cfg : TextConfig) (s : PyStr) :
    pyStrip (normSpaces cfg s) = normSpaces cfg s := by
  have hws : ∀ w ∈ pySplit s, PyWord w := fun w hw => Words.mem_words hw
  have hsplit := Words.words_joinWords pySpace_blank fun w hw =>
    ((settled_normWords cfg hws).words w hw).1
  rw [normSpaces_eq]
  generalize normWords cfg (pySplit s) = ws at hsplit
  have hself : pyStrip (subSpaces false (Words.joinWords ' ' ws)) = Words.joinWords ' ' ws := by
    rw [pyStrip_subSpaces, pySplit, hsplit]
  rw [← hself, pyStrip_pyStrip]

/-- What `normSpaces` makes of a text is the beginning of what it makes of a longer one. -/
theorem normSpaces_isPrefix (hfix : cfg.fixBrokenWords = false) {s t : PyStr} (h : s <+: t) :
    normSpaces cfg s <+: normSpaces cfg t := by
  obtain ⟨u, rfl⟩ := h
  have hspaces : pyStrip (subSpaces false s) <+: pyStrip (subSpaces false (s ++ u)) := by
    rw [subSpaces_append]
    exact pyStrip_isPrefix (List.prefix_append _ _)
  obtain ⟨v, hv⟩ := hspaces
  rw [normSpaces_passes hfix, normSpaces_passes hfix, ← hv,
    subBlankBeforePunct_append (rstrip_pyStrip _), subMultiDots_append]
  exact List.prefix_append _ _

end Beginning

/-! ## Parts of a text that is in order -/

section Tidy

/-- A text that the passes leave as it is. -/
structure Tidy (s : PyStr) : Prop where
  spaces : subSpaces false s = s
  blanks : subBlankBeforePunct s = s
  dots : subMultiDots 0 s = s

theorem length_subSpaces_le (inRun : Bool) (s : PyStr) : (subSpaces inRun s).length ≤ s.length := by
  induction s generalizing inRun with
  | nil => exact Nat.le_refl _
  | cons c cs ih =>
      have htrue := ih true
      have hfalse := ih false
      rw [subSpaces]
      split
      · split
        · rw [List.length_cons]; omega
        · rw [List.length_cons, List.length_cons]; omega
      · rw [List.length_cons, List.length_cons]; omega

theorem subBlankBeforePunct_sublist (s : PyStr) : (subBlankBeforePunct s).Sublist s := by
  induction s with
  | nil => exact List.Sublist.refl _
  | cons c cs ih =>
      rw [subBlankBeforePunct]
      split
      · exact ih.cons c
      · exact ih.cons_cons c

theorem subMultiDots_sublist (n : Nat) (s : PyStr) : (subMultiDots n s).Sublist s := by
  induction s generalizing n with
  | nil => exact List.Sublist.refl _
  | cons c cs ih =>
      rw [subMultiDots]
      split
      · next hc =>
          rw [hc]
          split
          · exact (ih n).cons '.'
          · exact (ih (n + 1)).cons_cons '.'
      · exact (ih 0).cons_cons c

theorem pyStrip_part (s : PyStr) : pyStrip s <:+: s :=
  (List.rdropWhile_prefix _ _).isInfix.trans (List.dropWhile_suffix _).isInfix

/-- A pass that lengthens no part of a text and keeps the whole keeps each part. -/
theorem append_inj_of_length_le {α : Type} {a b u v : List α} (h : a ++ b = u ++ v)
    (ha : a.length ≤ u.length) (hb : b.length ≤ v.length) : a = u ∧ b = v := by
  have hlen := congrArg List.length h
  rw [List.length_append, List.length_append] at hlen
  exact List.append_inj h (by omega)

theorem subSpaces_false_of_eq {inRun : Bool} {s : PyStr} (h : subSpaces inRun s = s) :
    subSpaces false s = s := by
  cases inRun with
  | false => exact h
  | true =>
      cases s with
      | nil => rfl
      | cons c cs =>
          rw [subSpaces] at h ⊢
          split at h
          · rw [if_pos rfl] at h
            have hlen := length_subSpaces_le true cs
            rw [h, List.length_cons] at hlen
            omega
          · next hc => rw [if_neg hc, h]

theorem subMultiDots_of_le {n m : Nat} (hle : m ≤ n) {s : PyStr} (h : subMultiDots n s = s) :
    subMultiDots m s = s := by
  induction s generalizing n m with
  | nil => rfl
  | cons c cs ih =>
      rw [subMultiDots] at h ⊢
      split at h
      · next hc =>
          rw [if_pos hc]
          split at h
          · have hlen := (subMultiDots_sublist n cs).length_le
            rw [h, List.length_cons] at hlen
            omega
          · next hn =>
              injection h with hdot hcs
              rw [if_neg (by omega), ih (Nat.add_le_add_right hle 1) hcs, hdot]
      · next hc =>
          injection h with _ hcs
          rw [if_neg hc, hcs]

theorem subBlankBeforePunct_of_append {u v : PyStr} (h : subBlankBeforePunct (u ++ v) = u ++ v) :
    subBlankBeforePunct u = u ∧ subBlankBeforePunct v = v := by
  induction u with
  | nil => exact ⟨rfl, h⟩
  | cons c cs ih =>
      rw [List.cons_append, subBlankBeforePunct] at h
      split at h
      · have hlen := (subBlankBeforePunct_sublist (cs ++ v)).length_le
        rw [h, List.length_cons] at hlen
        omega
      · next hc =>
          injection h with _ hrest
          obtain ⟨hcs, hv⟩ := ih hrest
          refine ⟨?_, hv⟩
          -- What follows the blank in the part follows it in the whole.
          have hkeep : ¬(onChar pySpace c && punctNext cs) = true := by
            intro hboth
            rw [Bool.and_eq_true] at hboth hc
            refine hc ⟨hboth.1, ?_⟩
            have hnext := hboth.2
            rw [punctNext] at hnext ⊢
            rw [List.dropWhile_append]
            cases hdrop : cs.dropWhile (onChar pySpace) with
            | nil => rw [hdrop] at hnext; cases hnext
            | cons d ds => rw [hdrop] at hnext; exact hnext
          rw [subBlankBeforePunct, if_neg hkeep, hcs]

theorem tidy_append {u v : PyStr} (h : Tidy (u ++ v)) : Tidy u ∧ Tidy v := by
  obtain ⟨hblanks, hblanks'⟩ := subBlankBeforePunct_of_append h.blanks
  have hspaces := h.spaces
  rw [subSpaces_append] at hspaces
  obtain ⟨hspaces, hspaces'⟩ := append_inj_of_length_le hspaces (length_subSpaces_le _ _)
    (length_subSpaces_le _ _)
  have hdots := h.dots
  rw [subMultiDots_append] at hdots
  obtain ⟨hdots, hdots'⟩ := append_inj_of_length_le hdots (subMultiDots_sublist _ _).length_le
    (subMultiDots_sublist _ _).length_le
  exact ⟨⟨hspaces, hblanks, hdots⟩, ⟨subSpaces_false_of_eq hspaces', hblanks',
    subMultiDots_of_le (Nat.zero_le _) hdots'⟩⟩

theorem Tidy.part {s t : PyStr} (h : Tidy t) (hs : s <:+: t) : Tidy s := by
  obtain ⟨u, v, rfl⟩ := hs
  exact (tidy_append (tidy_append h).1).2

theorem Tidy.normSpaces (hfix : cfg.fixBrokenWords = false) {s : PyStr} (h : Tidy s)
    (hs : pyStrip s = s) : normSpaces cfg s = s := by
  rw [normSpaces_passes hfix, h.spaces, hs, h.blanks, h.dots]

/-- A text is its own normal form only if each pass leaves it as it is. -/
theorem tidy_normSpaces (hfix : cfg.fixBrokenWords = false) (s : PyStr) :
    Tidy (Translator.normSpaces cfg s) := by
  have hself := normSpaces_normSpaces cfg s
  revert hself
  generalize Translator.normSpaces cfg s = z
  intro hself
  rw [normSpaces_passes hfix] at hself
  have hspaces := length_subSpaces_le false z
  have hstrip := (pyStrip_part (subSpaces false z)).length_le
  have hblanks := (subBlankBeforePunct_sublist (pyStrip (subSpaces false z))).length_le
  have hdots :=
    (subMultiDots_sublist 0 (subBlankBeforePunct (pyStrip (subSpaces false z)))).length_le
  rw [hself] at hdots
  have estrip := (pyStrip_part (subSpaces false z)).sublist.eq_of_length (by omega)
  rw [estrip] at hself hblanks hdots
  have eblanks := (subBlankBeforePunct_sublist (subSpaces false z)).eq_of_length (by omega)
  rw [eblanks] at hself hdots
  have edots := (subMultiDots_sublist 0 (subSpaces false z)).eq_of_length (by rw [hself]; omega)
  have hz : subSpaces false z = z := edots.symm.trans hself
  rw [hz] at eblanks edots
  exact ⟨hz, eblanks, edots⟩

/-- A normalized text stays as it is, and so does, where no broken words are repaired,
every part of one that has no blank at either end. -/
theorem normSpaces_settles (cfg : TextConfig) :
    (∀ s, normSpaces cfg (normSpaces cfg s) = normSpaces cfg s) ∧
      (cfg.fixBrokenWords = false → ∀ s part, part <:+: normSpaces cfg s →
        part.head? ≠ some ' ' → part.getLast? ≠ some ' ' → normSpaces cfg part = part) := by
  refine ⟨normSpaces_normSpaces cfg, fun hfix s part hpart hhead hlast => ?_⟩
  have hsolid : ∀ c ∈ part, c ≠ ' ' → onChar pySpace c = false := by
    intro c hc hne
    by_contra hspace
    rw [Bool.not_eq_false] at hspace
    exact hne (normSpaces_blank (hpart.subset hc) hspace)
  have hfront : lstrip part = part := lstrip_of_head fun c hc =>
    hsolid c (List.mem_of_mem_head? hc) fun heq => hhead (heq ▸ hc)
  have hrear : rstrip part = part := rstrip_of_getLast fun c hc =>
    hsolid c (List.mem_of_getLast? hc) fun heq => hlast (heq ▸ hc)
  refine ((tidy_normSpaces hfix s).part hpart).normSpaces hfix ?_
  show rstrip (lstrip part) = part
  rw [hfront, hrear]

/-- With the repair on, `to day` is a part of `ato day` and becomes `today`. -/
example : normSpaces ⟨Char.isAlphanum, true⟩ "ato day".toList = "ato day".toList ∧
    normSpaces ⟨Char.isAlphanum, true⟩ "to day".toList = "today".toList := by decide

end Tidy

end VTranser.Translator

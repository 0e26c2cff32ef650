import VTranser.Proofs.Tidy

/-!
# Where a text may be cut

The limits of a segment are counted in words and in characters. `starts` counts
the words of a text from left to right, so that what a cut leaves of them can be
read off (`wordCount_append`); `cutRelByWords_spec` and `cutRelByChars_spec` say
where the two cuts are. What comes of both is `cut_spec`: a cut is within the
limits, unless it is at the end of a word that runs over the limit.
-/

namespace VTranser.Translator

open Words

/-! ## Counting words -/

section Count

/-- How many words begin in a text; the flag says that white space comes before it. -/
def starts : Bool → PyStr → Nat
  | _, [] => 0
  | afterSpace, c :: cs =>
      if onChar pySpace c then starts true cs
      else (if afterSpace then 1 else 0) + starts false cs

theorem starts_append (b : Bool) (s t : PyStr) :
    starts b (s ++ t) = starts b s + starts (inRunAfter b s) t := by
  induction s generalizing b with
  | nil => simp [starts, inRunAfter]
  | cons c cs ih =>
      rw [List.cons_append, starts, starts, inRunAfter]
      cases hc : onChar pySpace c with
      | true => rw [if_pos rfl, if_pos rfl, ih]
      | false =>
          rw [if_neg Bool.false_ne_true, if_neg Bool.false_ne_true, ih, Nat.add_assoc]

theorem starts_word {w : PyStr} (hw : ∀ c ∈ w, onChar pySpace c = false) :
    starts false w = 0 ∧ starts true w ≤ 1 := by
  have hfalse : starts false w = 0 := by
    induction w with
    | nil => rfl
    | cons c cs ih =>
        rw [starts, if_neg (by simp [hw c (by simp)]), ih fun d hd => hw d (by simp [hd])]
        rfl
  refine ⟨hfalse, ?_⟩
  cases w with
  | nil => exact Nat.zero_le _
  | cons c cs =>
      have hc := hw c (by simp)
      rw [starts, if_neg (by simp [hc])] at hfalse ⊢
      simp only [Bool.false_eq_true, if_false, if_true] at hfalse ⊢
      omega

theorem starts_true_le (s : PyStr) : starts true s ≤ starts false s + 1 := by
  cases s with
  | nil => exact Nat.zero_le _
  | cons c cs =>
      rw [starts, starts]
      split
      · exact Nat.le_succ _
      · simp only [Bool.false_eq_true, if_false, if_true]
        omega

theorem starts_pyWord {w : PyStr} (hw : PyWord w) : starts true w = 1 ∧ inRunAfter true w = false := by
  obtain ⟨c, cs, rfl⟩ := List.exists_cons_of_ne_nil hw.ne_nil
  have hc := hw.not_sep c (by simp)
  have hcs : ∀ d ∈ cs, onChar pySpace d = false := fun d hd => hw.not_sep d (by simp [hd])
  constructor
  · rw [starts, if_neg (by simp [hc]), (starts_word hcs).1]
    rfl
  · rw [inRunAfter, hc]
    clear hw hc
    induction cs with
    | nil => rfl
    | cons d ds ih =>
        rw [inRunAfter, hcs d (by simp)]
        exact ih fun e he => hcs e (by simp [he])

theorem wordCount_eq_starts (s : PyStr) : wordCount s = starts true s := by
  induction s using words_induction (p := onChar pySpace) with
  | nil => rfl
  | sep c cs hc ih =>
      rw [wordCount, pySplit, words_cons_sep hc, starts, if_pos hc]
      exact ih
  | last w hw =>
      rw [wordCount, pySplit, words_word hw, (starts_pyWord hw).1]
      rfl
  | word w c cs hw hc ih =>
      have hrest : starts (inRunAfter true w) (c :: cs) = starts true (c :: cs) := by
        rw [starts, starts, if_pos hc, if_pos hc]
      rw [wordCount, pySplit, words_append hw hc, List.length_cons, starts_append,
        (starts_pyWord hw).1, hrest, ← ih]
      exact Nat.add_comm _ _

theorem space_of_wordCount_eq_zero {s : PyStr} (h : wordCount s = 0) :
    ∀ c ∈ s, onChar pySpace c = true := by
  rw [wordCount_eq_starts] at h
  induction s with
  | nil => intro c hc; cases hc
  | cons d ds ih =>
      rw [starts] at h
      split at h
      · next hd =>
          intro c hc
          rcases List.mem_cons.mp hc with rfl | hc
          · exact hd
          · exact ih h c hc
      · rw [if_pos rfl] at h
        omega

theorem wordCount_word_le {s : PyStr} (h : ∀ c ∈ s, onChar pySpace c = false) :
    wordCount s ≤ 1 := by
  rw [wordCount_eq_starts]
  exact (starts_word h).2

/-- A part of a text has no more words. -/
theorem wordCount_part_le {s t : PyStr} (h : s <:+: t) : wordCount s ≤ wordCount t := by
  obtain ⟨u, v, rfl⟩ := h
  rw [wordCount_eq_starts, wordCount_eq_starts, starts_append, starts_append]
  have hle := starts_true_le s
  cases hu : inRunAfter true u with
  | true => omega
  | false =>
      -- A word is going on behind `u`, so one began there.
      have hpos : 0 < starts true u := by
        rw [← wordCount_eq_starts]
        refine Nat.pos_of_ne_zero fun h0 => ?_
        have hall := space_of_wordCount_eq_zero h0
        clear h0 hle
        induction u with
        | nil => cases hu
        | cons c cs ih =>
            rw [inRunAfter, hall c (by simp)] at hu
            exact ih hu fun d hd => hall d (by simp [hd])
      omega

/-- What goes on with the last word adds no word. -/
theorem wordCount_append_word {u v : PyStr} (hu : inRunAfter true u = false)
    (hv : ∀ c ∈ v, onChar pySpace c = false) : wordCount (u ++ v) = wordCount u := by
  rw [wordCount_eq_starts, wordCount_eq_starts, starts_append, hu, (starts_word hv).1]
  rfl

theorem inRunAfter_append_singleton (b : Bool) (u : PyStr) (c : Char) :
    inRunAfter b (u ++ [c]) = onChar pySpace c := by
  induction u generalizing b with
  | nil => rfl
  | cons d ds ih => exact ih _

/-- Words are apart by white space. -/
theorem two_mul_starts_le (b : Bool) (s : PyStr) :
    2 * starts b s + (if b then 0 else 1) ≤ s.length + if inRunAfter b s then 0 else 1 := by
  induction s generalizing b with
  | nil =>
      show 2 * 0 + (if b then 0 else 1) ≤ 0 + if b then 0 else 1
      omega
  | cons c cs ih =>
      have hrest := ih (onChar pySpace c)
      rw [starts, inRunAfter, List.length_cons]
      cases hc : onChar pySpace c with
      | true =>
          rw [hc] at hrest
          simp only [if_true] at hrest ⊢
          split <;> omega
      | false =>
          rw [hc] at hrest
          simp only [Bool.false_eq_true, if_false] at hrest ⊢
          split <;> omega

end Count

/-! ## The spans of the words -/

section Spans

theorem length_spansFrom (pos : Nat) (start : Option Nat) (s : PyStr) :
    (spansFrom pos start s).length =
      (if start.isSome then 1 else 0) + starts start.isNone s := by
  induction s generalizing pos start with
  | nil => cases start <;> rfl
  | cons c cs ih =>
      cases start with
      | none =>
          rw [spansFrom, Option.isNone_none, starts]
          split
          · rw [ih]; rfl
          · rw [ih]; simp
      | some a =>
          rw [spansFrom, Option.isNone_some, starts]
          split
          · rw [List.length_cons, ih]; simp; omega
          · rw [ih]; simp

theorem length_spans (s : PyStr) : (spans s).length = wordCount s := by
  rw [spans, length_spansFrom, wordCount_eq_starts]
  simp

/-- White space in a text. -/
def SpaceAt (s : PyStr) (i : Nat) : Prop := (s[i]?).any isSpace = true

theorem spaceAt_lt {s : PyStr} {i : Nat} (h : SpaceAt s i) : i < s.length := by
  refine Nat.lt_of_not_le fun hle => ?_
  rw [SpaceAt, List.getElem?_eq_none hle] at h
  cases h

theorem not_space_of_mem_drop {s : PyStr} {n : Nat} (h : ∀ j, SpaceAt s j → j < n) :
    ∀ c ∈ s.drop n, onChar pySpace c = false := by
  intro c hc
  obtain ⟨j, hj⟩ := List.mem_iff_getElem?.mp hc
  rw [List.getElem?_drop] at hj
  cases hspace : onChar pySpace c with
  | false => rfl
  | true =>
      have hat : SpaceAt s (n + j) := by
        rw [SpaceAt, hj]
        exact hspace
      have := h _ hat
      omega

/-- The words of a text with all its white space near the beginning. -/
theorem two_mul_wordCount_le {s : PyStr} {n : Nat} (h : ∀ j, SpaceAt s j → j < n) :
    2 * wordCount s ≤ n + 2 := by
  have hrest := not_space_of_mem_drop h
  have hfront := two_mul_starts_le true (s.take n)
  have hlen := List.length_take_le n s
  rw [wordCount_eq_starts, ← List.take_append_drop n s, starts_append]
  obtain ⟨hzero, hone⟩ := starts_word hrest
  cases hrun : inRunAfter true (s.take n) with
  | true =>
      rw [hrun] at hfront
      simp only [if_true] at hfront
      omega
  | false =>
      rw [hrun] at hfront
      simp only [if_true, Bool.false_eq_true, if_false] at hfront
      omega

theorem inRunAfter_take {s : PyStr} {n : Nat} (hn : n < s.length) (h : ¬SpaceAt s n) :
    inRunAfter true (s.take (n + 1)) = false := by
  rw [← List.take_concat_get' s n hn, inRunAfter_append_singleton]
  rw [SpaceAt, List.getElem?_eq_getElem hn] at h
  simpa [isSpace] using h

theorem rstrip_take {s : PyStr} {n : Nat} (hn : n < s.length) (h : ¬SpaceAt s n) :
    rstrip (s.take (n + 1)) = s.take (n + 1) := by
  rw [SpaceAt, List.getElem?_eq_getElem hn] at h
  rw [← List.take_concat_get' s n hn]
  exact List.rdropWhile_concat_neg _ _ _ (by simpa [isSpace] using h)

/-- The words up to the end of the one with the number `k`. -/
theorem spansFrom_getElem {pos : Nat} {start : Option Nat} {s : PyStr} {k : Nat} {span : Nat × Nat}
    (h : (spansFrom pos start s)[k]? = some span) : ∃ e, span.2 = pos + e ∧ e ≤ s.length ∧
      (if start.isSome then 1 else 0) + starts start.isNone (s.take e) ≤ k + 1 ∧
      (e < s.length → SpaceAt s e) ∧ (start = none → 0 < e) := by
  induction s generalizing pos start k with
  | nil =>
      cases start with
      | none => cases h
      | some a =>
          cases k with
          | zero =>
              injection h with h
              exact ⟨0, by rw [← h]; rfl, Nat.le_refl _, Nat.le_refl _,
                fun hlt => absurd hlt (Nat.lt_irrefl 0), fun hnone => by cases hnone⟩
          | succ k => cases h
  | cons c cs ih =>
      -- One character more is counted in front of what the rest of the text has.
      have hshift : ∀ e, (e < cs.length → SpaceAt cs e) →
          (e + 1 < (c :: cs).length → SpaceAt (c :: cs) (e + 1)) := by
        intro e he hlt
        rw [List.length_cons] at hlt
        exact he (by omega)
      cases start with
      | none =>
          rw [spansFrom] at h
          split at h
          · next hc =>
              obtain ⟨e, hend, hle, hcount, hspace, -⟩ := ih h
              refine ⟨e + 1, by omega, by simpa using hle, ?_, hshift e hspace, fun _ => Nat.succ_pos e⟩
              simpa [starts, hc] using hcount
          · next hc =>
              obtain ⟨e, hend, hle, hcount, hspace, -⟩ := ih h
              refine ⟨e + 1, by omega, by simpa using hle, ?_, hshift e hspace, fun _ => Nat.succ_pos e⟩
              simpa [starts, hc] using hcount
      | some a =>
          rw [spansFrom] at h
          split at h
          · next hc =>
              cases k with
              | zero =>
                  injection h with h
                  exact ⟨0, by rw [← h]; rfl, Nat.zero_le _, Nat.le_refl _, fun _ => hc,
                    fun hnone => by cases hnone⟩
              | succ k =>
                  rw [List.getElem?_cons_succ] at h
                  obtain ⟨e, hend, hle, hcount, hspace, -⟩ := ih h
                  refine ⟨e + 1, by omega, by simpa using hle, ?_, hshift e hspace,
                    fun _ => Nat.succ_pos e⟩
                  simp [starts, hc] at hcount ⊢
                  omega
          · next hc =>
              obtain ⟨e, hend, hle, hcount, hspace, -⟩ := ih h
              refine ⟨e + 1, by omega, by simpa using hle, ?_, hshift e hspace, fun _ => Nat.succ_pos e⟩
              simpa [starts, hc] using hcount

theorem cutRelByWords_spec {s : PyStr} {maxWords cut : Nat} (hs : s ≠ [])
    (h : cutRelByWords s maxWords = some cut) :
    0 < cut ∧ cut ≤ s.length ∧ wordCount (s.take cut) ≤ maxWords ∧
      (cut < s.length → SpaceAt s cut) := by
  rw [cutRelByWords] at h
  split at h
  · cases h
  · next hpos =>
      split at h
      · next hle =>
          injection h with h
          rw [← h, List.take_length, ← length_spans]
          exact ⟨List.length_pos_iff.mpr hs, Nat.le_refl _, hle,
            fun hlt => absurd hlt (Nat.lt_irrefl _)⟩
      · obtain ⟨span, hspan, hcut⟩ := Option.map_eq_some_iff.mp h
        obtain ⟨e, hend, hle, hcount, hspace, he⟩ := spansFrom_getElem hspan
        have hcut' : cut = e := by omega
        rw [hcut', wordCount_eq_starts]
        refine ⟨he rfl, hle, ?_, hspace⟩
        simp only [Option.isSome_none, Bool.false_eq_true, if_false, Option.isNone_none] at hcount
        omega

theorem cutRelByWords_all {s : PyStr} {maxWords : Nat} (hpos : 0 < maxWords)
    (h : wordCount s ≤ maxWords) : cutRelByWords s maxWords = some s.length := by
  rw [cutRelByWords, if_neg (by omega), length_spans, if_pos h]

end Spans

/-! ## Blanks before and after a place -/

section Blanks

theorem findLast_spec (p : Nat → Bool) (n : Nat) :
    match (List.range n).reverse.find? p with
    | none => ∀ j < n, p j = false
    | some i => i < n ∧ p i = true ∧ ∀ j < n, i < j → p j = false := by
  induction n with
  | zero => intro j hj; exact absurd hj (Nat.not_lt_zero j)
  | succ n ih =>
      rw [List.range_succ, List.reverse_append, List.reverse_singleton, List.singleton_append,
        List.find?_cons]
      cases hn : p n with
      | true => exact ⟨Nat.lt_succ_self n, hn, fun j hj hnj => by omega⟩
      | false =>
          dsimp only
          -- The last place comes before `n`, and `n` itself is none.
          have hlast : ∀ j < n + 1, ¬ j < n → p j = false := fun j hj hjn => by
            rw [show j = n by omega]
            exact hn
          cases hfind : (List.range n).reverse.find? p with
          | none =>
              rw [hfind] at ih
              intro j hj
              by_cases hjn : j < n
              · exact ih j hjn
              · exact hlast j hj hjn
          | some i =>
              rw [hfind] at ih
              obtain ⟨hi, hpi, hafter⟩ := ih
              refine ⟨Nat.lt_succ_of_lt hi, hpi, fun j hj hij => ?_⟩
              by_cases hjn : j < n
              · exact hafter j hjn hij
              · exact hlast j hj hjn

theorem lastSpaceBefore_some {s : PyStr} {idx i : Nat} (h : lastSpaceBefore s idx = some i) :
    i < idx ∧ SpaceAt s i := by
  have hspec := findLast_spec (fun i => (s[i]?).any isSpace) (min idx s.length)
  rw [lastSpaceBefore] at h
  rw [h] at hspec
  exact ⟨by omega, hspec.2.1⟩

/-- The last blank before a place is too far away only if there is none near it. -/
theorem lastSpaceBefore_far {s : PyStr} {idx least : Nat}
    (h : (lastSpaceBefore s idx).filter (least ≤ ·) = none) {j : Nat} (hj : j < idx)
    (hspace : SpaceAt s j) : j < least := by
  have hspec := findLast_spec (fun i => (s[i]?).any isSpace) (min idx s.length)
  have hlen := spaceAt_lt hspace
  rw [lastSpaceBefore] at h
  cases hfind : (List.range (min idx s.length)).reverse.find? fun i => (s[i]?).any isSpace with
  | none =>
      rw [hfind] at hspec
      have hno := hspec j (by omega)
      rw [SpaceAt, hno] at hspace
      cases hspace
  | some i =>
      rw [hfind] at hspec h
      have hi : i < least := by
        refine Nat.lt_of_not_le fun hle => ?_
        rw [Option.filter_some, if_pos (by simpa using hle)] at h
        cases h
      refine Nat.lt_of_not_le fun hle => ?_
      have hno := hspec.2.2 j (by omega) (by omega)
      rw [SpaceAt, hno] at hspace
      cases hspace

theorem nextSpaceAfter_some {s : PyStr} {idx fwd f : Nat} (h : nextSpaceAfter s idx fwd = some f) :
    idx ≤ f ∧ f ≤ idx + fwd ∧ SpaceAt s f ∧ ∀ j < f, idx ≤ j → ¬SpaceAt s j := by
  rw [nextSpaceAfter] at h
  obtain ⟨k, hk, rfl⟩ := Option.map_eq_some_iff.mp h
  obtain ⟨hlt, hspace, hbefore⟩ := List.findIdx?_eq_some_iff_getElem.mp hk
  have hlen := hlt
  rw [List.length_take, List.length_drop] at hlen
  have hget : ∀ j, j < fwd + 1 → ((s.drop idx).take (fwd + 1))[j]? = s[idx + j]? := fun j hj => by
    rw [List.getElem?_take_of_lt hj, List.getElem?_drop]
  refine ⟨Nat.le_add_right _ _, by omega, ?_, fun j hj hij hspace' => ?_⟩
  · rw [SpaceAt, ← hget k (by omega), List.getElem?_eq_getElem hlt]
    exact hspace
  · have hno := hbefore (j - idx) (by omega)
    have heq := hget (j - idx) (by omega)
    rw [Nat.add_sub_cancel' hij] at heq
    rw [SpaceAt, ← heq, List.getElem?_eq_getElem (by omega)] at hspace'
    exact hno hspace'

theorem nextSpaceAfter_none {s : PyStr} {idx fwd : Nat} (h : nextSpaceAfter s idx fwd = none)
    {j : Nat} (hij : idx ≤ j) (hj : j ≤ idx + fwd) : ¬SpaceAt s j := by
  intro hspace
  have hlen := spaceAt_lt hspace
  rw [nextSpaceAfter, Option.map_eq_none_iff, List.findIdx?_eq_none_iff] at h
  have hget : ((s.drop idx).take (fwd + 1))[j - idx]? = s[j]? := by
    rw [List.getElem?_take_of_lt (by omega), List.getElem?_drop, Nat.add_sub_cancel' hij]
  obtain ⟨c, hc, hcspace⟩ := (Option.any_eq_true _ _).mp hspace
  rw [hc] at hget
  rw [h c (List.mem_of_getElem? hget)] at hcspace
  cases hcspace

end Blanks

/-! ## The cut at the limits -/

section Limits

variable {cfg : SegConfig} {s : PyStr}

/-- A cut beyond the limit of characters: it is at the end of a word, and the blanks
before it are all near the beginning of the text. -/
structure RunsOver (cfg : SegConfig) (s : PyStr) (cut : Nat) : Prop where
  space : SpaceAt s cut
  le : cut ≤ cfg.maxChars + 32
  blanks : ∀ j < cut, SpaceAt s j → j < min cfg.maxChars (max 6 cfg.maxChars55)

theorem cutRelByChars_spec (hs : s ≠ []) {cut : Nat} (h : cutRelByChars cfg s = some cut) :
    0 < cut ∧ cut ≤ s.length ∧
      (cut ≤ cfg.maxChars ∧ (cut < s.length → SpaceAt s cut ∨ nextSpaceAfter s cut 24 = none) ∨
        RunsOver cfg s cut) := by
  rw [cutRelByChars] at h
  split at h
  · cases h
  next hpos =>
  split at h
  · next hle =>
      injection h with h
      rw [← h]
      exact ⟨List.length_pos_iff.mpr hs, Nat.le_refl _,
        Or.inl ⟨hle, fun hlt => absurd hlt (Nat.lt_irrefl _)⟩⟩
  next hlong =>
  split at h
  · next b hb =>
      injection h with h
      rw [← h]
      obtain ⟨hsome, hleast⟩ := Option.filter_eq_some_iff.mp hb
      obtain ⟨hlt, hspace⟩ := lastSpaceBefore_some hsome
      have hfar : 6 ≤ b := by
        have := of_decide_eq_true hleast
        omega
      exact ⟨by omega, by omega, Or.inl ⟨by omega, fun _ => Or.inl hspace⟩⟩
  next hnear =>
  have hfar : ∀ j < cfg.maxChars, SpaceAt s j → j < max 6 cfg.maxChars55 := fun j hj =>
    lastSpaceBefore_far hnear hj
  split at h
  · next f hf =>
      injection h with h
      rw [← h]
      obtain ⟨hge, hle, hspace, hbetween⟩ := nextSpaceAfter_some hf
      refine ⟨by omega, Nat.le_of_lt (spaceAt_lt hspace), Or.inr ⟨hspace, hle, fun j hj hj' => ?_⟩⟩
      have hlt : j < cfg.maxChars := by
        refine Nat.lt_of_not_le fun hle' => hbetween j hj hle' hj'
      have := hfar j hlt hj'
      omega
  · next hnone =>
      injection h with h
      rw [← h]
      refine ⟨by omega, by omega, Or.inl ⟨Nat.le_refl _, fun _ => Or.inr ?_⟩⟩
      cases hnext : nextSpaceAfter s cfg.maxChars 24 with
      | none => rfl
      | some f =>
          obtain ⟨hge, hle, hspace, -⟩ := nextSpaceAfter_some hnext
          exact absurd hspace (nextSpaceAfter_none hnone hge (by omega))

/-- The two cuts, and that the nearer is taken. -/
theorem cutByLimits_spec (hwords : 0 < cfg.maxWords) (hchars : 0 < cfg.maxChars) (hs : s ≠ []) :
    ∃ cutWords cutChars, cutRelByWords s cfg.maxWords = some cutWords ∧
      cutRelByChars cfg s = some cutChars ∧ cutByLimits cfg s = min cutWords cutChars := by
  have hw : ∃ cut, cutRelByWords s cfg.maxWords = some cut := by
    rw [cutRelByWords, if_neg (by omega)]
    split
    · exact ⟨_, rfl⟩
    · next hlt => exact ⟨_, by rw [List.getElem?_eq_getElem (by omega)]; rfl⟩
  have hc : ∃ cut, cutRelByChars cfg s = some cut := by
    rw [cutRelByChars, if_neg (by omega)]
    split
    · exact ⟨_, rfl⟩
    · split
      · exact ⟨_, rfl⟩
      · split
        · exact ⟨_, rfl⟩
        · exact ⟨_, rfl⟩
  obtain ⟨cutWords, hw⟩ := hw
  obtain ⟨cutChars, hc⟩ := hc
  refine ⟨cutWords, cutChars, hw, hc, ?_⟩
  have hwpos := (cutRelByWords_spec hs hw).1
  have hcpos := (cutRelByChars_spec hs hc).1
  rw [cutByLimits, hw, hc]
  simp [Option.filter_some, hwpos, hcpos]

theorem offWord_cases (cfg : SegConfig) (s : PyStr) (cut : Nat) :
    offWord cfg s cut = cut ∨ cut < s.length ∧ ¬SpaceAt s cut ∧
      (offWord cfg s cut < cut ∨ nextSpaceAfter s cut 24 = some (offWord cfg s cut)) := by
  rw [offWord]
  split
  · next hword =>
      simp only [Bool.and_eq_true, decide_eq_true_eq] at hword
      obtain ⟨⟨⟨hlt, -⟩, hhere⟩, -⟩ := hword
      have hno : ¬SpaceAt s cut := by
        rw [SpaceAt]
        rw [List.getElem?_eq_getElem hlt] at hhere ⊢
        simpa using hhere
      split
      · next b hb =>
          obtain ⟨hsome, -⟩ := Option.filter_eq_some_iff.mp hb
          exact Or.inr ⟨hlt, hno, Or.inl (lastSpaceBefore_some hsome).1⟩
      · cases hnext : nextSpaceAfter s cut 24 with
        | none => exact Or.inl rfl
        | some f => exact Or.inr ⟨hlt, hno, Or.inr rfl⟩
  · exact Or.inl rfl

/-- A cut is within the limits, or it runs over the limit of characters. -/
theorem cut_spec (hwords : 0 < cfg.maxWords) (hchars : 0 < cfg.maxChars) (hs : s ≠ []) :
    wordCount (s.take (offWord cfg s (cutByLimits cfg s))) ≤ cfg.maxWords ∧
      (offWord cfg s (cutByLimits cfg s) ≤ cfg.maxChars ∨
        RunsOver cfg s (offWord cfg s (cutByLimits cfg s))) := by
  obtain ⟨cutWords, cutChars, hw, hc, hcut⟩ := cutByLimits_spec hwords hchars hs
  obtain ⟨-, hwlen, hwcount, hwspace⟩ := cutRelByWords_spec hs hw
  obtain ⟨-, hclen, hcspec⟩ := cutRelByChars_spec hs hc
  rw [hcut]
  have hcount : ∀ cut, cut ≤ cutWords → wordCount (s.take cut) ≤ cfg.maxWords := fun cut hle => by
    have hpre : s.take cut <+: s.take cutWords := List.take_isPrefix_take.mpr (Or.inl hle)
    exact Nat.le_trans (wordCount_part_le hpre.isInfix) hwcount
  -- A cut before the one for the characters is within their limit, if it is at a blank.
  have hbefore : cutWords < cutChars → cutWords ≤ cfg.maxChars := fun hlt => by
    rcases hcspec with ⟨hle, -⟩ | hover
    · omega
    · have := hover.blanks cutWords hlt (hwspace (by omega))
      omega
  rcases offWord_cases cfg s (min cutWords cutChars) with hsame | ⟨hlt, hno, hmoved⟩
  · rw [hsame]
    refine ⟨hcount _ (Nat.min_le_left _ _), ?_⟩
    by_cases hle : cutChars ≤ cutWords
    · rw [Nat.min_eq_right hle]
      rcases hcspec with ⟨hle', -⟩ | hover
      · exact Or.inl hle'
      · exact Or.inr hover
    · exact Or.inl (by have := hbefore (by omega); omega)
  · -- The cut was inside a word, so it was the one for the characters.
    have hmin : min cutWords cutChars = cutChars := by
      refine Nat.min_eq_right (Nat.le_of_not_lt fun hlt' => ?_)
      rw [Nat.min_eq_left (Nat.le_of_lt hlt')] at hno hlt
      exact hno (hwspace hlt)
    rw [hmin] at hlt hno hmoved ⊢
    rcases hcspec with ⟨hle, hspace⟩ | hover
    · rcases hmoved with hback | hnext
      · exact ⟨hcount _ (by omega), Or.inl (by omega)⟩
      · rcases hspace hlt with hspace | hnone
        · exact absurd hspace hno
        · rw [hnone] at hnext
          cases hnext
    · exact absurd hover.space hno

end Limits

end VTranser.Translator

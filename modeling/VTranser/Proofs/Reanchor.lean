import VTranser.Proofs.SegmenterRuns

/-!
# Going on behind the committed tail

When the committed part of a text was rewritten, the segmenter looks for the end of
it in the new text and goes on there, but never before the place where it was in
the old text. So nothing of the tail is committed again; and nothing behind it is
skipped if that place is not beyond the first word there (`reanchor_resumes`).
-/

namespace VTranser.Translator

open EndPatch

variable {cfg : SegConfig} {s : SegState}

/-! ## The first tail that is looked for -/

section Tail

theorem rfind_unique {t u : PyStr} (hne : u ≠ [])
    (honce : ∀ i < t.length, u <+: t.drop i → ∀ j < t.length, u <+: t.drop j → i = j)
    {i : Nat} (hat : u <+: t.drop i) :
    rfind t u = some i := by
  have hinside : ∀ j, u <+: t.drop j → j < t.length := fun j hj => by
    refine Nat.lt_of_not_le fun hle => hne ?_
    rw [List.drop_eq_nil_of_le hle] at hj
    exact List.prefix_nil.mp hj
  have hi := hinside i hat
  have hspec := findLast_spec (fun j => u.isPrefixOf (t.drop j)) (t.length + 1)
  rw [rfind]
  cases hfind : (List.range (t.length + 1)).reverse.find? fun j => u.isPrefixOf (t.drop j) with
  | none =>
      rw [hfind] at hspec
      have hno := hspec i (by omega)
      rw [List.isPrefixOf_iff_prefix.mpr hat] at hno
      cases hno
  | some j =>
      rw [hfind] at hspec
      have hj := List.isPrefixOf_iff_prefix.mp hspec.2.1
      rw [honce i hi hat j (hinside j hj) hj]

/-- How much of the committed part is looked for first. -/
def tailLen (cfg : SegConfig) (committed : PyStr) : Nat :=
  min cfg.reanchorMaxTailChars (min committed.length cfg.stableOverlapMaxChars)

theorem candLens_head (cfg : SegConfig) (committed : PyStr) :
    ∃ ks, candLens cfg committed = tailLen cfg committed :: ks := by
  rw [candLens]
  have hleast : min cfg.reanchorMinTailChars (tailLen cfg committed) ≤ tailLen cfg committed :=
    Nat.min_le_right _ _
  show ∃ ks, (List.filter _ (_ :: _)).eraseDups = _
  rw [List.filter_cons, if_pos (by rw [Nat.min_self]; exact decide_eq_true hleast),
    List.eraseDups_cons, Nat.min_self]
  exact ⟨_, rfl⟩

theorem lastOf_append {x t : PyStr} {k : Nat} (hk : 0 < k) (hle : k ≤ t.length) :
    lastOf (x ++ t) k = lastOf t k := by
  rw [lastOf, lastOf, if_neg (by omega), if_neg (by omega), List.length_append,
    List.drop_append, List.drop_eq_nil_of_le (by omega), List.nil_append]
  congr 1
  omega

/-- Where the tail of a text ends that has it once. -/
theorem reanchor_spec {x tail r : PyStr} {committed full : PyStr}
    (hcommitted : pyStrip committed = x ++ tail) (hfull : pyStrip full = full)
    {x' : PyStr} (hsplit : full = x' ++ tail ++ r)
    (hlong : tailLen cfg (x ++ tail) ≤ tail.length) (hpos : 0 < tailLen cfg (x ++ tail))
    (honce : ∀ i < full.length, lastOf tail (tailLen cfg (x ++ tail)) <+: full.drop i →
      ∀ j < full.length, lastOf tail (tailLen cfg (x ++ tail)) <+: full.drop j → i = j)
    {place : Nat} (h : reanchorByCommittedTail cfg committed full = some place) :
    place = advanceToBoundary cfg full (x'.length + tail.length) := by
  rw [reanchorByCommittedTail, hcommitted, hfull] at h
  dsimp only at h
  split at h
  · cases h
  obtain ⟨ks, hks⟩ := candLens_head cfg (x ++ tail)
  revert hlong hpos honce hks
  generalize tailLen cfg (x ++ tail) = k
  intro hlong hpos honce hks
  have hdrop : ∃ i, i + k = x'.length + tail.length ∧ lastOf tail k <+: full.drop i := by
    refine ⟨x'.length + (tail.length - k), by omega, ?_⟩
    rw [hsplit, List.append_assoc, List.drop_length_add_append, lastOf, if_neg (by omega),
      List.drop_append_of_le_length (Nat.sub_le _ _)]
    exact List.prefix_append _ _
  obtain ⟨i, hi, hat⟩ := hdrop
  have hlen := congrArg List.length hsplit
  rw [List.length_append, List.length_append] at hlen
  have htail : (lastOf tail k).length = k := by
    rw [lastOf, if_neg (by omega), List.length_drop]
    omega
  have hfind : rfind full (lastOf (x ++ tail) k) = some i := by
    rw [lastOf_append hpos hlong]
    refine rfind_unique (fun hnil => ?_) honce hat
    rw [hnil] at htail
    rw [← htail, List.length_nil] at hpos
    omega
  have hlast : (lastOf (x ++ tail) k).length = k := by rw [lastOf_append hpos hlong, htail]
  rw [hks, List.findSome?_cons, hfind] at h
  simp only [Option.map_some, hlast, hi] at h
  injection h with h
  exact h.symm

end Tail

/-! ## The place where the segmenter goes on -/

section Place

theorem min_le_advanceToBoundary (cfg : SegConfig) (full : PyStr) (idx : Nat) :
    min idx full.length ≤ advanceToBoundary cfg full idx := by
  rw [advanceToBoundary]
  split
  · exact Nat.min_le_left _ _
  dsimp only
  split
  · exact Nat.le_refl _
  split
  · split
    · omega
    · exact Nat.le_refl _
  · exact Nat.le_refl _

/-- A place next to white space is a boundary. -/
theorem advanceToBoundary_space (hproper : cfg.text.Proper) {full : PyStr} {idx : Nat}
    (hle : idx ≤ full.length) (h : SpaceAt full (idx - 1) ∨ SpaceAt full idx ∨ idx = full.length) :
    advanceToBoundary cfg full idx = idx := by
  have hnot : ∀ i, SpaceAt full i → (full[i]?).any cfg.text.isalnum = false := by
    intro i hi
    rw [SpaceAt, Option.any_eq_true] at hi
    obtain ⟨c, hc, hspace⟩ := hi
    rw [hc]
    exact hproper.space c hspace
  rw [advanceToBoundary]
  split
  · rfl
  rw [Nat.min_eq_left hle]
  dsimp only
  split
  · rfl
  next hinside =>
  have hword : ((full[idx - 1]?).any cfg.text.isalnum && (full[idx]?).any cfg.text.isalnum) = false := by
    rcases h with h | h | h
    · rw [hnot _ h, Bool.false_and]
    · rw [hnot _ h, Bool.and_false]
    · simp [h] at hinside
  rw [hword, if_neg Bool.false_ne_true]

/-- The white space in front of a text. -/
theorem spaceAt_front {r : PyStr} {i : Nat} (h : i < r.length - (lstrip r).length) : SpaceAt r i := by
  have hsplit := List.takeWhile_append_dropWhile (p := onChar pySpace) (l := r)
  have hlen := congrArg List.length hsplit
  rw [List.length_append] at hlen
  have hi : i < (r.takeWhile (onChar pySpace)).length := by
    rw [lstrip] at h
    omega
  rw [SpaceAt, ← hsplit, List.getElem?_append_left hi, List.getElem?_eq_getElem hi]
  show onChar pySpace _ = true
  exact List.mem_takeWhile_imp (List.getElem_mem hi)

theorem lstrip_drop_front {r : PyStr} {i : Nat} (h : i ≤ r.length - (lstrip r).length) :
    lstrip (r.drop i) = lstrip r := by
  induction i with
  | zero => rfl
  | succ i ih =>
      have hspace := spaceAt_front (show i < r.length - (lstrip r).length by omega)
      have hi := spaceAt_lt hspace
      rw [SpaceAt, List.getElem?_eq_getElem hi] at hspace
      rw [← ih (by omega), List.drop_eq_getElem_cons hi]
      exact (List.dropWhile_cons_of_pos (show onChar pySpace _ = true from hspace)).symm

/-- Further on there is only an end of what follows the white space. -/
theorem lstrip_drop_suffix (r : PyStr) (i : Nat) : lstrip (r.drop i) <:+ lstrip r := by
  by_cases h : i ≤ r.length - (lstrip r).length
  · rw [lstrip_drop_front h]
  · have hself := SegState.lstrip_eq_drop r
    revert h hself
    generalize r.length - (lstrip r).length = n
    intro h hself
    have hrest : r.drop i = (lstrip r).drop (i - n) := by
      rw [← hself, List.drop_drop, Nat.add_sub_cancel' (by omega)]
    rw [hrest]
    exact (List.dropWhile_suffix _).trans (List.drop_suffix _ _)

/-- No place in the white space behind a text is moved on. -/
theorem advanceToBoundary_gap (hproper : cfg.text.Proper) {p r : PyStr}
    (hspace : ∀ c ∈ r.head?, isSpace c = true) {i : Nat} (hi : i ≤ r.length - (lstrip r).length) :
    advanceToBoundary cfg (p ++ r) (p.length + i) = p.length + i := by
  have hle := SegState.length_lstrip_le r
  have hfront : ∀ i, i < r.length - (lstrip r).length → SpaceAt (p ++ r) (p.length + i) := by
    intro i hi
    rw [SpaceAt, List.getElem?_append_right (Nat.le_add_right _ _), Nat.add_sub_cancel_left]
    exact spaceAt_front hi
  refine advanceToBoundary_space hproper (by rw [List.length_append]; omega) ?_
  cases r with
  | nil =>
      rw [List.length_nil] at hi
      rw [List.length_append, List.length_nil]
      exact Or.inr (Or.inr (by omega))
  | cons c cs =>
      have hcs := SegState.length_lstrip_le cs
      have hstep : lstrip (c :: cs) = lstrip cs := List.dropWhile_cons_of_pos (hspace c rfl)
      have hgap : 0 < (c :: cs).length - (lstrip (c :: cs)).length := by
        rw [hstep, List.length_cons]
        omega
      by_cases hzero : i = 0
      · rw [hzero]
        exact Or.inr (Or.inl (hfront 0 hgap))
      · have hat := hfront (i - 1) (by omega)
        rw [← Nat.add_sub_assoc (by omega)] at hat
        exact Or.inl hat

end Place

/-! ## The new text -/

/-- The branch for a text in which the committed tail is found. -/
structure TakesReanchor (cfg : SegConfig) (s : SegState) (full : PyStr) : Prop where
  rewritten : ¬s.baseFull <+: full
  auto : autoBaselineShouldTrigger cfg s.baseFull full = false
  before : lcpLen s.baseFull full < s.bufStart
  found : (reanchorByCommittedTail cfg s.committed full).isSome = true

instance (cfg : SegConfig) (s : SegState) (full : PyStr) : Decidable (TakesReanchor cfg s full) :=
  decidable_of_iff (¬s.baseFull <+: full ∧ autoBaselineShouldTrigger cfg s.baseFull full = false ∧
      lcpLen s.baseFull full < s.bufStart ∧
      (reanchorByCommittedTail cfg s.committed full).isSome = true)
    ⟨fun h => ⟨h.1, h.2.1, h.2.2.1, h.2.2.2⟩, fun h => ⟨h.1, h.2, h.3, h.4⟩⟩

theorem receive_reanchor (h : s.Inv) {full : PyStr} (htakes : TakesReanchor cfg s full) :
    ∃ place, reanchorByCommittedTail cfg s.committed full = some place ∧
      (s.receive cfg full).buf = lstrip (full.drop (min
        (advanceToBoundary cfg full (max place s.bufStart)) full.length)) := by
  obtain ⟨place, hplace⟩ := Option.isSome_iff_exists.mp htakes.found
  refine ⟨place, hplace, ?_⟩
  have hne : ¬s.baseFull.isEmpty = true := fun hempty => by
    refine htakes.rewritten ?_
    rw [List.isEmpty_iff.mp hempty]
    exact List.nil_prefix
  have hnot : ¬s.baseFull.isPrefixOf full = true := fun h' =>
    htakes.rewritten (List.isPrefixOf_iff_prefix.mp h')
  have hbefore := htakes.before
  rw [SegState.receive, if_neg hne, if_neg hnot, SegState.rewrite]
  dsimp only
  rw [htakes.auto, if_neg Bool.false_ne_true, if_neg (by omega), Nat.min_eq_left h.start_le]
  rw [SegState.committed] at hplace
  simp only [hplace]
  rfl

/-- The committed part ends with `tail`, which is found in the new text just once, before
`rest`. -/
structure Rewritten (cfg : SegConfig) (s : SegState) (x tail gap full x' rest : PyStr) : Prop where
  inv : s.Inv
  base : normSpaces cfg.text s.baseFull = s.baseFull
  committed : s.committed = x ++ tail ++ gap
  gap : ∀ c ∈ gap, isSpace c = true
  words : ∀ c ∈ tail.getLast?, isSpace c = false
  long : cfg.reanchorMaxTailChars ≤ tail.length
  looked : 0 < tailLen cfg (x ++ tail)
  norm : normSpaces cfg.text full = full
  split : full = x' ++ tail ++ rest
  space : ∀ c ∈ rest.head?, isSpace c = true
  once : ∀ i < full.length, lastOf tail (tailLen cfg (x ++ tail)) <+: full.drop i →
    ∀ j < full.length, lastOf tail (tailLen cfg (x ++ tail)) <+: full.drop j → i = j
  takes : TakesReanchor cfg s full

instance (s : SegState) : Decidable s.Inv :=
  decidable_of_iff (s.bufStart ≤ s.baseFull.length ∧ s.baseFull.drop s.bufStart = s.buf ∧
    lstrip s.buf = s.buf) ⟨fun h => ⟨h.1, h.2.1, h.2.2⟩, fun h => ⟨h.1, h.2, h.3⟩⟩

instance (cfg : SegConfig) (s : SegState) (x tail gap full x' rest : PyStr) :
    Decidable (Rewritten cfg s x tail gap full x' rest) :=
  have : Decidable (∀ c ∈ gap, isSpace c = true) :=
    @List.decidableBAll _ (isSpace · = true) _ gap
  have : Decidable (∀ c ∈ tail.getLast?, isSpace c = false) :=
    @Option.decidableForallMem _ (isSpace · = false) _ _
  have : Decidable (∀ c ∈ rest.head?, isSpace c = true) :=
    @Option.decidableForallMem _ (isSpace · = true) _ _
  decidable_of_iff
    ((s.Inv ∧ normSpaces cfg.text s.baseFull = s.baseFull ∧ s.committed = x ++ tail ++ gap ∧
        (∀ c ∈ gap, isSpace c = true) ∧ (∀ c ∈ tail.getLast?, isSpace c = false) ∧
        cfg.reanchorMaxTailChars ≤ tail.length) ∧
      0 < tailLen cfg (x ++ tail) ∧ normSpaces cfg.text full = full ∧ full = x' ++ tail ++ rest ∧
      (∀ c ∈ rest.head?, isSpace c = true) ∧
      (∀ i < full.length, lastOf tail (tailLen cfg (x ++ tail)) <+: full.drop i →
        ∀ j < full.length, lastOf tail (tailLen cfg (x ++ tail)) <+: full.drop j → i = j) ∧
      TakesReanchor cfg s full)
    ⟨fun ⟨⟨h₁, h₂, h₃, h₄, h₅, h₆⟩, h₇, h₈, h₉, h₁₀, h₁₁, h₁₂⟩ =>
      ⟨h₁, h₂, h₃, h₄, h₅, h₆, h₇, h₈, h₉, h₁₀, h₁₁, h₁₂⟩,
    fun ⟨h₁, h₂, h₃, h₄, h₅, h₆, h₇, h₈, h₉, h₁₀, h₁₁, h₁₂⟩ =>
      ⟨⟨h₁, h₂, h₃, h₄, h₅, h₆⟩, h₇, h₈, h₉, h₁₀, h₁₁, h₁₂⟩⟩

/-- Without the gap the committed part ends with the tail. -/
theorem Rewritten.pyStrip_committed {x tail gap full x' r : PyStr}
    (h : Rewritten cfg s x tail gap full x' r) : pyStrip s.committed = x ++ tail := by
  have hfront : lstrip s.committed = s.committed := by
    have hpre : s.committed <+: s.baseFull := List.take_prefix _ _
    refine lstrip_of_isPrefix hpre ?_
    rw [← h.base, ← pyStrip_normSpaces]
    exact lstrip_of_isPrefix (rstrip_isPrefix _) (lstrip_lstrip _)
  have hne : tail ≠ [] := by
    intro hnil
    have hlong := h.long
    have hpos := h.looked
    rw [hnil, List.length_nil] at hlong
    rw [tailLen] at hpos
    omega
  show rstrip (lstrip s.committed) = x ++ tail
  have hnil : gap.rdropWhile (onChar pySpace) = [] := List.rdropWhile_eq_nil_iff.mpr h.gap
  rw [hfront, h.committed, rstrip, rdropWhile_append, if_pos hnil, List.rdropWhile_eq_self_iff]
  intro hne'
  have hlast := h.words _ (List.getLast?_eq_some_getLast hne)
  rw [List.getLast_append_of_ne_nil _ hne, show onChar pySpace (tail.getLast hne) = false from hlast]
  exact Bool.false_ne_true

/-- The buffer begins in what follows the tail, and not before the place where it began in
the old text. -/
theorem Rewritten.receive_buf (hproper : cfg.text.Proper) {x tail gap full x' r : PyStr}
    (h : Rewritten cfg s x tail gap full x' r) :
    ∃ n, (s.receive cfg full).buf = lstrip (r.drop n) ∧
      min (advanceToBoundary cfg full (max (x' ++ tail).length s.bufStart)) full.length =
        (x' ++ tail).length + n := by
  have hself : pyStrip full = full := by rw [← h.norm, pyStrip_normSpaces]
  obtain ⟨place, hplace, hbuf⟩ := receive_reanchor h.inv h.takes
  have hend := reanchor_spec h.pyStrip_committed hself h.split
    (Nat.le_trans (Nat.min_le_left _ _) h.long) h.looked h.once hplace
  have hstay := advanceToBoundary_gap hproper (p := x' ++ tail) h.space (Nat.zero_le _)
  rw [Nat.add_zero, ← h.split] at hstay
  rw [← List.length_append, hstay] at hend
  rw [hend] at hbuf
  have hlen : full.length = (x' ++ tail).length + r.length := by rw [h.split, List.length_append]
  have hge := min_le_advanceToBoundary cfg full (max (x' ++ tail).length s.bufStart)
  obtain ⟨n, hn⟩ : ∃ n, min (advanceToBoundary cfg full (max (x' ++ tail).length s.bufStart))
      full.length = (x' ++ tail).length + n := ⟨_, (Nat.add_sub_cancel' (by omega)).symm⟩
  have hdrop : full.drop ((x' ++ tail).length + n) = r.drop n := by
    rw [h.split, List.drop_length_add_append]
  refine ⟨n, ?_, hn⟩
  rw [hbuf, hn, hdrop]

/-- What is committed is never taken up again, and nothing behind it is skipped just when
the boundary in the old text is not beyond the first word there in the new one. -/
theorem reanchor_resumes (hproper : cfg.text.Proper) {x tail gap full x' r : PyStr}
    (hrewritten : Rewritten cfg s x tail gap full x' r) :
    (s.receive cfg full).buf <:+ lstrip r ∧
      ((s.receive cfg full).buf = lstrip r ↔
        s.bufStart + (lstrip r).length ≤ full.length ∨ lstrip r = []) := by
  obtain ⟨n, hbuf, hn⟩ := hrewritten.receive_buf hproper
  have hlen : full.length = (x' ++ tail).length + r.length := by
    rw [hrewritten.split, List.length_append]
  have hle := SegState.length_lstrip_le r
  have hge := min_le_advanceToBoundary cfg full (max (x' ++ tail).length s.bufStart)
  rw [hbuf]
  refine ⟨lstrip_drop_suffix r n, ?_⟩
  constructor
  · intro heq
    by_contra hcond
    rw [not_or] at hcond
    have hpos := List.length_pos_iff.mpr hcond.2
    have hlt := SegState.length_lstrip_le (r.drop n)
    rw [heq, List.length_drop] at hlt
    omega
  · intro hcond
    rcases hcond with hcond | hnil
    · obtain ⟨i, hi, hile⟩ : ∃ i, max (x' ++ tail).length s.bufStart = (x' ++ tail).length + i ∧
          i ≤ r.length - (lstrip r).length :=
        ⟨max (x' ++ tail).length s.bufStart - (x' ++ tail).length, by omega, by omega⟩
      have hstay := advanceToBoundary_gap hproper (p := x' ++ tail) hrewritten.space hile
      rw [← hrewritten.split] at hstay
      rw [hi, hstay] at hn
      exact lstrip_drop_front (by omega)
    · have hsuffix := lstrip_drop_suffix r n
      rw [hnil] at hsuffix ⊢
      exact List.eq_nil_of_suffix_nil hsuffix

/-- Settings with which a tail of sixteen characters is enough. -/
def shortTails : SegConfig :=
  { defaultSeg with reanchorMinCommitted := 20, reanchorMaxTailChars := 16, reanchorMinTailChars := 8 }

/-- The segmenter after a text with a committed tail. -/
def afterBridges : Option SegState :=
  ((SegState.init 0).updateStable shortTails "Well, I see the old bridges now. so".toList none 1).map
    Prod.fst

theorem reanchor_resumes_longer : ∃ s, afterBridges = some s ∧
    (s.receive shortTails "Then I can see the old bridges now. and go".toList).buf <:+
      lstrip " and go".toList ∧
    ((s.receive shortTails "Then I can see the old bridges now. and go".toList).buf =
        lstrip " and go".toList ↔
      s.bufStart + (lstrip " and go".toList).length ≤
          "Then I can see the old bridges now. and go".toList.length ∨
        lstrip " and go".toList = []) := by
  have hstate : (afterBridges.any fun s =>
      decide (Rewritten shortTails s "Well, I see ".toList "the old bridges now.".toList [' ']
        "Then I can see the old bridges now. and go".toList "Then I can see ".toList
        " and go".toList)) = true := by decide +kernel
  obtain ⟨s, hs, hrewritten⟩ := (Option.any_eq_true _ _).mp hstate
  exact ⟨s, hs, reanchor_resumes (isAlphanum_proper false) (of_decide_eq_true hrewritten)⟩

/-- When the rewritten part is shorter, the first words behind the tail are skipped. -/
theorem reanchor_skips : ∃ s, afterBridges = some s ∧
    Rewritten shortTails s "Well, I see ".toList "the old bridges now.".toList [' ']
      "See the old bridges now. and more we go".toList "See ".toList " and more we go".toList ∧
    (s.receive shortTails "See the old bridges now. and more we go".toList).buf ≠
      lstrip " and more we go".toList := by
  have hstate : (afterBridges.any fun s =>
      decide (Rewritten shortTails s "Well, I see ".toList "the old bridges now.".toList [' ']
          "See the old bridges now. and more we go".toList "See ".toList " and more we go".toList ∧
        (s.receive shortTails "See the old bridges now. and more we go".toList).buf ≠
          lstrip " and more we go".toList)) = true := by decide +kernel
  obtain ⟨s, hs, hskips⟩ := (Option.any_eq_true _ _).mp hstate
  exact ⟨s, hs, of_decide_eq_true hskips⟩

end VTranser.Translator

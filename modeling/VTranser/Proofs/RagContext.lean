import VTranser.Panel.RagContext

/-!
# The budget of the pinned context

A text that is longer than what is left is cut to what is left, dots included, and
the budget is then full. Only the dots do not fit where one or two code units are
left: the text becomes the three dots, and the block has more than it may have.
-/

namespace VTranser.Panel

/-- What is left of the budget behind transcripts that were put in as they are, each
clipped on its own. -/
def ragRoom (ps : List PinnedRag) : Nat :=
  ragContextTotalMax - (ps.map fun p => min p.full.length ragContextPerItemMax).sum

theorem length_clipText (s : JsStr) {n : Nat} (h : 3 ≤ n) :
    (clipText s n).length = min s.length n := by
  have hdots : (jsText "...").length = 3 := rfl
  unfold clipText
  split
  · omega
  · rw [List.length_append, List.length_take, hdots]
    omega

/-- Less than the dots is left, and they are all that comes of a longer text. -/
theorem length_clipText_of_lt {s : JsStr} {n : Nat} (h : n < 3) (hlong : n < s.length) :
    (clipText s n).length = 3 := by
  have hdots : (jsText "...").length = 3 := rfl
  rw [clipText, if_neg (by omega), List.length_append, List.length_take, hdots]
  omega

/-- What a transcript adds to the budget where `total` is spent: its clipped length, or
what is left, or the dots. -/
def ragUse (total len : Nat) : Nat :=
  let clipped := min len ragContextPerItemMax
  let remain := ragContextTotalMax - total
  if remain < clipped then max remain 3 else clipped

/-- The lengths of the texts, as the loop spends them. -/
def ragUses (total : Nat) : List Nat → List Nat
  | [] => []
  | len :: lens =>
      if ragContextTotalMax ≤ total then []
      else if len = 0 then ragUses total lens
      else ragUse total len :: ragUses (total + ragUse total len) lens

/-- No text meets a rest of the budget that is shorter than the dots and than itself. -/
def Fits (total : Nat) : List Nat → Prop
  | [] => True
  | len :: lens =>
      (ragContextTotalMax - total = 1 ∨ ragContextTotalMax - total = 2 →
        min len ragContextPerItemMax ≤ ragContextTotalMax - total) ∧
      Fits (total + min len ragContextPerItemMax) lens

theorem length_usable (s : JsStr) (total : Nat) :
    (if ragContextTotalMax - total < (clipText s ragContextPerItemMax).length then
      clipText (clipText s ragContextPerItemMax) (ragContextTotalMax - total)
    else clipText s ragContextPerItemMax).length = ragUse total s.length := by
  have hclip : (clipText s ragContextPerItemMax).length = min s.length ragContextPerItemMax :=
    length_clipText s (by decide)
  simp only [ragUse, ← hclip]
  split
  · next hlong =>
      by_cases hdots : ragContextTotalMax - total < 3
      · rw [length_clipText_of_lt hdots hlong]
        omega
      · rw [length_clipText _ (by omega)]
        omega
  · rfl

theorem ragUse_pos {total len : Nat} (h : len ≠ 0) : 0 < ragUse total len := by
  have hpos : 0 < ragContextPerItemMax := by decide
  simp only [ragUse]
  split <;> omega

/-- The lengths of the chunks are the lengths the loop spends. -/
theorem map_length_ragChunks (ps : List PinnedRag) :
    ∀ total count, (ragChunks total count ps).map (fun c => c.2.length) =
      ragUses total (ps.map fun p => p.full.length) := by
  induction ps with
  | nil => exact fun _ _ => rfl
  | cons p ps ih =>
      intro total count
      simp only [ragChunks, List.map_cons, ragUses]
      split
      · rfl
      · next htotal =>
          have hlen := length_usable p.full total
          by_cases hempty : p.full = []
          · simp [hempty, ih]
          · have hne : p.full.length ≠ 0 := by simpa using hempty
            have hpos : 0 < ragUse total p.full.length := ragUse_pos hne
            rw [if_neg (by simpa using hempty), if_neg hne, if_neg, List.map_cons, hlen, ih]
            intro hnone
            rw [List.isEmpty_iff.mp hnone] at hlen
            simp at hlen
            omega

/-- Where all is spent, the rest fits. -/
theorem Fits.of_spent {lens : List Nat} :
    ∀ {total}, ragContextTotalMax ≤ total → Fits total lens := by
  induction lens with
  | nil => exact fun _ => trivial
  | cons len lens ih => exact fun h => ⟨by omega, ih (by omega)⟩

/-- One text, from a budget that is not spent: the use stays in it if and only if the
text fits. -/
theorem ragUse_le_iff {total len : Nat} (h : total < ragContextTotalMax) :
    total + ragUse total len ≤ ragContextTotalMax ↔
      (ragContextTotalMax - total = 1 ∨ ragContextTotalMax - total = 2 →
        min len ragContextPerItemMax ≤ ragContextTotalMax - total) := by
  simp only [ragUse]
  split <;> omega

/-- The sum stays in the budget if and only if every text fits where it comes. -/
theorem sum_ragUses_le_iff (lens : List Nat) :
    ∀ total ≤ ragContextTotalMax,
      total + (ragUses total lens).sum ≤ ragContextTotalMax ↔ Fits total lens := by
  induction lens with
  | nil => exact fun total h => iff_of_true h trivial
  | cons len lens ih =>
      intro total htotal
      simp only [ragUses, Fits]
      by_cases hspent : ragContextTotalMax ≤ total
      · rw [if_pos hspent]
        exact iff_of_true htotal ⟨by omega, Fits.of_spent (by omega)⟩
      rw [if_neg hspent]
      by_cases hzero : len = 0
      · subst hzero
        rw [if_pos rfl, ih total htotal]
        simp
      rw [if_neg hzero, List.sum_cons, ← ragUse_le_iff (Nat.lt_of_not_le hspent)]
      constructor
      · intro hsum
        have hle : total + ragUse total len ≤ ragContextTotalMax := by omega
        refine ⟨hle, ?_⟩
        have hrest := (ih _ hle).mp (by omega)
        by_cases hcut : ragContextTotalMax - total < min len ragContextPerItemMax
        · exact Fits.of_spent (by omega)
        · rwa [ragUse, if_neg hcut] at hrest
      · rintro ⟨hle, hrest⟩
        have := (ih _ hle).mpr ?_
        · omega
        by_cases hcut : ragContextTotalMax - total < min len ragContextPerItemMax
        · apply Fits.of_spent
          simp only [ragUse, if_pos hcut]
          omega
        · rwa [ragUse, if_neg hcut]

/-- `Fits`, with the texts by their places. -/
theorem fits_iff_forall (ps : List PinnedRag) :
    ∀ spent, Fits spent (ps.map fun p => p.full.length) ↔
      ∀ i (hi : i < ps.length),
        let room := ragContextTotalMax -
          (spent + ((ps.take i).map fun p => min p.full.length ragContextPerItemMax).sum)
        room = 1 ∨ room = 2 → min ps[i].full.length ragContextPerItemMax ≤ room := by
  induction ps with
  | nil => exact fun _ => iff_of_true trivial nofun
  | cons p ps ih =>
      intro spent
      simp only [List.map_cons, Fits, ih]
      constructor
      · rintro ⟨hhead, htail⟩ (_ | i) hi
        · exact hhead
        · simp only [List.take_succ_cons, List.map_cons, List.sum_cons, ← Nat.add_assoc]
          exact htail i (Nat.lt_of_succ_lt_succ hi)
      · intro h
        refine ⟨h 0 (Nat.succ_pos _), fun i hi => ?_⟩
        have hnext := h (i + 1) (Nat.succ_lt_succ hi)
        simp only [List.take_succ_cons, List.map_cons, List.sum_cons, ← Nat.add_assoc] at hnext
        exact hnext

theorem ragUse_le (total len : Nat) : ragUse total len ≤ ragContextPerItemMax := by
  have hdots : 3 ≤ ragContextPerItemMax := by decide
  simp only [ragUse]
  split <;> omega

theorem le_of_mem_ragUses {lens : List Nat} {n : Nat} :
    ∀ {total}, n ∈ ragUses total lens → n ≤ ragContextPerItemMax := by
  induction lens with
  | nil => exact nofun
  | cons len lens ih =>
      intro total hmem
      simp only [ragUses] at hmem
      split at hmem
      · cases hmem
      split at hmem
      · exact ih hmem
      · rcases List.mem_cons.mp hmem with rfl | hmem
        · exact ragUse_le total len
        · exact ih hmem

/-- Each text keeps to its own budget, and all of them keep to theirs if and only if
none meets a rest of one or two code units that is shorter than itself. -/
theorem ragChunks_within_iff (ps : List PinnedRag) :
    (∀ c ∈ ragChunks 0 0 ps, c.2.length ≤ ragContextPerItemMax) ∧
        ((ragChunks 0 0 ps).map fun c => c.2.length).sum ≤ ragContextTotalMax ↔
      ∀ i (hi : i < ps.length), ragRoom (ps.take i) = 1 ∨ ragRoom (ps.take i) = 2 →
        min ps[i].full.length ragContextPerItemMax ≤ ragRoom (ps.take i) := by
  have hlens := map_length_ragChunks ps 0 0
  have hfits := (sum_ragUses_le_iff (ps.map fun p => p.full.length) 0 (Nat.zero_le _)).trans
    (fits_iff_forall ps 0)
  simp only [Nat.zero_add] at hfits
  rw [hlens]
  constructor
  · exact fun h => hfits.mp h.2
  · intro h
    refine ⟨fun c hc => ?_, hfits.mpr h⟩
    apply le_of_mem_ragUses
    rw [← hlens]
    exact List.mem_map_of_mem hc

/-- A pinned transcript that is known by its text alone. -/
def pinnedText (text : JsStr) : PinnedRag where
  detail := none
  found := { previewText := none, latestTextEn := none, latestTextVi := none, latestText := none,
             textEn := none, textVi := none, text := some text, tabDomain := [], hostname := none,
             startedAt := jsText "N/A" }

theorem subLineFeeds_replicate (n : Nat) :
    ∀ run, subLineFeeds run (List.replicate n 0x61) = List.replicate n 0x61 := by
  induction n with
  | zero => exact fun _ => rfl
  | succ n ih =>
      intro run
      rw [List.replicate_succ, subLineFeeds, if_neg (by decide), ih]

theorem jsTrim_replicate (n : Nat) : jsTrim (List.replicate n 0x61) = List.replicate n 0x61 := by
  apply jsTrim_eq_self
  intro u hu
  rw [List.eq_of_mem_replicate hu]
  decide

theorem length_full_pinnedText (n : Nat) :
    (pinnedText (List.replicate (n + 1) 0x61)).full.length = n + 1 := by
  have hpick : pickTranscriptText (pinnedText (List.replicate (n + 1) 0x61)).found =
      List.replicate (n + 1) 0x61 := by
    simp [pickTranscriptText, pinnedText, jsTrim_replicate]
  have hnorm : normalizeRagText (List.replicate (n + 1) 0x61) = List.replicate (n + 1) 0x61 := by
    rw [normalizeRagText, List.map_replicate, if_neg (by decide), subLineFeeds_replicate,
      jsTrim_replicate]
  have hfull : (pinnedText (List.replicate (n + 1) 0x61)).full =
      normalizeRagText (pickTranscriptText (pinnedText (List.replicate (n + 1) 0x61)).found) := rfl
  rw [hfull, hpick, hnorm, List.length_replicate]

/-- Four texts that leave one code unit, and a text of two: the block has 9002. -/
theorem not_ragChunks_within :
    ¬ ∀ ps : List PinnedRag, (∀ c ∈ ragChunks 0 0 ps, c.2.length ≤ ragContextPerItemMax) ∧
      ((ragChunks 0 0 ps).map fun c => c.2.length).sum ≤ ragContextTotalMax := by
  intro h
  have hsum := (h ([2399, 2399, 2399, 1798, 1].map fun n =>
    pinnedText (List.replicate (n + 1) 0x61))).2
  rw [map_length_ragChunks, List.map_map] at hsum
  simp only [Function.comp_def, length_full_pinnedText] at hsum
  revert hsum
  decide

end VTranser.Panel

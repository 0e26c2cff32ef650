import VTranser.Overlay.Layout
import VTranser.Proofs.Sentences

/-!
# When a layout comes to an end

A round takes something from the queue, and puts it on a line, unless nothing of the
first piece can be placed: no part of it fits, and the code unit that goes on a line
in its place stays in the queue as well. From then on every round is the same. So a
layout ends exactly when no round begins with such a piece, and its lines are then
all that was in the queue.
-/

namespace VTranser.Overlay

open Regex Loop

variable {width : TextWidth} {remPx : ℚ}

/-! ## The part that fits -/

theorem TextWidth.px_take_le (width : TextWidth) (s : JsStr) (n : Nat) :
    width.px (s.take n) ≤ width.px s := by
  have h := width.px_append (s.take n) (s.drop n)
  rwa [List.take_append_drop] at h

/-- What the search finds fits. -/
theorem bestPrefix_fits {tok : JsStr} {lo hi best : Nat}
    (hbest : best = 0 ∨ width.px (tok.take best) ≤ remPx) :
    bestPrefix width remPx tok lo hi best = 0 ∨
      width.px (tok.take (bestPrefix width remPx tok lo hi best)) ≤ remPx := by
  induction lo, hi, best using bestPrefix.induct width remPx tok with
  | case1 lo hi best h mid cand hempty ih =>
      rw [bestPrefix, dif_pos h, if_pos hempty]
      exact ih hbest
  | case2 lo hi best h mid cand hne hfits ih =>
      rw [bestPrefix, dif_pos h, if_neg hne, if_pos hfits]
      exact ih (.inr hfits)
  | case3 lo hi best h mid cand hne hwide ih =>
      rw [bestPrefix, dif_pos h, if_neg hne, if_neg hwide]
      exact ih hbest
  | case4 lo hi best h =>
      rw [bestPrefix, dif_neg h]
      exact hbest

/-- The search finds something if one code unit fits: that is among the candidates
until something is found. -/
theorem bestPrefix_pos {tok : JsStr} (htok : tok ≠ []) (hunit : width.px (tok.take 1) ≤ remPx)
    {lo hi best : Nat} (hleft : 0 < best ∨ lo ≤ 1 ∧ 1 < hi) :
    0 < bestPrefix width remPx tok lo hi best := by
  induction lo, hi, best using bestPrefix.induct width remPx tok with
  | case1 lo hi best h mid cand hempty ih =>
      have hmid : mid = 0 := by
        rcases List.take_eq_nil_iff.mp (List.isEmpty_iff.mp hempty) with hmid | hnil
        · exact hmid
        · exact absurd hnil htok
      rw [bestPrefix, dif_pos h, if_pos hempty]
      exact ih (hleft.imp_right fun hone => ⟨by omega, hone.2⟩)
  | case2 lo hi best h mid cand hne hfits ih =>
      have hmid : mid ≠ 0 := by
        intro hzero
        refine hne ?_
        show (tok.take mid).isEmpty
        rw [hzero]
        rfl
      rw [bestPrefix, dif_pos h, if_neg hne, if_pos hfits]
      exact ih (.inl (by omega))
  | case3 lo hi best h mid cand hne hwide ih =>
      have hmid : mid ≠ 0 := by
        intro hzero
        refine hne ?_
        show (tok.take mid).isEmpty
        rw [hzero]
        rfl
      have hone : mid ≠ 1 := by
        intro heq
        refine hwide ?_
        show width.px (tok.take mid) ≤ remPx
        rwa [heq]
      rw [bestPrefix, dif_pos h, if_neg hne, if_neg hwide]
      exact ih (hleft.imp_right fun hlo => ⟨hlo.1, by omega⟩)
  | case4 lo hi best h =>
      rw [bestPrefix, dif_neg h]
      omega

theorem fitLoop_append (fit : JsStr) (tokens : List JsStr) :
    (fitLoop width remPx fit tokens).1 ++ (fitLoop width remPx fit tokens).2 =
      fit ++ tokens.flatten := by
  induction tokens generalizing fit with
  | nil => rfl
  | cons tok tokens ih =>
      rw [fitLoop]
      split
      · rw [ih, List.flatten_cons, List.append_assoc]
      · split
        · next hempty =>
            rw [List.isEmpty_iff.mp hempty, List.nil_append, ← List.append_assoc,
              List.take_append_drop, List.flatten_cons]
        · rfl

theorem fitLoop_ne_nil {fit : JsStr} (hfit : fit ≠ []) (tokens : List JsStr) :
    (fitLoop width remPx fit tokens).1 ≠ [] := by
  induction tokens generalizing fit with
  | nil => exact hfit
  | cons tok tokens ih =>
      rw [fitLoop]
      split
      · exact ih (List.append_ne_nil_of_left_ne_nil hfit _)
      · rw [if_neg (by simpa using hfit)]
        exact hfit

/-- Nothing of a text fits exactly when its first code unit does not. -/
theorem fitLoop_eq_nil_iff {tok : JsStr} (htok : tok ≠ []) (tokens : List JsStr) :
    (fitLoop width remPx [] (tok :: tokens)).1 = [] ↔ remPx < width.px (tok.take 1) := by
  rw [fitLoop, List.nil_append]
  split
  · next hfits =>
      refine iff_of_false (fitLoop_ne_nil htok tokens) (not_lt.mpr ?_)
      exact (width.px_take_le tok 1).trans hfits
  · show tok.take (bestPrefix width remPx tok 0 (tok.length + 1) 0) = [] ↔ _
    have hlen : 0 < tok.length := List.length_pos_iff.mpr htok
    by_cases hunit : width.px (tok.take 1) ≤ remPx
    · have hpos := @bestPrefix_pos width remPx tok htok hunit 0 (tok.length + 1) 0
        (.inr ⟨Nat.zero_le _, by omega⟩)
      refine iff_of_false (fun hnil => ?_) (not_lt.mpr hunit)
      rcases List.take_eq_nil_iff.mp hnil with hzero | hnil
      · omega
      · exact htok hnil
    · refine iff_of_true ?_ (not_le.mp hunit)
      rcases @bestPrefix_fits width remPx tok 0
        (tok.length + 1) 0 (.inl rfl) with hzero | hfits
      · rw [hzero]
        rfl
      · -- What fits would begin with that code unit.
        by_contra hne
        refine hunit ?_
        obtain ⟨n, hn⟩ : ∃ n, bestPrefix width remPx tok 0 (tok.length + 1) 0 = n + 1 :=
          Nat.exists_eq_succ_of_ne_zero fun hzero => hne (by rw [hzero]; rfl)
        have htake := width.px_take_le (tok.take (n + 1)) 1
        rw [List.take_take, Nat.min_eq_left (by omega)] at htake
        rw [hn] at hfits
        exact htake.trans hfits

/-- The tokens of a text, and its first code unit. -/
theorem layoutTokens_cons {s : JsStr} (hs : s ≠ []) :
    ∃ tok tokens, layoutTokens s = tok :: tokens ∧ tok ≠ [] ∧ tok.take 1 = s.take 1 := by
  have hflat : (layoutTokens s).flatten = s := List.flatten_splitBy _ s
  cases htokens : layoutTokens s with
  | nil =>
      rw [htokens] at hflat
      exact absurd hflat.symm hs
  | cons tok tokens =>
      have htok : tok ≠ [] := List.ne_nil_of_mem_splitBy
        (show tok ∈ layoutTokens s by rw [htokens]; exact List.mem_cons_self)
      refine ⟨tok, tokens, rfl, htok, ?_⟩
      have hlen : 0 < tok.length := List.length_pos_iff.mpr htok
      rw [htokens, List.flatten_cons] at hflat
      rw [← hflat, List.take_append_of_le_length hlen]

theorem fitPrefixByWidth_append (s : JsStr) :
    (fitPrefixByWidth width s remPx).1 ++ (fitPrefixByWidth width s remPx).2 = s := by
  rw [fitPrefixByWidth]
  split
  · rfl
  · rw [fitLoop_append, List.nil_append]
    exact List.flatten_splitBy _ s

theorem fitPrefixByWidth_eq_nil_iff {s : JsStr} (hs : s ≠ []) :
    (fitPrefixByWidth width s remPx).1 = [] ↔ remPx ≤ 0 ∨ remPx < width.px (s.take 1) := by
  rw [fitPrefixByWidth]
  split
  · next hle => exact iff_of_true rfl (.inl hle)
  · next hpos =>
      obtain ⟨tok, tokens, htokens, htok, htake⟩ := layoutTokens_cons hs
      rw [htokens, fitLoop_eq_nil_iff htok, htake, or_iff_right hpos]

theorem fitPrefixByWidth_rest {s : JsStr} (h : (fitPrefixByWidth width s remPx).1 = []) :
    (fitPrefixByWidth width s remPx).2 = s := by
  have happend := @fitPrefixByWidth_append width remPx s
  rwa [h, List.nil_append] at happend

/-! ## One round -/

theorem unshift_flatten (rest : JsStr) (queue : List JsStr) :
    (unshift rest queue).flatten = rest ++ queue.flatten := by
  rw [unshift]
  split
  · next hempty => rw [List.isEmpty_iff.mp hempty, List.nil_append]
  · rfl

theorem unshift_of_ne {rest : JsStr} (h : rest ≠ []) (queue : List JsStr) :
    unshift rest queue = rest :: queue := by
  rw [unshift, if_neg (by simpa using h)]

/-- No piece in the queue is empty. -/
def Pieces (queue : List JsStr) : Prop := ∀ s ∈ queue, s ≠ []

theorem Pieces.unshift {queue : List JsStr} (h : Pieces queue) (rest : JsStr) :
    Pieces (unshift rest queue) := by
  rw [Overlay.unshift]
  split
  · exact h
  · next hne =>
      intro s hs
      rcases List.mem_cons.mp hs with rfl | hs
      · simpa using hne
      · exact h s hs

namespace LineBox

variable (box : LineBox)

/-- Nothing of the piece can be placed, at the beginning of a line. In a bubble without
width that is a piece with some, and any piece if a line may have no sentence; else it
is a piece whose first code unit is too wide. -/
def Stuck (piece : JsStr) : Prop :=
  if box.maxPx = 0 then 0 < box.width.px piece ∨ ¬ box.below 0
  else box.maxPx < box.width.px (piece.take 1)

variable {box}

theorem fillLine_append (line : JsStr) (used guard : Nat) (queue : List JsStr) :
    (box.fillLine line used guard queue).1 ++ (box.fillLine line used guard queue).2.flatten =
      line ++ queue.flatten := by
  induction queue generalizing line used guard with
  | nil => rfl
  | cons sentence queue ih =>
      rw [fillLine]
      split
      · split
        · rw [ih, List.flatten_cons, List.append_assoc]
        · simp only
          split
          · rfl
          · split
            · rfl
            · rw [unshift_flatten, List.append_assoc, ← List.append_assoc _ _ queue.flatten,
                fitPrefixByWidth_append, List.flatten_cons]
      · rfl

theorem fillLine_pieces {queue : List JsStr} (h : Pieces queue) (line : JsStr)
    (used guard : Nat) : Pieces (box.fillLine line used guard queue).2 := by
  induction queue generalizing line used guard with
  | nil => exact h
  | cons sentence queue ih =>
      have hrest : Pieces queue := fun s hs => h s (List.mem_cons_of_mem _ hs)
      rw [fillLine]
      split
      · split
        · exact ih hrest _ _ _
        · simp only
          split
          · exact h
          · split
            · exact h
            · exact hrest.unshift _
      · exact h

theorem fillLine_ne_nil {line : JsStr} (hline : line ≠ []) (used guard : Nat)
    (queue : List JsStr) : (box.fillLine line used guard queue).1 ≠ [] := by
  induction queue generalizing line used guard with
  | nil => exact hline
  | cons sentence queue ih =>
      rw [fillLine]
      split
      · split
        · exact ih (List.append_ne_nil_of_left_ne_nil hline _) _ _
        · simp only
          split
          · exact hline
          · split
            · exact hline
            · exact List.append_ne_nil_of_left_ne_nil hline _
      · exact hline

/-- An empty line stays empty when the first sentence does not go on it. -/
theorem fillLine_nil {s : JsStr} (hs : s ≠ []) (queue : List JsStr) :
    if box.below 0 ∧ (box.width.px s ≤ box.maxPx ∨
        (fitPrefixByWidth box.width s box.maxPx).1 ≠ []) then
      (box.fillLine [] 0 0 (s :: queue)).1 ≠ []
    else box.fillLine [] 0 0 (s :: queue) = ([], s :: queue) := by
  have hrem : box.maxPx - box.width.px [] = box.maxPx := by rw [box.width.px_nil, sub_zero]
  rw [fillLine, List.nil_append, hrem]
  by_cases hbelow : box.below 0 = true
  · simp only [hbelow, Bool.true_and, decide_eq_true_eq, Nat.zero_lt_succ, if_true, true_and]
    by_cases hfits : box.width.px s ≤ box.maxPx
    · rw [if_pos (.inl hfits), if_pos hfits]
      exact fillLine_ne_nil hs _ _ _
    · rw [if_neg hfits]
      by_cases hpart : (fitPrefixByWidth box.width s box.maxPx).1 = []
      · rw [if_neg (by simp [hfits, hpart]), hpart]
        split <;> rfl
      · have hpos : ¬ box.maxPx ≤ 0 := fun hle =>
          hpart ((fitPrefixByWidth_eq_nil_iff hs).mpr (.inl hle))
        rw [if_pos (.inr hpart), if_neg hpos, if_neg (by simpa using hpart)]
        exact hpart
  · simp [hbelow]

/-- What stuck comes to: neither the whole piece nor a part of it is placed. -/
theorem stuck_iff {s : JsStr} (hs : s ≠ []) :
    box.Stuck s ↔ (fitPrefixByWidth box.width s box.maxPx).1 = [] ∧
      ¬ (box.below 0 ∧ box.width.px s ≤ box.maxPx) := by
  have hnonneg := box.maxPx_nonneg
  rw [Stuck, fitPrefixByWidth_eq_nil_iff hs]
  split
  · next hzero =>
      rw [hzero, not_and_or, not_le]
      constructor
      · exact fun h => ⟨.inl le_rfl, h.symm⟩
      · exact fun h => h.2.symm
  · next hne =>
      have hpos : ¬ box.maxPx ≤ 0 := fun hle => hne (le_antisymm hle hnonneg)
      rw [or_iff_right hpos]
      refine ⟨fun hwide => ⟨hwide, fun h => ?_⟩, fun h => h.1⟩
      exact absurd (h.2.trans_lt hwide) (not_lt.mpr (box.width.px_take_le s 1))

/-- The line of a round, when its first piece is not stuck, is not empty. -/
theorem fillLine_eq_nil_iff {s : JsStr} (hs : s ≠ []) (queue : List JsStr) :
    (box.fillLine [] 0 0 (s :: queue)).1 = [] ↔
      ¬ (box.below 0 ∧ (box.width.px s ≤ box.maxPx ∨
        (fitPrefixByWidth box.width s box.maxPx).1 ≠ [])) := by
  have h := @fillLine_nil box s hs queue
  split at h
  · next hyes => exact iff_of_false h (not_not_intro hyes)
  · next hno => exact iff_of_true (by rw [h]) hno

/-- A round that begins with a stuck piece leaves the queue as it is. -/
theorem layoutRound_stuck {l : Layout} {s : JsStr} {queue : List JsStr} (hs : s ≠ [])
    (hq : l.queue = s :: queue) (hstuck : box.Stuck s) : (box.layoutRound l).queue = l.queue := by
  obtain ⟨hnone, hwhole⟩ := (stuck_iff hs).mp hstuck
  have hline := @fillLine_nil box s hs queue
  rw [if_neg (by rw [hnone]; rintro ⟨hbelow, hfits | hpart⟩
                 · exact hwhole ⟨hbelow, hfits⟩
                 · exact hpart rfl)] at hline
  rw [layoutRound, hq, hline]
  show unshift (fitPrefixByWidth box.width s box.maxPx).2 queue = s :: queue
  rw [fitPrefixByWidth_rest hnone, unshift_of_ne hs]

/-- Any other round takes something from the queue, and puts it on a line. -/
theorem layoutRound_moves {l : Layout} {s : JsStr} {queue : List JsStr} (hpieces : Pieces l.queue)
    (hq : l.queue = s :: queue) (hfree : ¬ box.Stuck s) :
    Pieces (box.layoutRound l).queue ∧
      (box.layoutRound l).lines.flatten ++ (box.layoutRound l).queue.flatten =
        l.lines.flatten ++ l.queue.flatten ∧
      (box.layoutRound l).queue.flatten.length < l.queue.flatten.length := by
  have hs : s ≠ [] := hpieces s (by rw [hq]; exact List.mem_cons_self)
  -- It is enough to know what was placed.
  have hplaced : ∀ (placed : JsStr) (left : List JsStr), placed ≠ [] →
      placed ++ left.flatten = l.queue.flatten →
      (l.lines ++ [placed]).flatten ++ left.flatten = l.lines.flatten ++ l.queue.flatten ∧
        left.flatten.length < l.queue.flatten.length := by
    intro placed left hne heq
    have hlen : 0 < placed.length := List.length_pos_iff.mpr hne
    rw [← heq]
    refine ⟨by simp, ?_⟩
    rw [List.length_append]
    omega
  rw [layoutRound]
  simp only
  split
  · next hempty =>
      have hnil := List.isEmpty_iff.mp hempty
      rw [hq, fillLine_eq_nil_iff hs] at hnil
      have hline := @fillLine_nil box s hs queue
      rw [if_neg hnil] at hline
      rw [congrArg (box.fillLine [] 0 0) hq, hline]
      have hfit : (fitPrefixByWidth box.width s box.maxPx).1 ≠ [] := fun hnone =>
        hfree ((stuck_iff hs).mpr ⟨hnone, fun h => hnil ⟨h.1, .inl h.2⟩⟩)
      have hrest : Pieces queue := fun u hu => hpieces u (by rw [hq]; exact List.mem_cons_of_mem _ hu)
      show Pieces (unshift (fitPrefixByWidth box.width s box.maxPx).2 queue) ∧ _ ∧ _
      refine ⟨hrest.unshift _, ?_⟩
      show (l.lines ++ [if (fitPrefixByWidth box.width s box.maxPx).1.isEmpty then s.take 1
        else (fitPrefixByWidth box.width s box.maxPx).1]).flatten ++ _ = _ ∧ _
      rw [if_neg (by simpa using hfit)]
      refine hplaced _ (unshift (fitPrefixByWidth box.width s box.maxPx).2 queue) hfit ?_
      rw [unshift_flatten, ← List.append_assoc, fitPrefixByWidth_append, hq, List.flatten_cons]
  · next hline =>
      refine ⟨fillLine_pieces hpieces _ _ _, hplaced _ _ (by simpa using hline) ?_⟩
      rw [fillLine_append, List.nil_append]

/-! ## All rounds -/

theorem pieces_start (text : JsStr) : Pieces (startLayout text).queue := by
  intro s hs
  rcases List.mem_append.mp hs with hs | hs
  · obtain ⟨hit, hmem, rfl⟩ := List.mem_map.mp hs
    obtain ⟨u, t, hread⟩ := scan_read (sent_reads browser_sentSpec) text hit hmem
    exact (sent_reads browser_sentSpec).pos hread
  · have hnone : Pieces [] := fun u hu => absurd hu List.not_mem_nil
    exact hnone.unshift _ s hs

theorem flatten_start (text : JsStr) :
    (startLayout text).queue.flatten =
      (splitSentencesAndTail text).1.flatten ++ (splitSentencesAndTail text).2 := by
  rw [startLayout, List.flatten_append, unshift_flatten, List.flatten_nil, List.append_nil]

/-- No round of a text begins with a piece that is stuck. -/
def NeverStuck (box : LineBox) (text : JsStr) : Prop :=
  ∀ n s queue, (box.layoutRound^[n] (startLayout text)).queue = s :: queue → ¬ box.Stuck s

/-- What is on the lines and in the queue is the text, as long as nothing is stuck. -/
structure Keeps (text : JsStr) (l : Layout) : Prop where
  pieces : Pieces l.queue
  all : l.lines.flatten ++ l.queue.flatten =
    (splitSentencesAndTail text).1.flatten ++ (splitSentencesAndTail text).2

theorem keeps_start (text : JsStr) : Keeps text (startLayout text) :=
  ⟨pieces_start text, flatten_start text⟩

theorem NeverStuck.ends {text : JsStr} (h : NeverStuck box text) :
    ∃ fuel lines, box.buildLines fuel text = some lines ∧
      lines.flatten = (splitSentencesAndTail text).1.flatten ++ (splitSentencesAndTail text).2 := by
  let I : Layout → Prop := fun l => Keeps text l ∧
    ∃ n, box.layoutRound^[n] (startLayout text) = l
  let Q : Layout → Prop := fun l => l.lines.flatten =
    (splitSentencesAndTail text).1.flatten ++ (splitSentencesAndTail text).2
  have hends : Ends (loop (fun l : Layout =>
      some (if l.queue.isEmpty then Round.done l else .again (box.layoutRound l)))
      ((startLayout text).queue.flatten.length + 1) (startLayout text)) Q := by
    refine loop_ends (I := I) (fun l => l.queue.flatten.length) ?_ ⟨keeps_start text, 0, rfl⟩
      (Nat.lt_succ_self _)
    rintro l ⟨hkeeps, n, hn⟩
    refine .of_some ?_
    cases hq : l.queue with
    | nil =>
        show l.lines.flatten = _
        rw [← hkeeps.all, hq, List.flatten_nil, List.append_nil]
    | cons s queue =>
        obtain ⟨hpieces, hall, hless⟩ :=
          layoutRound_moves hkeeps.pieces hq (h n s queue (by rw [hn, hq]))
        refine ⟨⟨⟨hpieces, hall.trans hkeeps.all⟩, n + 1, ?_⟩, hq ▸ hless⟩
        rw [Function.iterate_succ_apply', hn]
  obtain ⟨l, hl, hQ⟩ := hends
  exact ⟨_, l.lines, by rw [buildLines, hl]; rfl, hQ⟩

/-- A loop that ends has come to an empty queue. -/
theorem loop_some {fuel : Nat} {l l' : Layout}
    (h : loop (fun l : Layout =>
      some (if l.queue.isEmpty then Round.done l else .again (box.layoutRound l))) fuel l = some l') :
    ∃ n, (box.layoutRound^[n] l).queue = [] := by
  induction fuel generalizing l with
  | zero => cases h
  | succ fuel ih =>
      rw [loop, Option.bind_some] at h
      by_cases hempty : l.queue.isEmpty = true
      · exact ⟨0, List.isEmpty_iff.mp hempty⟩
      · rw [if_neg hempty] at h
        obtain ⟨n, hn⟩ := ih h
        exact ⟨n + 1, hn⟩

theorem layoutRound_nil {l : Layout} (h : l.queue = []) : box.layoutRound l = l := by
  rw [layoutRound, h]
  rfl

theorem iterate_nil {l : Layout} (h : l.queue = []) (n : Nat) : box.layoutRound^[n] l = l :=
  Function.iterate_fixed (layoutRound_nil h) n

theorem pieces_iterate (text : JsStr) (n : Nat) :
    Pieces (box.layoutRound^[n] (startLayout text)).queue := by
  induction n with
  | zero => exact pieces_start text
  | succ n ih =>
      rw [Function.iterate_succ_apply']
      cases hq : (box.layoutRound^[n] (startLayout text)).queue with
      | nil =>
          rw [layoutRound_nil hq, hq]
          exact hq ▸ ih
      | cons s queue =>
          by_cases hstuck : box.Stuck s
          · rw [layoutRound_stuck (ih s (by rw [hq]; exact List.mem_cons_self)) hq hstuck]
            exact ih
          · exact (layoutRound_moves ih hq hstuck).1

/-- From a stuck piece on the queue stays as it is. -/
theorem iterate_stuck {l : Layout} {s : JsStr} {queue : List JsStr} (hs : s ≠ [])
    (hq : l.queue = s :: queue) (hstuck : box.Stuck s) (n : Nat) :
    (box.layoutRound^[n] l).queue = s :: queue := by
  induction n with
  | zero => exact hq
  | succ n ih =>
      rw [Function.iterate_succ_apply', layoutRound_stuck hs ih hstuck, ih]

/-- A layout that ends never was stuck. -/
theorem NeverStuck.of_ends {text : JsStr} {fuel : Nat} {lines : List JsStr}
    (h : box.buildLines fuel text = some lines) : NeverStuck box text := by
  intro n s queue hq hstuck
  obtain ⟨l, hl, -⟩ := Option.map_eq_some_iff.mp h
  obtain ⟨m, hm⟩ := loop_some hl
  rcases Nat.le_total m n with hmn | hnm
  · -- The queue was empty before.
    obtain ⟨k, rfl⟩ := Nat.exists_eq_add_of_le' hmn
    rw [Function.iterate_add_apply, iterate_nil hm, hm] at hq
    cases hq
  · -- The queue never gets empty.
    obtain ⟨k, rfl⟩ := Nat.exists_eq_add_of_le' hnm
    have hs : s ≠ [] := pieces_iterate text n s (by rw [hq]; exact List.mem_cons_self)
    rw [Function.iterate_add_apply, iterate_stuck hs hq hstuck] at hm
    cases hm

theorem Keeps.iterate {text : JsStr} (hfree : ∀ l, Keeps text l → ∀ s queue,
    l.queue = s :: queue → ¬ box.Stuck s) (n : Nat) :
    Keeps text (box.layoutRound^[n] (startLayout text)) := by
  induction n with
  | zero => exact keeps_start text
  | succ n ih =>
      rw [Function.iterate_succ_apply']
      cases hq : (box.layoutRound^[n] (startLayout text)).queue with
      | nil =>
          rw [layoutRound_nil hq]
          exact ih
      | cons s queue =>
          obtain ⟨hpieces, hall, -⟩ := layoutRound_moves ih.pieces hq (hfree _ ih s queue hq)
          exact ⟨hpieces, hall.trans ih.all⟩

/-- The sentences and the tail have no code units but those of the text. -/
theorem mem_split {text : JsStr} {u : UInt16}
    (hu : u ∈ (splitSentencesAndTail text).1.flatten ++ (splitSentencesAndTail text).2) :
    u ∈ text := by
  have hrejoin := scan_rejoin (sent_reads browser_sentSpec) text
  rw [← hrejoin]
  rcases List.mem_append.mp hu with hu | hu
  · obtain ⟨s, hs, hu⟩ := List.mem_flatten.mp hu
    obtain ⟨hit, hmem, rfl⟩ := List.mem_map.mp hs
    exact List.mem_append_left _ (List.mem_flatMap.mpr ⟨hit, hmem, List.mem_append_right _ hu⟩)
  · exact List.mem_append_right _ hu

/-- In a bubble with some width, a text is not stuck if each of its code units fits. -/
theorem neverStuck_of_units {text : JsStr} (hmax : box.maxPx ≠ 0)
    (hunits : ∀ u ∈ text, box.width.px [u] ≤ box.maxPx) : NeverStuck box text := by
  have hfree : ∀ l, Keeps text l → ∀ s queue, l.queue = s :: queue → ¬ box.Stuck s := by
    intro l hkeeps s queue hq
    obtain ⟨u, rest, rfl⟩ : ∃ u rest, s = u :: rest :=
      List.exists_cons_of_ne_nil (hkeeps.pieces s (by rw [hq]; exact List.mem_cons_self))
    rw [Stuck, if_neg hmax, not_lt]
    refine hunits u (mem_split ?_)
    rw [← hkeeps.all, hq]
    simp
  exact fun n s queue hq => hfree _ (Keeps.iterate hfree n) s queue hq

end LineBox

/-- `buildLines` comes to an end, with lines that are the sentences and the tail again,
exactly when no round begins with a piece of which nothing can be placed. -/
theorem buildLines_ends_iff (box : LineBox) (text : JsStr) :
    (∃ fuel lines, box.buildLines fuel text = some lines ∧
        lines.flatten =
          (splitSentencesAndTail text).1.flatten ++ (splitSentencesAndTail text).2) ↔
      ∀ n s queue, (box.layoutRound^[n] (LineBox.startLayout text)).queue = s :: queue →
        ¬ box.Stuck s := by
  refine ⟨?_, LineBox.NeverStuck.ends⟩
  rintro ⟨fuel, lines, hbuild, -⟩
  exact LineBox.NeverStuck.of_ends hbuild

/-- Every code unit as wide as the next. -/
def monospace : TextWidth where
  px s := s.length
  px_nil := rfl
  px_append s t := by
    rw [List.length_append]
    exact_mod_cast Nat.le_add_right _ _

/-- One letter, in a bubble that is not displayed. -/
theorem buildLines_endless :
    ¬ ∀ (box : LineBox) (text : JsStr), ∃ fuel lines, box.buildLines fuel text = some lines ∧
      lines.flatten =
        (splitSentencesAndTail text).1.flatten ++ (splitSentencesAndTail text).2 := by
  intro h
  obtain ⟨fuel, lines, hbuild, -⟩ := h (.ofBubble 0 0 0 monospace (· < 2)) (jsText "a")
  have hmax : (LineBox.ofBubble 0 0 0 monospace (· < 2)).maxPx = 0 := by
    decide +kernel
  refine LineBox.NeverStuck.of_ends hbuild 0 (jsText "a") [] (by decide +kernel) ?_
  rw [LineBox.Stuck, if_pos hmax]
  left
  show (0 : ℚ) < ((jsText "a").length : ℚ)
  have hlen : (jsText "a").length = 1 := by decide
  rw [hlen]
  exact Nat.cast_pos.mpr Nat.one_pos

end VTranser.Overlay

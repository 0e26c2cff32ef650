import VTranser.Proofs.Sentences

/-!
# The sentences of a text that grows

A match looks at one symbol behind its closing quotes. So a match that leaves
something is found again in every longer text, and what fails in front of it
goes on failing (`sent_grows`).

A match read on its own ends a sentence, and the tail has no run that does. Both
stay true without the white space around them, so a sentence is never the same
line as a tail.
-/

namespace VTranser

open Regex

section

variable {α : Type*} {code : α → Nat} {space : α → Bool}

/-- What is behind a terminator run and its closing quotes. -/
def runRest (code : α → Nat) (v : List α) : List α :=
  (v.dropWhile (termSym code)).dropWhile (closerSym code)

theorem endsHere_eq (v : List α) : endsHere code space v = ((runRest code v).take 1).all space :=
  rfl

theorem runRest_append {v : List α} (h : runRest code v ≠ []) (x : List α) :
    runRest code (v ++ x) = runRest code v ++ x := by
  have hterm : v.dropWhile (termSym code) ≠ [] := by
    intro hnil
    rw [runRest, hnil] at h
    exact h rfl
  rw [runRest] at h
  rw [runRest, List.dropWhile_append, if_neg (by simpa using hterm), List.dropWhile_append,
    if_neg (by simpa using h), runRest]

theorem endsHere_append {v : List α} (h : runRest code v ≠ []) (x : List α) :
    endsHere code space (v ++ x) = endsHere code space v := by
  rw [endsHere_eq, endsHere_eq, runRest_append h]
  obtain ⟨c, cs, hcs⟩ := List.exists_cons_of_ne_nil h
  rw [hcs]
  rfl

/-- A run that ends no sentence does not start to when the text grows. -/
theorem endsHere_append_of_not {v : List α} (h : endsHere code space v = false) (x : List α) :
    endsHere code space (v ++ x) = false := by
  rw [endsHere_append, h]
  intro hnil
  rw [endsHere_eq, hnil] at h
  cases h

variable {fin : Re α} (hspec : SentSpec code space fin)
include hspec

theorem read_append {s b t : List α} (h : (sentRe code space fin).read s = some (b, t))
    (ht : t ≠ []) (x : List α) : (sentRe code space fin).read (s ++ x) = some (b, t ++ x) := by
  simp only [Re.read, Option.map_eq_some_iff, Prod.mk.injEq] at h ⊢
  obtain ⟨u, hu, htake, rfl⟩ := h
  refine ⟨u ++ x, ?_, ?_, rfl⟩
  · rw [sentRe_head hspec] at hu ⊢
    cases hv : s.dropWhile fun c => !termSym code c with
    | nil => rw [hv] at hu; cases hu
    | cons c cs =>
        rw [hv] at hu
        simp only at hu
        split at hu
        · next hends =>
            have hrest : (runRest code (c :: cs)).dropWhile space = u := Option.some.inj hu
            have hne : runRest code (c :: cs) ≠ [] := by
              intro hnil
              rw [hnil] at hrest
              exact ht hrest.symm
            rw [List.dropWhile_append, if_neg (by simp [hv]), hv]
            show (if endsHere code space ((c :: cs) ++ x) = true then
              some ((runRest code ((c :: cs) ++ x)).dropWhile space) else none) = some (u ++ x)
            rw [endsHere_append hne, if_pos hends, runRest_append hne, List.dropWhile_append,
              if_neg (by simpa [hrest] using ht), hrest]
        · cases hu
  · rw [← htake, List.length_append, List.length_append, Nat.add_sub_add_right]
    exact List.take_append_of_le_length (Nat.sub_le _ _)

theorem read_append_none {s : List α} (h : (sentRe code space fin).read s = none)
    (hs : s.dropWhile (fun c => !termSym code c) ≠ []) (x : List α) :
    (sentRe code space fin).read (s ++ x) = none := by
  rw [Re.read, Option.map_eq_none_iff, sentRe_head hspec] at h ⊢
  obtain ⟨c, cs, hv⟩ := List.exists_cons_of_ne_nil hs
  rw [hv] at h
  rw [List.dropWhile_append, if_neg (by simp [hv]), hv]
  simp only at h
  split at h
  · cases h
  · next hends =>
      show (if endsHere code space ((c :: cs) ++ x) = true then
        some ((runRest code ((c :: cs) ++ x)).dropWhile space) else none) = none
      rw [endsHere_append_of_not (by simpa using hends), if_neg (by simp)]

theorem sent_grows : Grows (sentRe code space fin).read fun _ => True := by
  intro s sk b t x hok h ht
  clear hok
  induction s generalizing sk with
  | nil =>
      have hnone : search (sentRe code space fin).read ([] : List α) = none :=
        (search_eq_none_iff hspec [] false (by simp)).mpr (by simp [runEnds])
      rw [hnone] at h
      cases h
  | cons c cs ih =>
      cases hr : (sentRe code space fin).read (c :: cs) with
      | some r =>
          rw [search_of_match hr, Option.some.injEq, Prod.mk.injEq] at h
          obtain ⟨rfl, rfl⟩ := h
          rw [search_of_match (read_append hspec hr ht x)]
      | none =>
          -- A match further right needs a terminator, so there is one here too.
          have hterm : (c :: cs).dropWhile (fun c => !termSym code c) ≠ [] := by
            intro hnil
            have hruns : runEnds code space false ((c :: cs).dropWhile fun c => !termSym code c) =
              runEnds code space false (c :: cs) := runEnds_to_term _
            rw [hnil] at hruns
            have hnone := (search_eq_none_iff hspec (c :: cs) false (by simp)).mpr
              (by rw [← hruns]; simp [runEnds])
            rw [hnone] at h
            cases h
          have hx := read_append_none hspec hr hterm x
          rw [search_of_no_match hr, Option.map_eq_some_iff] at h
          obtain ⟨⟨sk', r⟩, hr', heq⟩ := h
          simp only [Prod.mk.injEq] at heq
          obtain ⟨rfl, rfl⟩ := heq
          rw [List.cons_append] at hx ⊢
          rw [search_of_no_match hx, ih _ hr']
          rfl

/-- A match read on its own ends a sentence. -/
theorem runEnds_of_value {s b t : List α} (h : (sentRe code space fin).read s = some (b, t)) :
    (runEnds code space false b).head? = some true := by
  have hsplit : s = b ++ t := Re.read_split h
  simp only [Re.read, Option.map_eq_some_iff, Prod.mk.injEq] at h
  obtain ⟨u, hu, -, rfl⟩ := h
  rw [sentRe_head hspec, hsplit, List.dropWhile_append] at hu
  rw [← runEnds_to_term]
  cases hb : b.dropWhile fun c => !termSym code c with
  | nil =>
      -- Without a terminator in it, the match would have been behind itself.
      rw [if_pos (by simp [hb])] at hu
      cases hv : u.dropWhile fun c => !termSym code c with
      | nil => rw [hv] at hu; cases hu
      | cons c cs =>
          rw [hv] at hu
          simp only at hu
          split at hu
          · have hc : termSym code c = true := by
              have hhead := dropWhile_head_not (fun c => !termSym code c) u
              simpa [hv] using hhead
            have hrest : (runRest code (c :: cs)).dropWhile space = u := Option.some.inj hu
            rw [runRest, List.dropWhile_cons_of_pos hc] at hrest
            have h₀ := length_dropWhile_le (fun c => !termSym code c) u
            have h₁ := length_dropWhile_le space
              ((cs.dropWhile (termSym code)).dropWhile (closerSym code))
            have h₂ := length_dropWhile_le (closerSym code) (cs.dropWhile (termSym code))
            have h₃ := length_dropWhile_le (termSym code) cs
            rw [hv, List.length_cons] at h₀
            rw [hrest] at h₁
            omega
          · cases hu
  | cons c cs =>
      have hc : termSym code c = true := by
        have hhead := dropWhile_head_not (fun c => !termSym code c) b
        simpa [hb] using hhead
      rw [if_neg (by simp [hb]), hb, List.cons_append] at hu
      simp only at hu
      split at hu
      · next hends =>
          have hown : endsHere code space (c :: cs) = true := by
            by_contra hno
            rw [← List.cons_append, endsHere_append_of_not (by simpa using hno)] at hends
            cases hends
          simp [runEnds, hc, hown]
      · cases hu

/-! ## White space around a sentence -/

theorem space_facts {c : α} (hc : space c = true) :
    termSym code c = false ∧ closerSym code c = false := by
  refine ⟨?_, ?_⟩
  · by_contra hterm
    rw [hspec.term_not_space (by simpa using hterm)] at hc
    cases hc
  · by_contra hcloser
    rw [hspec.closer_not_space (by simpa using hcloser)] at hc
    cases hc

omit hspec in
theorem runRest_of_nil {v : List α} (h : runRest code v = []) (bl : List α) :
    runRest code (v ++ bl) <:+ bl := by
  rw [runRest] at h
  rw [runRest, List.dropWhile_append]
  split
  · exact (List.dropWhile_suffix _).trans (List.dropWhile_suffix _)
  · rw [List.dropWhile_append, if_pos (by simp [h])]
    exact List.dropWhile_suffix _

omit hspec in
theorem endsHere_append_spaces {bl : List α} (hbl : ∀ c ∈ bl, space c = true) (v : List α) :
    endsHere code space (v ++ bl) = endsHere code space v := by
  by_cases h : runRest code v = []
  · have hown : endsHere code space v = true := by rw [endsHere_eq, h]; rfl
    rw [hown, endsHere_eq, List.all_eq_true]
    intro c hc
    exact hbl c ((runRest_of_nil h bl).subset (List.mem_of_mem_take hc))
  · exact endsHere_append h bl

theorem runEnds_spaces {bl : List α} (hbl : ∀ c ∈ bl, space c = true) (inRun : Bool) :
    runEnds code space inRun bl = [] := by
  induction bl generalizing inRun with
  | nil => rfl
  | cons c cs ih =>
      rw [runEnds, (space_facts hspec (hbl c (by simp))).1, if_neg (by simp)]
      exact ih (fun d hd => hbl d (by simp [hd])) false

theorem runEnds_append_spaces {bl : List α} (hbl : ∀ c ∈ bl, space c = true) (inRun : Bool)
    (s : List α) : runEnds code space inRun (s ++ bl) = runEnds code space inRun s := by
  induction s generalizing inRun with
  | nil => rw [List.nil_append, runEnds_spaces hspec hbl, runEnds]
  | cons c cs ih =>
      have hends : endsHere code space (c :: cs ++ bl) = endsHere code space (c :: cs) :=
        endsHere_append_spaces hbl (c :: cs)
      rw [List.cons_append] at hends ⊢
      simp only [runEnds, ih, hends]

/-- Which runs end a sentence is the same without the white space around. -/
theorem runEnds_strip (s : List α) :
    runEnds code space false ((s.dropWhile space).rdropWhile space) =
      runEnds code space false s := by
  have hsplit : (s.dropWhile space).rdropWhile space ++ (s.dropWhile space).rtakeWhile space =
      s.dropWhile space := List.rdropWhile_append_rtakeWhile
  have htail := runEnds_append_spaces hspec
    (fun c hc => List.mem_rtakeWhile_imp (l := s.dropWhile space) hc) false
      ((s.dropWhile space).rdropWhile space)
  rw [hsplit] at htail
  rw [← htail, runEnds_dropWhile fun c hc => (space_facts hspec hc).1]

end

end VTranser

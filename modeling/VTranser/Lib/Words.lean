import Mathlib.Data.List.DropRight
import Mathlib.Tactic.Common

/-!
# Words of a text

The words of a text are its maximal runs of symbols that are no separators.
`words_induction` walks a text word by word, which is how facts about a function
that treats separators alike are proved; `words_joinWords` says that words
joined by a separator are found again.
-/

namespace VTranser.Words

variable {α : Type*} (p : α → Bool)

/-- The runs of symbols that are not separators. -/
def words (s : List α) : List (List α) := (s.splitOnP p).filter fun w => !w.isEmpty

/-- A run of symbols that are not separators. -/
structure Word (w : List α) : Prop where
  ne_nil : w ≠ []
  not_sep : ∀ c ∈ w, p c = false

/-- Words with one separator between them. -/
def joinWords (b : α) (ws : List (List α)) : List α := [b].intercalate ws

variable {p}

@[simp] theorem words_nil : words p [] = [] := by simp [words]

theorem words_cons_sep {c : α} (hc : p c = true) (cs : List α) : words p (c :: cs) = words p cs := by
  simp [words, List.splitOnP_cons_eq_if_modifyHead, hc]

theorem splitOnP_append_cons {w : List α} (hw : ∀ c ∈ w, p c = false) {c : α} (hc : p c = true)
    (cs : List α) : (w ++ c :: cs).splitOnP p = w :: cs.splitOnP p := by
  induction w with
  | nil => simp [List.splitOnP_cons_eq_if_modifyHead, hc]
  | cons d ds ih =>
      have hd : p d = false := hw d (by simp)
      rw [List.cons_append, List.splitOnP_cons_eq_if_modifyHead, hd,
        ih fun e he => hw e (by simp [he])]
      simp

theorem words_word {w : List α} (hw : Word p w) : words p w = [w] := by
  have hne : w.isEmpty = false := by simpa using hw.ne_nil
  simp [words, List.splitOnP_eq_singleton hw.not_sep, hne]

theorem words_append {w : List α} (hw : Word p w) {c : α} (hc : p c = true) (cs : List α) :
    words p (w ++ c :: cs) = w :: words p (c :: cs) := by
  have hne : w.isEmpty = false := by simpa using hw.ne_nil
  rw [words_cons_sep hc, words, splitOnP_append_cons hw.not_sep hc]
  simp [hne, words]

/-- Walking a text word by word. -/
theorem words_induction {motive : List α → Prop} (nil : motive [])
    (sep : ∀ c cs, p c = true → motive cs → motive (c :: cs))
    (last : ∀ w, Word p w → motive w)
    (word : ∀ w c cs, Word p w → p c = true → motive (c :: cs) → motive (w ++ c :: cs)) :
    ∀ s, motive s := by
  intro s
  induction hn : s.length using Nat.strong_induction_on generalizing s with
  | _ n ih =>
      cases s with
      | nil => exact nil
      | cons c cs =>
          rw [List.length_cons] at hn
          cases hc : p c with
          | true => exact sep c cs hc (ih cs.length (by omega) cs rfl)
          | false =>
              have hsplit := List.takeWhile_append_dropWhile (p := fun d => !p d) (l := c :: cs)
              have htake : (c :: cs).takeWhile (fun d => !p d) ≠ [] := by simp [hc]
              have hw : Word p ((c :: cs).takeWhile fun d => !p d) :=
                ⟨htake, fun d hd => by simpa using List.mem_takeWhile_imp hd⟩
              rw [← hsplit]
              cases hdrop : (c :: cs).dropWhile fun d => !p d with
              | nil =>
                  rw [List.append_nil]
                  exact last _ hw
              | cons d ds =>
                  have hd : p d = true := by
                    have hhead := List.head?_dropWhile_not (fun d => !p d) (c :: cs)
                    rw [hdrop] at hhead
                    simpa using hhead
                  have hlen := congrArg List.length hsplit
                  rw [List.length_append, hdrop, List.length_cons, List.length_cons] at hlen
                  have hpos := List.length_pos_iff.mpr htake
                  refine word _ d ds hw hd (ih (ds.length + 1) (by omega) (d :: ds) rfl)

theorem mem_words {s w : List α} (hw : w ∈ words p s) : Word p w := by
  induction s using words_induction (p := p) with
  | nil => simp at hw
  | sep c cs hc ih => exact ih (by rwa [words_cons_sep hc] at hw)
  | last w' hw' =>
      rw [words_word hw', List.mem_singleton] at hw
      rw [hw]
      exact hw'
  | word w' c cs hw' hc ih =>
      rw [words_append hw' hc, List.mem_cons] at hw
      rcases hw with rfl | hw
      · exact hw'
      · exact ih hw

/-- A change of symbols that leaves words as they are leaves the words. -/
theorem words_map {f : α → α} (hsep : ∀ c, p c = true → p (f c) = true)
    (hword : ∀ c, p c = false → f c = c) (s : List α) : words p (s.map f) = words p s := by
  have hid : ∀ w, Word p w → w.map f = w := fun w hw =>
    (List.map_congr_left fun c hc => hword c (hw.not_sep c hc)).trans (List.map_id w)
  induction s using words_induction (p := p) with
  | nil => rfl
  | sep c cs hc ih => rw [List.map_cons, words_cons_sep (hsep c hc), words_cons_sep hc, ih]
  | last w hw => rw [hid w hw]
  | word w c cs hw hc ih =>
      rw [List.map_append, hid w hw, words_append hw hc, List.map_cons,
        words_append hw (hsep c hc), ← ih, List.map_cons]

theorem words_seps {s : List α} (hs : ∀ c ∈ s, p c = true) : words p s = [] := by
  induction s with
  | nil => exact words_nil
  | cons c cs ih => rw [words_cons_sep (hs c (by simp)), ih fun d hd => hs d (by simp [hd])]

/-- Separators at the end make no word. -/
theorem words_append_seps (s : List α) {t : List α} (ht : ∀ c ∈ t, p c = true) :
    words p (s ++ t) = words p s := by
  induction s using words_induction (p := p) with
  | nil => rw [List.nil_append, words_seps ht, words_nil]
  | sep c cs hc ih => rw [List.cons_append, words_cons_sep hc, words_cons_sep hc, ih]
  | last w hw =>
      cases t with
      | nil => rw [List.append_nil]
      | cons d ds => rw [words_append hw (ht d (by simp)), words_seps ht, words_word hw]
  | word w c cs hw hc ih =>
      rw [List.append_assoc, List.cons_append, words_append hw hc, words_append hw hc,
        ← List.cons_append, ih]

/-- The words are what is left without the separators. -/
theorem words_flatten (s : List α) : (words p s).flatten = s.filter fun c => !p c := by
  induction s using words_induction (p := p) with
  | nil => simp
  | sep c cs hc ih => rw [words_cons_sep hc, ih, List.filter_cons_of_neg (by simp [hc])]
  | last w hw =>
      have hall : w.filter (fun c => !p c) = w :=
        List.filter_eq_self.mpr fun c hc => by simp [hw.not_sep c hc]
      rw [words_word hw, hall, List.flatten_cons, List.flatten_nil, List.append_nil]
  | word w c cs hw hc ih =>
      have hall : w.filter (fun c => !p c) = w :=
        List.filter_eq_self.mpr fun c hc => by simp [hw.not_sep c hc]
      rw [words_append hw hc, List.flatten_cons, ih, List.filter_append, hall]

theorem words_dropWhile (s : List α) : words p (s.dropWhile p) = words p s := by
  induction s with
  | nil => rfl
  | cons c cs ih =>
      rw [List.dropWhile_cons]
      split
      · next hc => rw [ih, words_cons_sep hc]
      · rfl

theorem words_rdropWhile (s : List α) : words p (s.rdropWhile p) = words p s := by
  have hsplit : s.rdropWhile p ++ s.rtakeWhile p = s := List.rdropWhile_append_rtakeWhile
  conv_rhs => rw [← hsplit]
  exact (words_append_seps _ fun c hc => List.mem_rtakeWhile_imp hc).symm

section Join

variable {b : α}

@[simp] theorem joinWords_nil : joinWords b [] = [] := rfl

@[simp] theorem joinWords_singleton (w : List α) : joinWords b [w] = w := by simp [joinWords]

theorem joinWords_cons_cons (w v : List α) (ws : List (List α)) :
    joinWords b (w :: v :: ws) = w ++ b :: joinWords b (v :: ws) := by simp [joinWords]

theorem joinWords_eq_nil {ws : List (List α)} (hws : ∀ w ∈ ws, Word p w) :
    joinWords b ws = [] ↔ ws = [] := by
  match ws with
  | [] => simp
  | [w] => simpa using (hws w (by simp)).ne_nil
  | w :: v :: ws => simp [joinWords_cons_cons]

theorem mem_joinWords {ws : List (List α)} {c : α} (h : c ∈ joinWords b ws) :
    c = b ∨ ∃ w ∈ ws, c ∈ w := by
  induction ws with
  | nil => simp at h
  | cons w ws ih =>
      cases ws with
      | nil => exact Or.inr ⟨w, by simp, by simpa using h⟩
      | cons v vs =>
          rw [joinWords_cons_cons, List.mem_append, List.mem_cons] at h
          rcases h with h | h | h
          · exact Or.inr ⟨w, by simp, h⟩
          · exact Or.inl h
          · rcases ih h with h | ⟨u, hu, hcu⟩
            · exact Or.inl h
            · exact Or.inr ⟨u, by simp [hu], hcu⟩

theorem words_joinWords (hb : p b = true) {ws : List (List α)} (hws : ∀ w ∈ ws, Word p w) :
    words p (joinWords b ws) = ws := by
  induction ws with
  | nil => simp
  | cons w ws ih =>
      have hw := hws w (by simp)
      cases ws with
      | nil => rw [joinWords_singleton, words_word hw]
      | cons v vs =>
          rw [joinWords_cons_cons, words_append hw hb, words_cons_sep hb,
            ih fun u hu => hws u (by simp [hu])]

/-- Joined words do not end with a separator. -/
theorem rdropWhile_joinWords {ws : List (List α)} (hws : ∀ w ∈ ws, Word p w) :
    (joinWords b ws).rdropWhile p = joinWords b ws := by
  rw [List.rdropWhile_eq_self_iff]
  induction ws with
  | nil => intro hne; exact absurd rfl hne
  | cons w ws ih =>
      have hw := hws w (by simp)
      cases ws with
      | nil =>
          intro hne
          rw [joinWords_singleton] at hne
          simp [hw.not_sep _ (List.getLast_mem hne)]
      | cons v vs =>
          intro hne
          have hrest : ∀ u ∈ v :: vs, Word p u := fun u hu => hws u (by simp [hu])
          have hnil : joinWords b (v :: vs) ≠ [] := by simp [joinWords_eq_nil hrest]
          have hlast := ih hrest hnil
          simpa only [joinWords_cons_cons, List.getLast_append_of_ne_nil _ (List.cons_ne_nil _ _),
            List.getLast_cons hnil] using hlast

/-- Joined words can only be cut at a separator between two of them. -/
theorem joinWords_split (hb : p b = true) {ws : List (List α)} (hws : ∀ w ∈ ws, Word p w)
    {s t : List α} (h : joinWords b ws = s ++ b :: t) :
    ∃ us vs, ws = us ++ vs ∧ (us ≠ [] ∧ joinWords b us = s) ∧ vs ≠ [] ∧ joinWords b vs = t := by
  induction ws generalizing s with
  | nil => simp at h
  | cons w ws ih =>
      have hsep : b ∉ w := by
        intro hmem
        have hno := (hws w (by simp)).not_sep b hmem
        rw [hb] at hno
        cases hno
      cases ws with
      | nil =>
          rw [joinWords_singleton] at h
          exact absurd (h ▸ by simp) hsep
      | cons v vs =>
          rw [joinWords_cons_cons, List.append_eq_append_iff] at h
          rcases h with ⟨a, rfl, h⟩ | ⟨c, rfl, h⟩
          · cases a with
            | nil =>
                rw [List.nil_append, List.cons.injEq] at h
                exact ⟨[w], v :: vs, rfl, ⟨by simp, by simp⟩, by simp, h.2⟩
            | cons d a =>
                rw [List.cons_append, List.cons.injEq] at h
                obtain ⟨rfl, h⟩ := h
                obtain ⟨us, vs', heq, ⟨hne, rfl⟩, hvs⟩ := ih (fun u hu => hws u (by simp [hu])) h
                refine ⟨w :: us, vs', by rw [heq, List.cons_append], ⟨by simp, ?_⟩, hvs⟩
                obtain ⟨u, us, rfl⟩ := List.exists_cons_of_ne_nil hne
                exact joinWords_cons_cons w u us
          · cases c with
            | nil =>
                rw [List.nil_append, List.cons.injEq] at h
                exact ⟨[s], v :: vs, by simp, ⟨by simp, by simp⟩, by simp, h.2.symm⟩
            | cons d c =>
                rw [List.cons_append, List.cons.injEq] at h
                exact absurd (by simp [h.1]) hsep

end Join

end VTranser.Words

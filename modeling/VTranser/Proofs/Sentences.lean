import VTranser.Sentences

/-!
# Which texts the sentence splitters keep whole

A match cannot stop inside a run of terminators or closing quotes, because
neither is white space; so the pattern has at most one way to match from a
place, and it does when the first run of terminators is followed, behind its
closing quotes, by white space or the end of the text (`sentRe_rests`). When it
is not, as in a decimal or an address, the search restarts further right and
what it passed over is in no sentence.

If no later run ends a sentence either, the loop stops and the passed-over text
is in the tail, so nothing is lost. `runEnds` lists the terminator runs of a
text by whether they end a sentence, and `split_lossless_iff` reads the answer
off it: the text is kept exactly when no run that ends a sentence comes after
one that does not.
-/

namespace VTranser

open Regex

section

variable {α : Type*} (code : α → Nat) (space : α → Bool)

/-- Whether the terminator run at the head ends a sentence: behind it and its
closing quotes is white space or nothing. -/
def endsHere (v : List α) : Bool :=
  (((v.dropWhile (termSym code)).dropWhile (closerSym code)).take 1).all space

/-- The terminator runs of a text from left to right, each by whether it ends a
sentence. The flag says that the text starts inside a run. -/
def runEnds : Bool → List α → List Bool
  | _, [] => []
  | inRun, c :: cs =>
      if termSym code c then
        if inRun then runEnds true cs
        else endsHere code space (c :: cs) :: runEnds true cs
      else runEnds false cs

/-- No run ends a sentence after one that runs on into the text. -/
def noEndAfterRunOn (bs : List Bool) : Bool := (bs.dropWhile id).all not

/-- What the pattern needs of its language: terminators, closing quotes and
white space are disjoint, and the last group takes the white space or the end
of the text. -/
structure SentSpec (fin : Re α) : Prop where
  term_not_space : ∀ {c}, termSym code c = true → space c = false
  closer_not_space : ∀ {c}, closerSym code c = true → space c = false
  fin_nil : (fin.rests []).head? = some []
  fin_cons : ∀ {c cs}, space c = false → fin.rests (c :: cs) = []

variable {code space}

theorem term_not_closer {c : α} (h : termSym code c = true) : closerSym code c = false := by
  simp only [termSym, isTerm, List.contains_eq_mem, List.mem_cons, List.not_mem_nil, or_false,
    decide_eq_true_eq] at h
  rcases h with h | h | h | h <;> simp [closerSym, isCloser, h]

variable {fin : Re α} (hspec : SentSpec code space fin)
include hspec

theorem sep_rests_of_not {c : α} {cs : List α} (hc : space c = false) :
    (Re.alt (.plus space) fin).rests (c :: cs) = [] := by
  rw [Re.rests, plus_rests_of_not hc, hspec.fin_cons hc]
  rfl

/-- The last group matches at white space and at the end, and nowhere else. -/
theorem sep_rests_head (d : List α) :
    ((Re.alt (.plus space) fin).rests d).head? =
      if (d.take 1).all space then some (d.dropWhile space) else none := by
  cases d with
  | nil => rw [Re.rests, plus_rests_nil, List.nil_append, hspec.fin_nil]; rfl
  | cons c cs =>
      cases hc : space c with
      | true =>
          rw [Re.rests, List.head?_append, plus_rests_head hc]
          simp [hc]
      | false =>
          rw [sep_rests_of_not hspec hc]
          simp [hc]

theorem closer_sep_rests (w : List α) :
    (Re.seq (.opt (.plus (closerSym code))) (.alt (.plus space) fin)).rests w =
      (Re.alt (.plus space) fin).rests (w.dropWhile (closerSym code)) := by
  simp only [Re.opt]
  rw [Re.rests, Re.rests, Re.rests, List.flatMap_append]
  simp only [List.flatMap_cons, List.flatMap_nil, List.append_nil]
  cases w with
  | nil => rw [plus_rests_nil]; rfl
  | cons c cs =>
      cases hc : closerSym code c with
      | true =>
          rw [plus_flatMap_cons (fun _ _ h => sep_rests_of_not hspec (hspec.closer_not_space h)) hc,
            sep_rests_of_not hspec (hspec.closer_not_space hc), List.append_nil,
            List.dropWhile_cons_of_pos hc]
      | false =>
          rw [plus_rests_of_not hc, List.flatMap_nil, List.nil_append,
            List.dropWhile_cons_of_neg (by simp [hc])]

/-- The pattern never needs to backtrack: from a place it matches at the first
terminator run or not at all. -/
theorem sentRe_rests (s : List α) :
    (sentRe code space fin).rests s =
      match s.dropWhile fun c => !termSym code c with
      | [] => []
      | v => (Re.alt (.plus space) fin).rests
          ((v.dropWhile (termSym code)).dropWhile (closerSym code)) := by
  rw [sentRe, Re.rests, Re.rests, starRests_flatMap]
  · cases hv : s.dropWhile fun c => !termSym code c with
    | nil => rw [Re.rests, plus_rests_nil]; rfl
    | cons c cs =>
        have hc : termSym code c = true := by
          have := dropWhile_head_not (fun c => !termSym code c) s
          simpa [hv] using this
        rw [Re.rests, plus_flatMap_cons _ hc, closer_sep_rests hspec]
        · simp only [List.dropWhile_cons_of_pos hc]
        · intro d t hd
          rw [closer_sep_rests hspec,
            List.dropWhile_cons_of_neg (by simp [term_not_closer hd])]
          exact sep_rests_of_not hspec (hspec.term_not_space hd)
  · intro c t hc
    rw [Re.rests, plus_rests_of_not (by simpa using hc), List.flatMap_nil]

/-- The first match from a place: there is one when the first terminator run
ends a sentence, and it leaves what is behind the white space. -/
theorem sentRe_head (s : List α) :
    ((sentRe code space fin).rests s).head? =
      match s.dropWhile fun c => !termSym code c with
      | [] => none
      | v => if endsHere code space v then
          some ((((v.dropWhile (termSym code)).dropWhile (closerSym code))).dropWhile space)
        else none := by
  rw [sentRe_rests hspec]
  cases s.dropWhile fun c => !termSym code c with
  | nil => rfl
  | cons c cs => exact sep_rests_head hspec _

omit hspec in
theorem length_dropWhile_le (p : α → Bool) (l : List α) : (l.dropWhile p).length ≤ l.length :=
  (List.dropWhile_suffix p).length_le

theorem sent_reads : Reads (sentRe code space fin).read id where
  split h := Re.read_split h
  pos {s b t} h := by
    have hsplit := Re.read_split h
    simp only [Re.read, Option.map_eq_some_iff, Prod.mk.injEq] at h
    obtain ⟨u, hu, -, rfl⟩ := h
    rw [sentRe_head hspec] at hu
    rintro rfl
    -- The rest is shorter than the text from its first terminator on.
    have hlen := length_dropWhile_le (fun c => !termSym code c) s
    cases hv : s.dropWhile fun c => !termSym code c with
    | nil => rw [hv] at hu; cases hu
    | cons c cs =>
        rw [hv] at hu hlen
        simp only at hu
        split at hu
        · injection hu with hu
          have hc : termSym code c = true := by
            have := dropWhile_head_not (fun c => !termSym code c) s
            simpa [hv] using this
          have h₁ := length_dropWhile_le space
            ((cs.dropWhile (termSym code)).dropWhile (closerSym code))
          have h₂ := length_dropWhile_le (closerSym code) (cs.dropWhile (termSym code))
          have h₃ := length_dropWhile_le (termSym code) cs
          rw [List.dropWhile_cons_of_pos hc] at hu
          rw [hu] at h₁
          have hs := congrArg List.length hsplit
          simp only [List.nil_append] at hs
          simp only [List.length_cons] at hlen
          omega
        · cases hu

omit hspec in
theorem endsHere_cons {c : α} (hc : termSym code c = true) (cs : List α) :
    endsHere code space (c :: cs) = endsHere code space cs := by
  rw [endsHere, endsHere, List.dropWhile_cons_of_pos hc]

omit hspec in
theorem runEnds_dropWhile {p : α → Bool} (hp : ∀ c, p c = true → termSym code c = false)
    (s : List α) : runEnds code space false (s.dropWhile p) = runEnds code space false s := by
  induction s with
  | nil => rfl
  | cons c cs ih =>
      cases hc : p c with
      | true =>
          rw [List.dropWhile_cons_of_pos hc, ih]
          conv_rhs => rw [runEnds, if_neg (by simp [hp c hc])]
      | false => rw [List.dropWhile_cons_of_neg (by simp [hc])]

omit hspec in
theorem runEnds_to_term (s : List α) :
    runEnds code space false (s.dropWhile fun c => !termSym code c) =
      runEnds code space false s :=
  runEnds_dropWhile (by simp) s

omit hspec in
theorem runEnds_in_run (s : List α) :
    runEnds code space true s = runEnds code space false (s.dropWhile (termSym code)) := by
  induction s with
  | nil => rfl
  | cons c cs ih =>
      rw [runEnds]
      cases hc : termSym code c with
      | true => rw [if_pos rfl, if_pos rfl, ih, List.dropWhile_cons_of_pos hc]
      | false =>
          rw [if_neg (by simp), List.dropWhile_cons_of_neg (by simp [hc]), runEnds,
            if_neg (by simp [hc])]

/-- Whether there is a match from a place. -/
theorem read_eq_none_iff (s : List α) :
    (sentRe code space fin).read s = none ↔
      ∀ b ∈ (runEnds code space false s).head?, b = false := by
  rw [← runEnds_to_term, Re.read,
    Option.map_eq_none_iff, sentRe_head hspec]
  cases hv : s.dropWhile fun c => !termSym code c with
  | nil => simp [runEnds]
  | cons c cs =>
      have hc : termSym code c = true := by
        have := dropWhile_head_not (fun c => !termSym code c) s
        simpa [hv] using this
      simp [runEnds, hc]

/-- A match from a place takes the first terminator run and leaves the rest. -/
theorem runEnds_of_read {s b t : List α}
    (h : (sentRe code space fin).read s = some (b, t)) :
    runEnds code space false s = true :: runEnds code space false t := by
  simp only [Re.read, Option.map_eq_some_iff, Prod.mk.injEq] at h
  obtain ⟨u, hu, -, rfl⟩ := h
  rw [sentRe_head hspec] at hu
  rw [← runEnds_to_term]
  cases hv : s.dropWhile fun c => !termSym code c with
  | nil => rw [hv] at hu; cases hu
  | cons c cs =>
      have hc : termSym code c = true := by
        have := dropWhile_head_not (fun c => !termSym code c) s
        simpa [hv] using this
      rw [hv] at hu
      simp only at hu
      split at hu
      · next hends =>
          injection hu with hu
          have hspace : ∀ d, space d = true → termSym code d = false := by
            intro d hd
            by_contra hterm
            rw [hspec.term_not_space (by simpa using hterm)] at hd
            cases hd
          have hcloser : ∀ d, closerSym code d = true → termSym code d = false := by
            intro d hd
            by_contra hterm
            rw [term_not_closer (by simpa using hterm)] at hd
            cases hd
          rw [runEnds, if_pos hc, if_neg (by simp), hends, runEnds_in_run, ← hu,
            runEnds_dropWhile hspace, runEnds_dropWhile hcloser,
            List.dropWhile_cons_of_pos hc]
      · cases hu

/-- The search fails exactly when no run ends a sentence. Inside a run that
runs on, it goes on failing to the end of the run. -/
theorem search_eq_none_iff (s : List α) : ∀ inRun : Bool,
    (inRun = true → (s.take 1).all (termSym code) = true → s ≠ [] →
      endsHere code space s = false) →
    (search (sentRe code space fin).read s = none ↔
      ∀ b ∈ runEnds code space inRun s, b = false) := by
  induction s with
  | nil =>
      intro inRun _
      have hread := (read_eq_none_iff hspec []).mpr (by simp [runEnds])
      simp [search, hread, runEnds]
  | cons c cs ih =>
      intro inRun hrun
      cases hc : termSym code c with
      | true =>
          have hends : endsHere code space (c :: cs) = endsHere code space cs :=
            endsHere_cons hc cs
          have hfail : endsHere code space (c :: cs) = false →
              (search (sentRe code space fin).read (c :: cs) = none ↔
                ∀ b ∈ runEnds code space true cs, b = false) := by
            intro hno
            have hread := (read_eq_none_iff hspec (c :: cs)).mpr (by simp [runEnds, hc, hno])
            rw [search_of_no_match hread, Option.map_eq_none_iff]
            exact ih true fun _ _ _ => by rw [← hends, hno]
          cases inRun with
          | true =>
              rw [runEnds, if_pos hc, if_pos rfl]
              exact hfail (hrun rfl (by simp [hc]) (by simp))
          | false =>
              rw [runEnds, if_pos hc, if_neg (by simp)]
              cases hno : endsHere code space (c :: cs) with
              | false => simpa using hfail hno
              | true =>
                  have hread : (sentRe code space fin).read (c :: cs) ≠ none := by
                    rw [Ne, read_eq_none_iff hspec]
                    simp [runEnds, hc, hno]
                  obtain ⟨r, hr⟩ := Option.ne_none_iff_exists'.mp hread
                  rw [search_of_match hr]
                  simp
      | false =>
          rw [runEnds, if_neg (by simp [hc])]
          have hsame : runEnds code space false (c :: cs) = runEnds code space false cs := by
            rw [runEnds, if_neg (by simp [hc])]
          rw [← ih false (by simp)]
          cases hr : (sentRe code space fin).read (c :: cs) with
          | none => rw [search_of_no_match hr, Option.map_eq_none_iff]
          | some r =>
              have hcs : (sentRe code space fin).read cs ≠ none := by
                rw [Ne, read_eq_none_iff hspec, ← hsame, ← read_eq_none_iff hspec, hr]
                simp
              obtain ⟨q, hq⟩ := Option.ne_none_iff_exists'.mp hcs
              rw [search_of_match hr, search_of_match hq]
              simp

/-- The sentences and the tail concatenate to the text exactly when no run that
ends a sentence comes after one that runs on. -/
theorem split_lossless_iff (s : List α) :
    (splitWith (sentRe code space fin) s).1.flatten ++
        (splitWith (sentRe code space fin) s).2 = s ↔
      noEndAfterRunOn (runEnds code space false s) = true := by
  have hreads := sent_reads hspec
  have hflat : ∀ hs : List (Hit α (List α)),
      (hs.map Hit.value).flatten = hs.flatMap fun h => id h.value := by
    intro hs
    rw [List.flatMap_def]
    rfl
  simp only [splitWith]
  rw [hflat, scan_lossless_iff hreads]
  refine scan_induction hreads (motive := fun s =>
    (∀ h ∈ (scan (sentRe code space fin).read s).1, h.skipped = []) ↔
      noEndAfterRunOn (runEnds code space false s) = true) ?_ ?_ s
  · intro s hs
    have hall := (search_eq_none_iff hspec s false (by simp)).mp hs
    rw [scan_none hs]
    refine iff_of_true (by simp) ?_
    rw [noEndAfterRunOn, List.all_eq_true]
    intro b hb
    simp [hall b ((List.dropWhile_suffix _).subset hb)]
  · intro s sk b t hs ih
    rw [scan_some hreads hs, List.forall_mem_cons, ih]
    cases hread : (sentRe code space fin).read s with
    | some r =>
        rw [search_of_match hread] at hs
        simp only [Option.some.injEq, Prod.mk.injEq] at hs
        obtain ⟨rfl, rfl⟩ := hs
        rw [runEnds_of_read hspec hread, noEndAfterRunOn, noEndAfterRunOn]
        simp
    | none =>
        have hsk : sk ≠ [] := by
          rintro rfl
          rw [search_nil_skipped hs] at hread
          cases hread
        have hhead := (read_eq_none_iff hspec s).mp hread
        have hsome : ¬ ∀ b ∈ runEnds code space false s, b = false := by
          rw [← search_eq_none_iff hspec s false (by simp), hs]
          simp
        refine iff_of_false (fun h => hsk h.1) fun h => hsome ?_
        cases hruns : runEnds code space false s with
        | nil => simp
        | cons x xs =>
            rw [hruns] at hhead h
            have hx : x = false := hhead x (by simp)
            subst hx
            simpa [noEndAfterRunOn] using h

end

/-! ## The three splitters -/

theorem code_not_space_of_mem {l : List Nat} (p : Nat → Bool) (h : l.all fun n => !p n) {n : Nat}
    (hn : l.contains n = true) : p n = false := by
  rw [List.all_eq_true] at h
  simpa using h n (by simpa using hn)

/-- The pattern of the server: `$` also matches before a last newline, but the
white space group has taken that newline already. -/
theorem server_sentSpec : SentSpec Char.toNat (onChar pySpace) pyEnd where
  term_not_space h := code_not_space_of_mem pySpace (by decide) h
  closer_not_space h := code_not_space_of_mem pySpace (by decide) h
  fin_nil := by decide
  fin_cons {c cs} hc := by
    have hnl : onChar (· == 0x0A) c = false := by
      cases h : onChar (· == 0x0A) c with
      | false => rfl
      | true =>
          simp only [onChar, beq_iff_eq] at h
          simp [onChar, h, pySpace] at hc
    simp [pyEnd, Re.rests, hnl]

theorem browser_sentSpec : SentSpec UInt16.toNat (onUnit jsSpace) jsEnd where
  term_not_space h := code_not_space_of_mem jsSpace (by decide) h
  closer_not_space h := code_not_space_of_mem jsSpace (by decide) h
  fin_nil := by decide
  fin_cons _ := rfl

/-- A splitter gives back the text it was given. -/
def Rejoins {α : Type*} (split : List α → List (List α) × List α) (s : List α) : Prop :=
  (split s).1.flatten ++ (split s).2 = s

/-- Each splitter loses text exactly when a terminator run that runs on into the
text comes before one that ends a sentence. -/
theorem splitters_rejoin_iff (s : PyStr) (t : JsStr) :
    (Rejoins Server.splitSentencesAndTail s ↔
        noEndAfterRunOn (runEnds Char.toNat (onChar pySpace) false s) = true) ∧
      (Rejoins Overlay.splitSentencesAndTail t ↔
        noEndAfterRunOn (runEnds UInt16.toNat (onUnit jsSpace) false t) = true) ∧
      (Rejoins Panel.splitSentencesAndTail t ↔
        noEndAfterRunOn (runEnds UInt16.toNat (onUnit jsSpace) false t) = true) :=
  ⟨split_lossless_iff server_sentSpec s, split_lossless_iff browser_sentSpec t,
    split_lossless_iff browser_sentSpec t⟩

/-- `3.14 is pi.`: the search starts again behind the point of the decimal, and
the `3.` before it is in no sentence. -/
theorem splitters_lose_decimal :
    ¬ Rejoins Server.splitSentencesAndTail "3.14 is pi.".toList ∧
      ¬ Rejoins Overlay.splitSentencesAndTail (PyStr.toJs "3.14 is pi.".toList) ∧
      ¬ Rejoins Panel.splitSentencesAndTail (PyStr.toJs "3.14 is pi.".toList) := by
  refine ⟨?_, ?_, ?_⟩ <;> rw [Rejoins] <;> decide

end VTranser

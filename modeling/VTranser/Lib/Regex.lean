import Mathlib.Data.List.Infix

/-!
# Backtracking regular expressions and the loops that scan with them

A backtracking engine tries the ways of matching a pattern in one fixed order
and keeps the first that succeeds. Here that order is the meaning: `Re.rests`
lists what is left of the subject after every way of matching, the preferred
one first, and a match is the head of the list. A greedy star puts the longest
run first, a lazy one the shortest, and a sequence is a `flatMap`, so that
backtracking into the left factor is the list going on to its next element.

The scanning loops (`finditer` in one language, `exec` with a sticky end in
another) are `scan`: search for the leftmost match, record what was skipped
before it, go on after it. The loop runs on fuel which is bookkeeping only:
`scanFuel_congr` says that any two fuels above the length of the subject agree,
and `scan_none` and `scan_some` are the two equations everything else uses.

What a scan keeps of its subject is `scan_rejoin`: skipped pieces, matched
pieces and tail, put back in order, are the subject. A caller that throws the
skipped pieces away therefore loses text exactly when one of them is nonempty
(`scan_lossless_iff`).
-/

namespace VTranser.Regex

variable {α β : Type*}

/-- Patterns over symbol classes. Loops range over single symbols, which is
all that `[..]*`, `[..]+` and their lazy forms need. -/
inductive Re (α : Type*) where
  | eps
  | eos
  | cls (p : α → Bool)
  | star (p : α → Bool)
  | lazy (p : α → Bool)
  | seq (r s : Re α)
  | alt (r s : Re α)
  | look (r : Re α)

/-- What is left after a greedy run of `p`, longest run first. -/
def starRests (p : α → Bool) : List α → List (List α)
  | [] => [[]]
  | c :: cs => if p c then starRests p cs ++ [c :: cs] else [c :: cs]

/-- What is left after a lazy run of `p`, shortest run first. -/
def lazyRests (p : α → Bool) : List α → List (List α)
  | [] => [[]]
  | c :: cs => if p c then (c :: cs) :: lazyRests p cs else [c :: cs]

/-- What is left of the subject after each way of matching, preferred first. -/
def Re.rests : Re α → List α → List (List α)
  | .eps, s => [s]
  | .eos, s => if s.isEmpty then [s] else []
  | .cls _, [] => []
  | .cls p, c :: cs => if p c then [cs] else []
  | .star p, s => starRests p s
  | .lazy p, s => lazyRests p s
  | .seq r t, s => (r.rests s).flatMap t.rests
  | .alt r t, s => r.rests s ++ t.rests s
  | .look r, s => if (r.rests s).isEmpty then [] else [s]

/-- `[..]+`, greedy. -/
def Re.plus (p : α → Bool) : Re α := .seq (.cls p) (.star p)

/-- `[..]+?`. -/
def Re.lazyPlus (p : α → Bool) : Re α := .seq (.cls p) (.lazy p)

/-- `(?:..)?`, greedy. -/
def Re.opt (r : Re α) : Re α := .alt r .eps

/-! ## Runs of a class -/

/-- When what follows cannot start inside the run, backtracking into a greedy
run never helps. -/
theorem starRests_flatMap {p : α → Bool} {k : List α → List β}
    (hk : ∀ c t, p c = true → k (c :: t) = []) (s : List α) :
    (starRests p s).flatMap k = k (s.dropWhile p) := by
  induction s with
  | nil => simp [starRests]
  | cons c cs ih =>
      rw [starRests]
      cases hp : p c with
      | true =>
          rw [if_pos rfl, List.flatMap_append, ih, List.dropWhile_cons_of_pos hp]
          simp [hk c cs hp]
      | false =>
          rw [if_neg (by simp), List.dropWhile_cons_of_neg (by simp [hp])]
          simp

theorem plus_flatMap_cons {p : α → Bool} {k : List α → List β}
    (hk : ∀ c t, p c = true → k (c :: t) = []) {c : α} {cs : List α}
    (hc : p c = true) :
    ((Re.plus p).rests (c :: cs)).flatMap k = k (cs.dropWhile p) := by
  simp only [Re.plus, Re.rests, if_pos hc, List.flatMap_cons, List.flatMap_nil,
    List.append_nil]
  exact starRests_flatMap hk cs

theorem plus_rests_of_not {p : α → Bool} {c : α} {cs : List α}
    (hc : p c = false) : (Re.plus p).rests (c :: cs) = [] := by
  simp [Re.plus, Re.rests, hc]

theorem plus_rests_nil {p : α → Bool} : (Re.plus p).rests [] = [] := by
  simp [Re.plus, Re.rests]

theorem starRests_head (p : α → Bool) (s : List α) :
    (starRests p s).head? = some (s.dropWhile p) := by
  induction s with
  | nil => rfl
  | cons c cs ih =>
      rw [starRests]
      cases hp : p c with
      | true => rw [if_pos rfl, List.head?_append, ih, List.dropWhile_cons_of_pos hp]; rfl
      | false =>
          rw [if_neg (by simp), List.dropWhile_cons_of_neg (by simp [hp])]
          rfl

theorem plus_rests_head {p : α → Bool} {c : α} {cs : List α} (hc : p c = true) :
    ((Re.plus p).rests (c :: cs)).head? = some (cs.dropWhile p) := by
  simp only [Re.plus, Re.rests, if_pos hc, List.flatMap_cons, List.flatMap_nil,
    List.append_nil]
  exact starRests_head p cs

theorem starRests_suffix {p : α → Bool} {s t : List α} (h : t ∈ starRests p s) :
    t <:+ s := by
  induction s with
  | nil => simp only [starRests, List.mem_singleton] at h; rw [h]
  | cons c cs ih =>
      rw [starRests] at h
      split at h
      · rcases List.mem_append.mp h with h | h
        · exact (ih h).trans (List.suffix_cons c cs)
        · rw [List.mem_singleton.mp h]
      · rw [List.mem_singleton.mp h]

theorem plus_rests_length {p : α → Bool} {s t : List α} (h : t ∈ (Re.plus p).rests s) :
    t.length < s.length := by
  cases s with
  | nil => rw [plus_rests_nil] at h; cases h
  | cons c cs =>
      simp only [Re.plus, Re.rests] at h
      split at h
      · simp only [List.flatMap_cons, List.flatMap_nil, List.append_nil] at h
        exact Nat.lt_succ_of_le (starRests_suffix h).length_le
      · cases h

theorem lazyRests_suffix {p : α → Bool} {s t : List α} (h : t ∈ lazyRests p s) :
    t <:+ s := by
  induction s with
  | nil => simp only [lazyRests, List.mem_singleton] at h; rw [h]
  | cons c cs ih =>
      rw [lazyRests] at h
      split at h
      · rcases List.mem_cons.mp h with rfl | h
        · exact List.suffix_refl _
        · exact (ih h).trans (List.suffix_cons c cs)
      · rw [List.mem_singleton.mp h]

/-- A match leaves a suffix of the subject, whatever the pattern. -/
theorem Re.rests_suffix (r : Re α) : ∀ {s t : List α}, t ∈ r.rests s → t <:+ s := by
  induction r with
  | eps => intro s t h; simp only [Re.rests, List.mem_singleton] at h; rw [h]
  | eos =>
      intro s t h
      rw [Re.rests] at h
      split at h
      · rw [List.mem_singleton.mp h]
      · cases h
  | cls p =>
      intro s t h
      cases s with
      | nil => cases h
      | cons c cs =>
          rw [Re.rests] at h
          split at h
          · rw [List.mem_singleton.mp h]; exact List.suffix_cons c cs
          · cases h
  | star p => intro s t h; exact starRests_suffix h
  | lazy p => intro s t h; exact lazyRests_suffix h
  | seq r q ihr ihq =>
      intro s t h
      rw [Re.rests, List.mem_flatMap] at h
      obtain ⟨u, hu, ht⟩ := h
      exact (ihq ht).trans (ihr hu)
  | alt r q ihr ihq =>
      intro s t h
      rw [Re.rests, List.mem_append] at h
      rcases h with h | h
      · exact ihr h
      · exact ihq h
  | look r _ =>
      intro s t h
      rw [Re.rests] at h
      split at h
      · cases h
      · rw [List.mem_singleton.mp h]

/-! ## Scanning -/

/-- What was read, from what is left. -/
theorem take_sub_length {s u t : List α} (h : s = u ++ t) :
    s.take (s.length - t.length) = u := by
  rw [h, List.length_append, Nat.add_sub_cancel, List.take_left]

/-- A run ends where its class ends. -/
theorem dropWhile_head_not (p : α → Bool) (s : List α) :
    ((s.dropWhile p).take 1).all (fun c => !p c) = true := by
  induction s with
  | nil => rfl
  | cons c cs ih =>
      cases hc : p c with
      | true => rw [List.dropWhile_cons_of_pos hc]; exact ih
      | false => rw [List.dropWhile_cons_of_neg (by simp [hc])]; simp [hc]

/-- One attempt at the head of the subject: what was read, and what is left. -/
abbrev Matcher (α β : Type*) := List α → Option (β × List α)

/-- The preferred match of a pattern, with the text it covers. -/
def Re.read (r : Re α) : Matcher α (List α) := fun s =>
  (r.rests s).head?.map fun t => (s.take (s.length - t.length), t)

/-- The preferred match of two groups in sequence, with the text of each. -/
def readPair (r q : Re α) : Matcher α (List α × List α) := fun s =>
  (r.rests s).findSome? fun t => (q.rests t).head?.map fun u =>
    ((s.take (s.length - t.length), t.take (t.length - u.length)), u)

/-- When the second group always matches, the first one is read as if alone. -/
theorem readPair_of_total (r : Re α) {q : Re α} {f : List α → List α}
    (hq : ∀ t, (q.rests t).head? = some (f t)) (s : List α) :
    readPair r q s = (r.rests s).head?.map fun t =>
      ((s.take (s.length - t.length), t.take (t.length - (f t).length)), f t) := by
  cases hr : r.rests s with
  | nil => simp [readPair, hr]
  | cons t ts => simp [readPair, hr, hq]

/-- When the second group matches at most one way, the first one that it lets
pass is read. -/
theorem readPair_of_test (r : Re α) {q : Re α} (ok : List α → Bool) {f : List α → List α}
    {s : List α} (hq : ∀ t ∈ r.rests s, (q.rests t).head? = if ok t then some (f t) else none) :
    readPair r q s = ((r.rests s).flatMap fun t => if ok t then [t] else []).head?.map fun t =>
      ((s.take (s.length - t.length), t.take (t.length - (f t).length)), f t) := by
  rw [readPair]
  generalize r.rests s = l at hq ⊢
  induction l with
  | nil => rfl
  | cons t ts ih =>
      rw [List.findSome?_cons, List.flatMap_cons, hq t (by simp)]
      cases h : ok t with
      | true => rfl
      | false =>
          rw [if_neg (by simp), if_neg (by simp), List.nil_append]
          exact ih fun u hu => hq u (by simp [hu])

/-- The leftmost match: what it skips, what it reads, what is left. -/
def search (m : Matcher α β) : List α → Option (List α × β × List α)
  | [] => (m []).map fun r => ([], r)
  | c :: cs =>
      match m (c :: cs) with
      | some r => some ([], r)
      | none => (search m cs).map fun r => (c :: r.1, r.2)

/-- A match found by a scan, after the text skipped to reach it. -/
structure Hit (α β : Type*) where
  skipped : List α
  value : β

def scanFuel (m : Matcher α β) : Nat → List α → List (Hit α β) × List α
  | 0, s => ([], s)
  | n + 1, s =>
      match search m s with
      | none => ([], s)
      | some (sk, b, t) =>
          let out := scanFuel m n t
          (⟨sk, b⟩ :: out.1, out.2)

/-- Every match from left to right, and the text after the last one. -/
def scan (m : Matcher α β) (s : List α) : List (Hit α β) × List α :=
  scanFuel m (s.length + 1) s

/-- A matcher that reads its text off the front of the subject and never
matches nothing. -/
structure Reads (m : Matcher α β) (text : β → List α) : Prop where
  split : ∀ {s b t}, m s = some (b, t) → s = text b ++ t
  pos : ∀ {s b t}, m s = some (b, t) → text b ≠ []

section Scan

variable {m : Matcher α β} {text : β → List α}

theorem search_nil_skipped {s : List α} {b : β} {t : List α}
    (h : search m s = some ([], b, t)) : m s = some (b, t) := by
  cases s with
  | nil =>
      simp only [search, Option.map_eq_some_iff, Prod.mk.injEq] at h
      obtain ⟨r, hr, -, rfl⟩ := h
      exact hr
  | cons c cs =>
      rw [search] at h
      cases hr : m (c :: cs) with
      | some r =>
          rw [hr] at h
          simp only [Option.some.injEq, Prod.mk.injEq, true_and] at h
          rw [h]
      | none =>
          rw [hr] at h
          simp at h

theorem search_of_match {s : List α} {r : β × List α} (h : m s = some r) :
    search m s = some ([], r) := by
  cases s with
  | nil => rw [search, h]; rfl
  | cons c cs => rw [search, h]

theorem search_of_no_match {c : α} {cs : List α} (h : m (c :: cs) = none) :
    search m (c :: cs) = (search m cs).map fun r => (c :: r.1, r.2) := by
  rw [search, h]

/-- What a search finds was read somewhere. -/
theorem search_read {s sk : List α} {b : β} {t : List α} (h : search m s = some (sk, b, t)) :
    ∃ u, m u = some (b, t) := by
  induction s generalizing sk with
  | nil =>
      simp only [search, Option.map_eq_some_iff, Prod.mk.injEq] at h
      obtain ⟨r, hr, -, rfl⟩ := h
      exact ⟨[], hr⟩
  | cons c cs ih =>
      cases hr : m (c :: cs) with
      | some r =>
          rw [search_of_match hr, Option.some.injEq, Prod.mk.injEq] at h
          exact ⟨c :: cs, by rw [hr, h.2]⟩
      | none =>
          rw [search_of_no_match hr, Option.map_eq_some_iff] at h
          obtain ⟨⟨sk', r⟩, hr', heq⟩ := h
          simp only [Prod.mk.injEq] at heq
          rw [heq.2] at hr'
          exact ih hr'

theorem search_split (hm : Reads m text) : ∀ {s sk : List α} {b : β} {t : List α},
    search m s = some (sk, b, t) → s = sk ++ (text b ++ t) := by
  intro s
  induction s with
  | nil =>
      intro sk b t h
      simp only [search, Option.map_eq_some_iff, Prod.mk.injEq] at h
      obtain ⟨⟨b', t'⟩, hr, rfl, hb⟩ := h
      injection hb with hb ht
      subst hb ht
      exact hm.split hr
  | cons c cs ih =>
      intro sk b t h
      rw [search] at h
      cases hr : m (c :: cs) with
      | some r =>
          rw [hr] at h
          simp only [Option.some.injEq, Prod.mk.injEq] at h
          obtain ⟨rfl, rfl⟩ := h
          exact hm.split hr
      | none =>
          rw [hr] at h
          simp only [Option.map_eq_some_iff, Prod.mk.injEq] at h
          obtain ⟨⟨sk', r⟩, hr', rfl, rfl⟩ := h
          rw [ih hr']
          rfl

theorem search_length (hm : Reads m text) {s sk : List α} {b : β} {t : List α}
    (h : search m s = some (sk, b, t)) : t.length < s.length := by
  have hsplit := search_split hm h
  obtain ⟨s₀, b₀, hmatch⟩ : ∃ s₀, ∃ _ : m s₀ = some (b, t), s₀ = text b ++ t := by
    clear hsplit
    induction s generalizing sk with
    | nil =>
        simp only [search, Option.map_eq_some_iff, Prod.mk.injEq] at h
        obtain ⟨r, hr, -, rfl⟩ := h
        exact ⟨[], hr, hm.split hr⟩
    | cons c cs ih =>
        rw [search] at h
        cases hr : m (c :: cs) with
        | some r =>
            rw [hr] at h
            simp only [Option.some.injEq, Prod.mk.injEq] at h
            obtain ⟨-, rfl⟩ := h
            exact ⟨c :: cs, hr, hm.split hr⟩
        | none =>
            rw [hr] at h
            simp only [Option.map_eq_some_iff, Prod.mk.injEq] at h
            obtain ⟨⟨sk', r⟩, hr', -, rfl⟩ := h
            exact ih hr'
  have hne := List.length_pos_iff.mpr (hm.pos b₀)
  rw [hsplit]
  simp only [List.length_append]
  omega

/-- Any two fuels above the length of the subject scan it alike. -/
theorem scanFuel_congr (hm : Reads m text) : ∀ {n n' : Nat} {s : List α},
    s.length < n → s.length < n' → scanFuel m n s = scanFuel m n' s := by
  intro n
  induction n with
  | zero => intro n' s h _; exact absurd h (Nat.not_lt_zero _)
  | succ n ih =>
      intro n' s h h'
      obtain ⟨k, rfl⟩ : ∃ k, n' = k + 1 := ⟨n' - 1, by omega⟩
      simp only [scanFuel]
      cases hs : search m s with
      | none => rfl
      | some r =>
          obtain ⟨sk, b, t⟩ := r
          have ht := search_length hm hs
          simp only
          have hn : t.length < n := by omega
          have hk : t.length < k := by omega
          rw [ih hn hk]

theorem scan_none {s : List α} (h : search m s = none) : scan m s = ([], s) := by
  rw [scan, scanFuel, h]

theorem scan_some (hm : Reads m text) {s sk : List α} {b : β} {t : List α}
    (h : search m s = some (sk, b, t)) :
    scan m s = (⟨sk, b⟩ :: (scan m t).1, (scan m t).2) := by
  have ht := search_length hm h
  rw [scan, scanFuel, h]
  simp only
  have hfuel : t.length < t.length + 1 := by omega
  rw [scanFuel_congr hm ht hfuel, ← scan]

/-- Induction along a scan: the subject without a match, and the subject whose
first match leaves a shorter one. -/
theorem scan_induction (hm : Reads m text) {motive : List α → Prop}
    (stop : ∀ s, search m s = none → motive s)
    (hit : ∀ s sk b t, search m s = some (sk, b, t) → motive t → motive s) : ∀ s, motive s := by
  intro s
  induction hn : s.length using Nat.strong_induction_on generalizing s with
  | _ n ih =>
      cases h : search m s with
      | none => exact stop s h
      | some r =>
          obtain ⟨sk, b, t⟩ := r
          have ht := search_length hm h
          exact hit s sk b t h (ih t.length (by omega) t rfl)

/-- Every match of a scan was read somewhere. -/
theorem scan_read (hm : Reads m text) (s : List α) :
    ∀ h ∈ (scan m s).1, ∃ u t, m u = some (h.value, t) := by
  refine scan_induction hm (motive := fun s =>
    ∀ h ∈ (scan m s).1, ∃ u t, m u = some (h.value, t)) ?_ ?_ s
  · intro s hs h hmem
    rw [scan_none hs] at hmem
    cases hmem
  · intro s sk b t hs ih h hmem
    rw [scan_some hm hs] at hmem
    rcases List.mem_cons.mp hmem with rfl | hmem
    · obtain ⟨u, hu⟩ := search_read hs
      exact ⟨u, t, hu⟩
    · exact ih h hmem

/-- Behind the last match there is none. -/
theorem search_scan_rest (hm : Reads m text) (s : List α) : search m (scan m s).2 = none := by
  refine scan_induction hm (motive := fun s => search m (scan m s).2 = none) ?_ ?_ s
  · intro s hs
    rwa [scan_none hs]
  · intro s sk b t hs ih
    rwa [scan_some hm hs]

/-- Nothing of the subject is lost by a scan that keeps what it skips. -/
theorem scan_rejoin (hm : Reads m text) (s : List α) :
    ((scan m s).1.flatMap fun h => h.skipped ++ text h.value) ++ (scan m s).2 = s := by
  refine scan_induction hm (motive := fun s =>
    ((scan m s).1.flatMap fun h => h.skipped ++ text h.value) ++ (scan m s).2 = s)
    ?_ ?_ s
  · intro s h
    rw [scan_none h]
    rfl
  · intro s sk b t h ih
    rw [scan_some hm h]
    simp only [List.flatMap_cons, List.append_assoc] at ih ⊢
    rw [ih]
    exact (search_split hm h).symm

theorem flatMap_text_length (hs : List (Hit α β)) :
    (hs.flatMap fun h => h.skipped ++ text h.value).length =
      (hs.flatMap Hit.skipped).length + (hs.flatMap fun h => text h.value).length := by
  induction hs with
  | nil => rfl
  | cons h hs ih =>
      simp only [List.flatMap_cons, List.length_append] at ih ⊢
      omega

theorem flatMap_skipped_eq_nil {hs : List (Hit α β)} :
    hs.flatMap Hit.skipped = [] ↔ ∀ h ∈ hs, h.skipped = [] := by
  simp [List.flatMap_eq_nil_iff]

theorem flatMap_text_of_skipped_nil {hs : List (Hit α β)}
    (h : ∀ x ∈ hs, x.skipped = []) :
    (hs.flatMap fun x => x.skipped ++ text x.value) =
      hs.flatMap fun x => text x.value := by
  induction hs with
  | nil => rfl
  | cons x xs ih =>
      simp only [List.flatMap_cons]
      rw [h x (by simp), ih fun y hy => h y (by simp [hy])]
      rfl

/-- A scan that throws the skipped pieces away keeps its subject exactly when
it skipped nothing. -/
theorem scan_lossless_iff (hm : Reads m text) (s : List α) :
    ((scan m s).1.flatMap fun h => text h.value) ++ (scan m s).2 = s ↔
      ∀ h ∈ (scan m s).1, h.skipped = [] := by
  have hjoin := scan_rejoin hm s
  constructor
  · intro heq
    have hlen := congrArg List.length hjoin
    have hlen' := congrArg List.length heq
    simp only [List.length_append, flatMap_text_length] at hlen hlen'
    exact flatMap_skipped_eq_nil.mp (List.length_eq_zero_iff.mp (by omega))
  · intro hnil
    rwa [flatMap_text_of_skipped_nil hnil] at hjoin

/-- The same without the tail: nothing may be left after the last match. -/
theorem scan_covers_iff (hm : Reads m text) (s : List α) :
    ((scan m s).1.flatMap fun h => text h.value) = s ↔
      (∀ h ∈ (scan m s).1, h.skipped = []) ∧ (scan m s).2 = [] := by
  have hjoin := scan_rejoin hm s
  constructor
  · intro heq
    have hlen := congrArg List.length hjoin
    have hlen' := congrArg List.length heq
    simp only [List.length_append, flatMap_text_length] at hlen
    have htail : (scan m s).2 = [] := List.length_eq_zero_iff.mp (by omega)
    refine ⟨(scan_lossless_iff hm s).mp ?_, htail⟩
    rw [htail, List.append_nil]
    exact heq
  · rintro ⟨hnil, htail⟩
    have h := (scan_lossless_iff hm s).mpr hnil
    rwa [htail, List.append_nil] at h

/-! ### A subject that grows -/

/-- The matches of a scan, without the last one if it reached the end. -/
def settled (m : Matcher α β) (s : List α) : List (Hit α β) :=
  if (scan m s).2.isEmpty then (scan m s).1.dropLast else (scan m s).1

/-- A match that leaves something is the match in every longer subject. -/
def Grows (m : Matcher α β) (ok : α → Prop) : Prop :=
  ∀ s sk b t x, (∀ c ∈ s ++ x, ok c) → search m s = some (sk, b, t) → t ≠ [] →
    search m (s ++ x) = some (sk, b, t ++ x)

theorem length_settled (m : Matcher α β) (s : List α) :
    (scan m s).1.length ≤ (settled m s).length + 1 := by
  rw [settled]
  split
  · rw [List.length_dropLast]
    omega
  · omega

theorem settled_isPrefix (m : Matcher α β) (s : List α) : settled m s <+: (scan m s).1 := by
  rw [settled]
  split
  · exact List.dropLast_prefix _
  · exact List.prefix_refl _

theorem settled_none {s : List α} (h : search m s = none) : settled m s = [] := by
  rw [settled, scan_none h]
  split <;> rfl

theorem settled_some (hm : Reads m text) {s sk : List α} {b : β} {t : List α}
    (h : search m s = some (sk, b, t)) :
    settled m s = if t = [] then [] else ⟨sk, b⟩ :: settled m t := by
  rw [settled, scan_some hm h]
  simp only
  by_cases ht : t = []
  · have hnil : search m ([] : List α) = none := by
      cases hs : search m ([] : List α) with
      | none => rfl
      | some r => exact absurd (search_length hm hs) (by simp)
    rw [if_pos ht, ht, scan_none hnil]
    rfl
  · rw [if_neg ht, settled]
    split
    · next hend =>
        -- Something is left, and none of it behind the last match.
        have hne : (scan m t).1 ≠ [] := by
          intro hnone
          have hrejoin := scan_rejoin hm t
          rw [hnone, List.isEmpty_iff.mp hend] at hrejoin
          exact ht hrejoin.symm
        rw [List.dropLast_cons_of_ne_nil hne]
    · rfl

/-- What is settled stays settled when the subject grows. -/
theorem settled_grow (hm : Reads m text) {ok : α → Prop} (hgrows : Grows m ok) (s x : List α)
    (hok : ∀ c ∈ s ++ x, ok c) : settled m s <+: settled m (s ++ x) := by
  revert hok
  refine scan_induction hm (motive := fun s =>
    (∀ c ∈ s ++ x, ok c) → settled m s <+: settled m (s ++ x)) ?_ ?_ s
  · intro s h _
    rw [settled_none h]
    exact List.nil_prefix
  · intro s sk b t h ih hok
    have hsplit := search_split hm h
    rw [settled_some hm h]
    split
    · exact List.nil_prefix
    · next ht =>
        have hmem : ∀ c ∈ t ++ x, c ∈ s ++ x := by
          intro c hc
          rw [hsplit]
          rcases List.mem_append.mp hc with hc | hc <;> simp [hc]
        rw [settled_some hm (hgrows s sk b t x hok h ht), if_neg (by simp [ht])]
        exact List.cons_prefix_cons.mpr ⟨rfl, ih fun c hc => hok c (hmem c hc)⟩

end Scan

/-! ## The two matchers read -/

theorem take_append_of_suffix {s t : List α} (h : t <:+ s) :
    s = s.take (s.length - t.length) ++ t := by
  obtain ⟨u, rfl⟩ := h
  simp

theorem Re.read_split {r : Re α} {s b t : List α} (h : r.read s = some (b, t)) :
    s = b ++ t := by
  simp only [Re.read, Option.map_eq_some_iff, Prod.mk.injEq] at h
  obtain ⟨u, hu, rfl, rfl⟩ := h
  exact take_append_of_suffix (r.rests_suffix (List.mem_of_mem_head? hu))

theorem readPair_split {r q : Re α} {s b₁ b₂ t : List α}
    (h : readPair r q s = some ((b₁, b₂), t)) : s = b₁ ++ (b₂ ++ t) := by
  simp only [readPair, List.findSome?_eq_some_iff] at h
  obtain ⟨l₁, u, l₂, hmem, hu, -⟩ := h
  simp only [Option.map_eq_some_iff, Prod.mk.injEq] at hu
  obtain ⟨v, hv, ⟨rfl, rfl⟩, rfl⟩ := hu
  have hr : u <:+ s := r.rests_suffix (by rw [hmem]; simp)
  have hq : v <:+ u := q.rests_suffix (List.mem_of_mem_head? hv)
  rw [← take_append_of_suffix hq]
  exact take_append_of_suffix hr

end VTranser.Regex

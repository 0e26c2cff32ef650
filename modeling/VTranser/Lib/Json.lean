import Mathlib.Data.List.DropRight
import Mathlib.Tactic.Common

/-!
# JSON

A reader of the JSON grammar on code units, which is `JSON.parse` as far as it says
whether a text is JSON, and of which strings under which keys. A number is kept as it is
written, and the members of an object in their order, those with the key of a later one
included.

The reader is a function of how deep values may nest and of how many of them may follow
each other. `value_depth` and `items_count` say that the length of a text is enough of
both.
-/

namespace VTranser.Json

inductive Value
  | null
  | bool (b : Bool)
  | num (written : List UInt16)
  | str (text : List UInt16)
  | arr (values : List Value)
  | obj (members : List (List UInt16 × Value))

/-- A reader of the front of a text: what is there, and what is left. -/
abbrev Parser (α : Type) := List UInt16 → Option (α × List UInt16)

def isWhite (u : UInt16) : Bool := [0x20, 0x09, 0x0A, 0x0D].contains u

def skipWhite (s : List UInt16) : List UInt16 := s.dropWhile isWhite

/-! ## Numbers -/

def isDigit (u : UInt16) : Bool := 0x30 ≤ u && u ≤ 0x39

def digits : List UInt16 → Option (List UInt16)
  | [] => none
  | u :: s => if isDigit u then some (s.dropWhile isDigit) else none

def integer : List UInt16 → Option (List UInt16)
  | [] => none
  | u :: s => if u = 0x30 then some s else digits (u :: s)

def fraction : List UInt16 → Option (List UInt16)
  | [] => some []
  | u :: s => if u = 0x2E then digits s else some (u :: s)

/-- What is left after one of two signs, if there is one. -/
def skipSign (a b : UInt16) : List UInt16 → List UInt16
  | [] => []
  | u :: s => if u = a ∨ u = b then s else u :: s

def exponent : List UInt16 → Option (List UInt16)
  | [] => some []
  | u :: s => if u = 0x65 ∨ u = 0x45 then digits (skipSign 0x2B 0x2D s) else some (u :: s)

def number : Parser Value := fun s =>
  (((integer (skipSign 0x2D 0x2D s)).bind fraction).bind exponent).map fun rest =>
    (.num (s.take (s.length - rest.length)), rest)

/-! ## Strings -/

def hexDigit (u : UInt16) : Option UInt16 :=
  if 0x30 ≤ u ∧ u ≤ 0x39 then some (u - 0x30)
  else if 0x41 ≤ u ∧ u ≤ 0x46 then some (u - 0x41 + 10)
  else if 0x61 ≤ u ∧ u ≤ 0x66 then some (u - 0x61 + 10)
  else none

def hexUnit (a b c d : UInt16) : Option UInt16 := do
  let a ← hexDigit a
  let b ← hexDigit b
  let c ← hexDigit c
  let d ← hexDigit d
  return ((a * 16 + b) * 16 + c) * 16 + d

/-- The escapes of one letter: `\"`, `\\`, `\/`, `\b`, `\f`, `\n`, `\r` and `\t`. -/
def escape (u : UInt16) : Option UInt16 :=
  [(0x22, 0x22), (0x5C, 0x5C), (0x2F, 0x2F), (0x62, 0x08), (0x66, 0x0C), (0x6E, 0x0A),
    (0x72, 0x0D), (0x74, 0x09)].lookup u

/-- A string after its first quotation mark. -/
def stringBody : Parser (List UInt16)
  | [] => none
  | u :: s =>
      if u = 0x22 then some ([], s)
      else if u = 0x5C then
        match s with
        | [] | [_] => none
        | v :: a :: s =>
            if v = 0x75 then
              match s with
              | b :: c :: d :: s =>
                  match hexUnit a b c d, stringBody s with
                  | some x, some (t, rest) => some (x :: t, rest)
                  | _, _ => none
              | _ => none
            else
              match escape v, stringBody (a :: s) with
              | some x, some (t, rest) => some (x :: t, rest)
              | _, _ => none
      else if u < 0x20 then none
      else (stringBody s).map fun (t, rest) => (u :: t, rest)

/-! ## Values -/

/-- A word of the grammar. -/
def literal (word : List UInt16) (v : Value) : Parser Value := fun s =>
  if word.isPrefixOf s then some (v, s.drop word.length) else none

section

variable {α : Type} (p : Parser α) (close : UInt16)

/-- Items with commas between them, `n` of them at most, and the bracket after them. -/
def items : Nat → Parser (List α)
  | 0, _ => none
  | n + 1, s =>
      match p s with
      | none => none
      | some (v, s) =>
          match skipWhite s with
          | [] => none
          | u :: s =>
              if u = close then some ([v], s)
              else if u = 0x2C then (items n s).map fun (vs, rest) => (v :: vs, rest)
              else none

/-- What follows an opening bracket. -/
def bracket : Parser (List α) := fun s =>
  match skipWhite s with
  | [] => none
  | u :: rest => if u = close then some ([], rest) else items p close s.length s

/-- A member of an object. -/
def member : Parser (List UInt16 × α) := fun s =>
  match skipWhite s with
  | [] => none
  | u :: s =>
      if u = 0x22 then
        match stringBody s with
        | none => none
        | some (key, s) =>
            match skipWhite s with
            | [] => none
            | u :: s => if u = 0x3A then (p s).map fun (v, rest) => ((key, v), rest) else none
      else none

end

/-- A value that nests `depth` deep at most. -/
def value : Nat → Parser Value
  | 0 => fun _ => none
  | depth + 1 => fun s =>
      match skipWhite s with
      | [] => none
      | u :: s =>
          if u = 0x7B then
            (bracket (member (value depth)) 0x7D s).map fun (ms, rest) => (.obj ms, rest)
          else if u = 0x5B then
            (bracket (value depth) 0x5D s).map fun (vs, rest) => (.arr vs, rest)
          else if u = 0x22 then (stringBody s).map fun (t, rest) => (.str t, rest)
          else if u = 0x74 then literal [0x74, 0x72, 0x75, 0x65] (.bool true) (u :: s)
          else if u = 0x66 then literal [0x66, 0x61, 0x6C, 0x73, 0x65] (.bool false) (u :: s)
          else if u = 0x6E then literal [0x6E, 0x75, 0x6C, 0x6C] .null (u :: s)
          else number (u :: s)

/-- `JSON.parse(s)`, `none` where it throws. -/
def parse (s : List UInt16) : Option Value :=
  match value s.length s with
  | none => none
  | some (v, rest) => if (skipWhite rest).isEmpty then some v else none

/-- `v[key]`, of the members with that key the last; other values have none. -/
def Value.get? (key : List UInt16) : Value → Option Value
  | .obj members => members.reverse.lookup key
  | _ => none

/-! ## What is read is gone -/

/-- A reader that leaves less than it was given. -/
def Shrinks {α : Type} (p : Parser α) : Prop :=
  ∀ ⦃s v rest⦄, p s = some (v, rest) → rest.length < s.length

theorem skipWhite_length (s : List UInt16) : (skipWhite s).length ≤ s.length :=
  (List.dropWhile_suffix _).length_le

theorem length_of_skipWhite {s t : List UInt16} {u : UInt16} (h : skipWhite s = u :: t) :
    t.length < s.length := by
  have hle := skipWhite_length s
  rw [h, List.length_cons] at hle
  omega

theorem digits_length {s rest : List UInt16} (h : digits s = some rest) :
    rest.length < s.length := by
  cases s with
  | nil => simp [digits] at h
  | cons u s =>
      simp only [digits] at h
      split at h
      · cases h
        have hle := (List.dropWhile_suffix (p := isDigit) (l := s)).length_le
        simp only [List.length_cons]
        omega
      · cases h

theorem integer_length {s rest : List UInt16} (h : integer s = some rest) :
    rest.length < s.length := by
  cases s with
  | nil => simp [integer] at h
  | cons u s =>
      simp only [integer] at h
      split at h
      · cases h
        simp
      · exact digits_length h

theorem fraction_length {s rest : List UInt16} (h : fraction s = some rest) :
    rest.length ≤ s.length := by
  cases s with
  | nil => simp_all [fraction]
  | cons u s =>
      simp only [fraction] at h
      split at h
      · have := digits_length h
        simp only [List.length_cons]
        omega
      · cases h
        exact Nat.le_refl _

theorem skipSign_length (a b : UInt16) (s : List UInt16) :
    (skipSign a b s).length ≤ s.length := by
  cases s with
  | nil => simp [skipSign]
  | cons u s =>
      simp only [skipSign]
      split <;> simp

theorem exponent_length {s rest : List UInt16} (h : exponent s = some rest) :
    rest.length ≤ s.length := by
  cases s with
  | nil => simp_all [exponent]
  | cons u s =>
      simp only [exponent] at h
      split at h
      · have hdigits := digits_length h
        have hsign := skipSign_length 0x2B 0x2D s
        simp only [List.length_cons]
        omega
      · cases h
        exact Nat.le_refl _

theorem number_shrinks : Shrinks number := by
  intro s v rest h
  rw [number, Option.map_eq_some_iff] at h
  obtain ⟨r, hr, hpair⟩ := h
  cases hpair
  obtain ⟨b, hb, hexp⟩ := Option.bind_eq_some_iff.mp hr
  obtain ⟨a, ha, hfrac⟩ := Option.bind_eq_some_iff.mp hb
  have h0 := skipSign_length 0x2D 0x2D s
  have h1 := integer_length ha
  have h2 := fraction_length hfrac
  have h3 := exponent_length hexp
  omega

theorem number_num {s rest : List UInt16} {v : Value} (h : number s = some (v, rest)) :
    ∃ w, v = .num w := by
  rw [number, Option.map_eq_some_iff] at h
  obtain ⟨r, -, hpair⟩ := h
  cases hpair
  exact ⟨_, rfl⟩

theorem literal_eq {word : List UInt16} {w v : Value} {s rest : List UInt16}
    (h : literal word w s = some (v, rest)) : v = w ∧ rest = s.drop word.length := by
  rw [literal] at h
  split at h
  · cases h
    exact ⟨rfl, rfl⟩
  · cases h

theorem stringBody_length {s t rest : List UInt16} (h : stringBody s = some (t, rest)) :
    t.length + rest.length < s.length := by
  fun_induction stringBody s generalizing t rest with
  | case1 | case3 | case4 | case6 | case7 | case9 | case10 => cases h
  | case2 =>
      cases h
      simp
  | case5 a b c d s x t' rest' hbody hunit _ ih =>
      have hlen := ih hbody
      cases h
      simp only [List.length_cons]
      omega
  | case8 v a s hv x t' rest' hbody hesc _ ih =>
      have hlen := ih hbody
      cases h
      simp only [List.length_cons] at hlen ⊢
      omega
  | case11 u s _ _ _ ih =>
      obtain ⟨⟨t', rest'⟩, hbody, hpair⟩ := Option.map_eq_some_iff.mp h
      have hlen := ih hbody
      cases hpair
      simp only [List.length_cons]
      omega

theorem literal_shrinks (u : UInt16) (word : List UInt16) (w : Value) :
    Shrinks (literal (u :: word) w) := by
  intro s v rest h
  rw [literal] at h
  split at h
  · next hpre =>
    have hle := (List.isPrefixOf_iff_prefix.mp hpre).length_le
    cases h
    simp only [List.length_cons, List.length_drop] at hle ⊢
    omega
  · cases h

section

variable {α : Type} {p : Parser α} {close : UInt16}

theorem items_cases {n : Nat} {s rest : List UInt16} {vs : List α}
    (h : items p close (n + 1) s = some (vs, rest)) :
    ∃ v s', p s = some (v, s') ∧
      (vs = [v] ∧ skipWhite s' = close :: rest ∨
        ∃ s'' vs', vs = v :: vs' ∧ skipWhite s' = 0x2C :: s'' ∧
          items p close n s'' = some (vs', rest)) := by
  simp only [items] at h
  split at h
  · cases h
  · next v s' hv =>
    refine ⟨v, s', hv, ?_⟩
    split at h
    · cases h
    · next u s'' hwhite =>
      split at h
      · next hclose =>
        cases h
        exact Or.inl ⟨rfl, hclose ▸ hwhite⟩
      · split at h
        · next hcomma =>
          obtain ⟨⟨vs', rest'⟩, hvs, hpair⟩ := Option.map_eq_some_iff.mp h
          cases hpair
          exact Or.inr ⟨s'', vs', rfl, hcomma ▸ hwhite, hvs⟩
        · cases h

theorem items_shrinks (hp : Shrinks p) (n : Nat) : Shrinks (items p close n) := by
  induction n with
  | zero =>
      intro s v rest h
      cases h
  | succ n ih =>
      intro s vs rest h
      obtain ⟨v, s', hv, ⟨-, hwhite⟩ | ⟨s'', vs', -, hwhite, hvs⟩⟩ := items_cases h
      · exact (length_of_skipWhite hwhite).trans (hp hv)
      · exact (ih hvs).trans ((length_of_skipWhite hwhite).trans (hp hv))

/-- What holds of whatever is read from a text of some length at most holds of all items. -/
theorem items_all (hp : Shrinks p) {Q : α → Prop} {m : Nat}
    (hQ : ∀ {s v rest}, s.length ≤ m → p s = some (v, rest) → Q v) {n : Nat}
    {s rest : List UInt16} {vs : List α} (hs : s.length ≤ m)
    (h : items p close n s = some (vs, rest)) : ∀ v ∈ vs, Q v := by
  induction n generalizing s vs with
  | zero => cases h
  | succ n ih =>
      obtain ⟨v, s', hv, ⟨rfl, -⟩ | ⟨s'', vs', rfl, hwhite, hvs⟩⟩ := items_cases h
      · simpa using hQ hs hv
      · have hlen := (length_of_skipWhite hwhite).trans (hp hv)
        intro w hw
        rcases List.mem_cons.mp hw with rfl | hw
        · exact hQ hs hv
        · exact ih (by omega) hvs w hw

theorem bracket_cases {s rest : List UInt16} {vs : List α}
    (h : bracket p close s = some (vs, rest)) :
    vs = [] ∧ skipWhite s = close :: rest ∨ items p close s.length s = some (vs, rest) := by
  simp only [bracket] at h
  split at h
  · cases h
  · next u s' hwhite =>
    split at h
    · next hclose =>
      cases h
      exact Or.inl ⟨rfl, hclose ▸ hwhite⟩
    · exact Or.inr h

theorem bracket_shrinks (hp : Shrinks p) : Shrinks (bracket p close) := by
  intro s vs rest h
  rcases bracket_cases h with ⟨-, hwhite⟩ | hitems
  · exact length_of_skipWhite hwhite
  · exact items_shrinks hp _ hitems

theorem bracket_all (hp : Shrinks p) {Q : α → Prop} {m : Nat}
    (hQ : ∀ {s v rest}, s.length ≤ m → p s = some (v, rest) → Q v) {s rest : List UInt16}
    {vs : List α} (hs : s.length ≤ m) (h : bracket p close s = some (vs, rest)) :
    ∀ v ∈ vs, Q v := by
  rcases bracket_cases h with ⟨rfl, -⟩ | hitems
  · simp
  · exact items_all hp hQ hs hitems

theorem member_cases {s rest : List UInt16} {m : List UInt16 × α}
    (h : member p s = some (m, rest)) :
    ∃ s', s'.length < s.length ∧ p s' = some (m.2, rest) := by
  simp only [member] at h
  split at h
  · cases h
  · next u s1 hwhite =>
    have h1 := length_of_skipWhite hwhite
    split at h
    · split at h
      · cases h
      · next key s2 hbody =>
        have h2 := stringBody_length hbody
        split at h
        · cases h
        · next u s3 hwhite =>
          have h3 := length_of_skipWhite hwhite
          split at h
          · obtain ⟨⟨v, rest'⟩, hv, hpair⟩ := Option.map_eq_some_iff.mp h
            cases hpair
            exact ⟨s3, by omega, hv⟩
          · cases h
    · cases h

theorem member_shrinks (hp : Shrinks p) : Shrinks (member p) := by
  intro s m rest h
  obtain ⟨s', hlen, hv⟩ := member_cases h
  exact (hp hv).trans hlen

end

/-- What a value is, by how it was read. -/
theorem value_cases {depth : Nat} {s rest : List UInt16} {v : Value}
    (h : value (depth + 1) s = some (v, rest)) :
    ∃ u s', skipWhite s = u :: s' ∧
      ((∃ ms, v = .obj ms ∧ bracket (member (value depth)) 0x7D s' = some (ms, rest)) ∨
        (∃ vs, v = .arr vs ∧ bracket (value depth) 0x5D s' = some (vs, rest)) ∨
        (∃ t, v = .str t ∧ stringBody s' = some (t, rest)) ∨
        (∀ t, v ≠ .str t) ∧ (∀ ms, v ≠ .obj ms) ∧ rest.length < (u :: s').length) := by
  simp only [value] at h
  split at h
  · cases h
  · next u s' hwhite =>
    refine ⟨u, s', hwhite, ?_⟩
    have hword : ∀ {x w word}, literal (x :: word) w (u :: s') = some (v, rest) →
        (∀ t, w ≠ .str t) → (∀ ms, w ≠ .obj ms) →
        (∀ t, v ≠ .str t) ∧ (∀ ms, v ≠ .obj ms) ∧ rest.length < (u :: s').length := by
      intro x w word hlit hstr hobj
      have hlen := literal_shrinks _ _ _ hlit
      obtain ⟨rfl, -⟩ := literal_eq hlit
      exact ⟨hstr, hobj, hlen⟩
    split at h
    · obtain ⟨⟨ms, rest'⟩, hms, hpair⟩ := Option.map_eq_some_iff.mp h
      cases hpair
      exact Or.inl ⟨ms, rfl, hms⟩
    · split at h
      · obtain ⟨⟨vs, rest'⟩, hvs, hpair⟩ := Option.map_eq_some_iff.mp h
        cases hpair
        exact Or.inr (Or.inl ⟨vs, rfl, hvs⟩)
      · split at h
        · obtain ⟨⟨t, rest'⟩, ht, hpair⟩ := Option.map_eq_some_iff.mp h
          cases hpair
          exact Or.inr (Or.inr (Or.inl ⟨t, rfl, ht⟩))
        · refine Or.inr (Or.inr (Or.inr ?_))
          split at h
          · exact hword h (by simp) (by simp)
          · split at h
            · exact hword h (by simp) (by simp)
            · split at h
              · exact hword h (by simp) (by simp)
              · have hlen := number_shrinks h
                obtain ⟨w, rfl⟩ := number_num h
                exact ⟨by simp, by simp, hlen⟩

theorem value_shrinks (depth : Nat) : Shrinks (value depth) := by
  induction depth with
  | zero =>
      intro s v rest h
      cases h
  | succ depth ih =>
      intro s v rest h
      obtain ⟨u, s', hwhite, hread⟩ := value_cases h
      have hskip := length_of_skipWhite hwhite
      rcases hread with ⟨ms, -, hms⟩ | ⟨vs, -, hvs⟩ | ⟨t, -, ht⟩ | ⟨-, -, hlen⟩
      · exact (bracket_shrinks (member_shrinks ih) hms).trans hskip
      · exact (bracket_shrinks ih hvs).trans hskip
      · have := stringBody_length ht
        omega
      · rw [← hwhite] at hlen
        exact hlen.trans_le (skipWhite_length s)

/-- A string is shorter than what it was read from, which has its quotation marks. -/
theorem value_str {depth : Nat} {s t rest : List UInt16}
    (h : value depth s = some (.str t, rest)) : t.length < s.length := by
  cases depth with
  | zero => cases h
  | succ depth =>
      obtain ⟨u, s', hwhite, hread⟩ := value_cases h
      have hskip := length_of_skipWhite hwhite
      rcases hread with ⟨ms, hv, -⟩ | ⟨vs, hv, -⟩ | ⟨t', hv, ht⟩ | ⟨hstr, -, -⟩
      · cases hv
      · cases hv
      · cases hv
        have := stringBody_length ht
        omega
      · exact absurd rfl (hstr t)

theorem value_obj {depth : Nat} {s rest : List UInt16} {ms : List (List UInt16 × Value)}
    (h : value depth s = some (.obj ms, rest)) :
    ∀ m ∈ ms, ∀ t, m.2 = .str t → t.length < s.length := by
  cases depth with
  | zero => cases h
  | succ depth =>
      obtain ⟨u, s', hwhite, hread⟩ := value_cases h
      have hskip := length_of_skipWhite hwhite
      rcases hread with ⟨ms', hv, hms⟩ | ⟨vs, hv, -⟩ | ⟨t', hv, -⟩ | ⟨-, hobj, -⟩
      · cases hv
        refine bracket_all (member_shrinks (value_shrinks depth)) ?_ (Nat.le_refl _) hms
        intro s'' m rest' hs'' hm t ht
        obtain ⟨s3, hlen, hv⟩ := member_cases hm
        rw [ht] at hv
        have := value_str hv
        omega
      · cases hv
      · cases hv
      · exact absurd rfl (hobj ms)

/-- The strings of an object that is read from a text are shorter than the text. -/
theorem length_of_get? {s key t : List UInt16} {v : Value} (hparse : parse s = some v)
    (h : v.get? key = some (.str t)) : t.length < s.length := by
  cases v with
  | obj ms =>
      rw [parse] at hparse
      split at hparse
      · cases hparse
      · next w rest hvalue =>
        split at hparse
        · cases hparse
          have hmem : (key, Value.str t) ∈ ms := by
            obtain ⟨before, after, hsplit, -⟩ := List.lookup_eq_some_iff.mp h
            have : (key, Value.str t) ∈ ms.reverse := by simp [hsplit]
            simpa using this
          exact value_obj hvalue _ hmem t rfl
        · cases hparse
  | _ => cases h

/-! ## Enough depth and enough items -/

section

variable {α : Type} {p q : Parser α} {close : UInt16} {m : Nat} {s : List UInt16}

theorem Shrinks.nil (hp : Shrinks p) : p [] = none := by
  cases h : p [] with
  | none => rfl
  | some r => exact absurd (hp h) (Nat.not_lt_zero _)

theorem items_nil (hp : Shrinks p) (n : Nat) : items p close n [] = none := by
  cases n with
  | zero => rfl
  | succ n => simp only [items, hp.nil]

/-- Readers that agree on short texts read the same items, of which there cannot be more
than the text is long. -/
theorem items_congr (hp : Shrinks p) (hq : Shrinks q)
    (hpq : ∀ t : List UInt16, t.length ≤ m → p t = q t) (hs : s.length ≤ m) {n k : Nat}
    (hn : s.length ≤ n) (hk : s.length ≤ k) : items p close n s = items q close k s := by
  induction n generalizing k s with
  | zero =>
      obtain rfl := List.length_eq_zero_iff.mp (Nat.le_zero.mp hn)
      rw [items_nil hp, items_nil hq]
  | succ n ih =>
      cases k with
      | zero =>
          obtain rfl := List.length_eq_zero_iff.mp (Nat.le_zero.mp hk)
          rw [items_nil hp, items_nil hq]
      | succ k =>
          simp only [items, ← hpq s hs]
          cases hv : p s with
          | none => rfl
          | some r =>
              obtain ⟨v, s'⟩ := r
              have hfirst := hp hv
              cases hwhite : skipWhite s' with
              | nil => simp only [hwhite]
              | cons u s'' =>
                  have hskip := length_of_skipWhite hwhite
                  have hrest : items p close n s'' = items q close k s'' :=
                    ih (by omega) (by omega) (by omega)
                  simp only [hwhite, hrest]

theorem items_count (hp : Shrinks p) {n : Nat} (hn : s.length ≤ n) :
    items p close n s = items p close s.length s :=
  items_congr hp hp (fun _ _ => rfl) (Nat.le_refl _) hn (Nat.le_refl _)

theorem bracket_congr (hp : Shrinks p) (hq : Shrinks q)
    (hpq : ∀ t : List UInt16, t.length ≤ m → p t = q t) (hs : s.length ≤ m) :
    bracket p close s = bracket q close s := by
  simp only [bracket, items_congr hp hq hpq hs (Nat.le_refl _) (Nat.le_refl _)]

theorem member_congr (hpq : ∀ t : List UInt16, t.length ≤ m → p t = q t)
    (hs : s.length ≤ m) : member p s = member q s := by
  simp only [member]
  cases hwhite : skipWhite s with
  | nil => rfl
  | cons u s1 =>
      have h1 := length_of_skipWhite hwhite
      cases hbody : stringBody s1 with
      | none => simp only [hbody]
      | some r =>
          obtain ⟨key, s2⟩ := r
          have h2 := stringBody_length hbody
          cases hcolon : skipWhite s2 with
          | nil => simp only [hbody, hcolon]
          | cons u s3 =>
              have h3 := length_of_skipWhite hcolon
              simp only [hbody, hcolon, hpq s3 (by omega)]

end

theorem value_depth {d e : Nat} {s : List UInt16} (hd : s.length ≤ d) (he : s.length ≤ e) :
    value d s = value e s := by
  induction d generalizing e s with
  | zero =>
      obtain rfl := List.length_eq_zero_iff.mp (Nat.le_zero.mp hd)
      rw [(value_shrinks 0).nil, (value_shrinks e).nil]
  | succ d ih =>
      cases e with
      | zero =>
          obtain rfl := List.length_eq_zero_iff.mp (Nat.le_zero.mp he)
          rw [(value_shrinks 0).nil, (value_shrinks (d + 1)).nil]
      | succ e =>
          simp only [value]
          cases hwhite : skipWhite s with
          | nil => rfl
          | cons u s' =>
              have hskip := length_of_skipWhite hwhite
              have hvalue : ∀ t : List UInt16, t.length ≤ s'.length → value d t = value e t :=
                fun t ht => ih (by omega) (by omega)
              have hmember : ∀ t : List UInt16, t.length ≤ s'.length →
                  member (value d) t = member (value e) t :=
                fun t ht => member_congr hvalue ht
              have hd := value_shrinks d
              have he := value_shrinks e
              simp only [bracket_congr hd he hvalue (Nat.le_refl _),
                bracket_congr (member_shrinks hd) (member_shrinks he) hmember (Nat.le_refl _)]

end VTranser.Json

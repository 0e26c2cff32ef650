import Mathlib.Data.List.Forall2
import VTranser.Lib.Json
import VTranser.Lib.Utf16

/-!
# Writing JSON

A writer has its own white space after commas and colons, and its own way to write the
units of a string; a `Style` is one whose strings can be read again. `parse_write` says
that then every value can, if its numbers are written as the grammar has them.

`Style.stringify` is what `JSON.stringify` writes, `Style.dumps` what `json.dumps` does
when it may write characters as they are.
-/

namespace VTranser.Json

open Utf16 (isHigh isLow)

theorem white_nil : ∀ u ∈ ([] : List UInt16), isWhite u = true := fun _ h => by cases h

structure Style where
  comma : List UInt16
  colon : List UInt16
  /-- A string between its quotation marks. -/
  body : List UInt16 → List UInt16
  comma_white : ∀ u ∈ comma, isWhite u = true
  colon_white : ∀ u ∈ colon, isWhite u = true
  read_body : ∀ t rest, stringBody (body t ++ 0x22 :: rest) = some (t, rest)

namespace Style

variable (style : Style)

def string (t : List UInt16) : List UInt16 := 0x22 :: style.body t ++ [0x22]

/-- Items with commas between them. -/
def join : List (List UInt16) → List UInt16
  | [] => []
  | [s] => s
  | s :: t :: ts => s ++ 0x2C :: (style.comma ++ join (t :: ts))

mutual

def write : Value → List UInt16
  | .null => [0x6E, 0x75, 0x6C, 0x6C]
  | .bool true => [0x74, 0x72, 0x75, 0x65]
  | .bool false => [0x66, 0x61, 0x6C, 0x73, 0x65]
  | .num written => written
  | .str t => style.string t
  | .arr vs => 0x5B :: style.join (writeValues vs) ++ [0x5D]
  | .obj ms => 0x7B :: style.join (writeMembers ms) ++ [0x7D]

def writeValues : List Value → List (List UInt16)
  | [] => []
  | v :: vs => write v :: writeValues vs

def writeMember : List UInt16 × Value → List UInt16
  | (key, v) => style.string key ++ 0x3A :: (style.colon ++ write v)

def writeMembers : List (List UInt16 × Value) → List (List UInt16)
  | [] => []
  | m :: ms => writeMember m :: writeMembers ms

end

theorem writeValues_eq (vs : List Value) : style.writeValues vs = vs.map style.write := by
  induction vs with
  | nil => rfl
  | cons v vs ih => rw [writeValues, ih, List.map_cons]

theorem writeMember_eq (m : List UInt16 × Value) :
    style.writeMember m = style.string m.1 ++ 0x3A :: (style.colon ++ style.write m.2) := by
  rw [writeMember]

theorem writeMembers_eq (ms : List (List UInt16 × Value)) :
    style.writeMembers ms = ms.map style.writeMember := by
  induction ms with
  | nil => rfl
  | cons m ms ih => rw [writeMembers, ih, List.map_cons]

end Style

/-! ## Reading in front of more -/

/-- A number that ends here does not go on with this. -/
def Stops (rest : List UInt16) : Prop :=
  ∀ u ∈ rest.head?, isDigit u = false ∧ u ≠ 0x2E ∧ u ≠ 0x65 ∧ u ≠ 0x45

theorem stops_nil : Stops [] := fun _ h => nomatch h

theorem stops_cons {u : UInt16} {rest : List UInt16}
    (h : isDigit u = false ∧ u ≠ 0x2E ∧ u ≠ 0x65 ∧ u ≠ 0x45) : Stops (u :: rest) := by
  intro v hv
  rw [List.head?_cons, Option.mem_some_iff] at hv
  exact hv ▸ h

section Numbers

variable {s r rest : List UInt16}

theorem Stops.dropWhile (h : Stops rest) : rest.dropWhile isDigit = rest := by
  cases rest with
  | nil => rfl
  | cons u rest => rw [List.dropWhile_cons, if_neg (by simp [(h u rfl).1])]

theorem digits_append (hstop : Stops rest) (h : digits s = some r) :
    digits (s ++ rest) = some (r ++ rest) := by
  cases s with
  | nil => cases h
  | cons u s =>
      simp only [digits] at h
      split at h
      · next hdigit =>
          injection h with h
          rw [List.cons_append, digits, if_pos hdigit, List.dropWhile_append, h]
          split
          · next hempty => rw [List.isEmpty_iff.mp hempty, hstop.dropWhile, List.nil_append]
          · rfl
      · cases h

theorem integer_append (hstop : Stops rest) (h : integer s = some r) :
    integer (s ++ rest) = some (r ++ rest) := by
  cases s with
  | nil => cases h
  | cons u s =>
      simp only [integer] at h
      rw [List.cons_append, integer]
      split at h
      · next hzero =>
          injection h with h
          rw [if_pos hzero, h]
      · next hzero =>
          rw [if_neg hzero, ← List.cons_append]
          exact digits_append hstop h

theorem fraction_append (hstop : Stops rest) (h : fraction s = some r) :
    fraction (s ++ rest) = some (r ++ rest) := by
  cases s with
  | nil =>
      cases h
      cases rest with
      | nil => rfl
      | cons u rest => rw [List.nil_append, fraction, if_neg (hstop u rfl).2.1]
  | cons u s =>
      simp only [fraction] at h
      rw [List.cons_append, fraction]
      split at h
      · next hdot =>
          rw [if_pos hdot]
          exact digits_append hstop h
      · next hdot =>
          injection h with h
          rw [if_neg hdot, ← h, List.cons_append]

theorem exponent_append (hstop : Stops rest) (h : exponent s = some r) :
    exponent (s ++ rest) = some (r ++ rest) := by
  cases s with
  | nil =>
      cases h
      cases rest with
      | nil => rfl
      | cons u rest =>
          rw [List.nil_append, exponent, if_neg]
          exact not_or.mpr (hstop u rfl).2.2
  | cons u s =>
      simp only [exponent] at h
      rw [List.cons_append, exponent]
      split at h
      · next he =>
          rw [if_pos he]
          cases s with
          | nil => cases h
          | cons v s =>
              have hsign : skipSign 0x2B 0x2D (v :: s ++ rest) =
                  skipSign 0x2B 0x2D (v :: s) ++ rest := by
                simp only [List.cons_append, skipSign]
                split <;> rfl
              rw [hsign]
              exact digits_append hstop h
      · next he =>
          injection h with h
          rw [if_neg he, ← h, List.cons_append]

/-- A number of the grammar, and nothing after it. -/
def Numeral (w : List UInt16) : Prop :=
  ((integer (skipSign 0x2D 0x2D w)).bind fraction).bind exponent = some []

instance (w : List UInt16) : Decidable (Numeral w) :=
  inferInstanceAs (Decidable (_ = some []))

theorem Numeral.read {w : List UInt16} (h : Numeral w) (hstop : Stops rest) :
    number (w ++ rest) = some (.num w, rest) := by
  obtain ⟨b, hb, hexp⟩ := Option.bind_eq_some_iff.mp h
  obtain ⟨a, ha, hfrac⟩ := Option.bind_eq_some_iff.mp hb
  have hsign : skipSign 0x2D 0x2D (w ++ rest) = skipSign 0x2D 0x2D w ++ rest := by
    cases w with
    | nil => cases ha
    | cons u w =>
        simp only [List.cons_append, skipSign]
        split <;> rfl
  have hscan : ((integer (skipSign 0x2D 0x2D (w ++ rest))).bind fraction).bind exponent =
      some rest := by
    rw [hsign, integer_append hstop ha, Option.bind_some, fraction_append hstop hfrac,
      Option.bind_some, exponent_append hstop hexp, List.nil_append]
  rw [number, hscan, Option.map_some, List.length_append, Nat.add_sub_cancel, List.take_left]

/-- A number begins with a digit or with the sign. -/
theorem Numeral.head {w : List UInt16} (h : Numeral w) :
    ∃ u w', w = u :: w' ∧ (isDigit u = true ∨ u = 0x2D) := by
  cases w with
  | nil => cases h
  | cons u w =>
      refine ⟨u, w, rfl, ?_⟩
      by_cases hminus : u = 0x2D
      · exact .inr hminus
      · refine .inl ?_
        obtain ⟨b, hb, -⟩ := Option.bind_eq_some_iff.mp h
        obtain ⟨a, ha, -⟩ := Option.bind_eq_some_iff.mp hb
        rw [skipSign, if_neg (by simpa using hminus)] at ha
        simp only [integer] at ha
        split at ha
        · next hzero => rw [hzero]; decide
        · simp only [digits] at ha
          split at ha
          · next hdigit => exact hdigit
          · cases ha

end Numbers

/-! ## A writer and its reader -/

/-- `s` is read as `v`, whatever white space is in front and wherever `v` ends. -/
def Reads {α : Type} (p : Parser α) (s : List UInt16) (v : α) : Prop :=
  ∀ white rest, (∀ u ∈ white, isWhite u = true) → Stops rest →
    p (white ++ (s ++ rest)) = some (v, rest)

theorem skipWhite_append {white s : List UInt16} (h : ∀ u ∈ white, isWhite u = true) :
    skipWhite (white ++ s) = skipWhite s := by
  induction white with
  | nil => rfl
  | cons u white ih =>
      rw [skipWhite, List.cons_append, List.dropWhile_cons, if_pos (h u List.mem_cons_self)]
      exact ih fun v hv => h v (List.mem_cons_of_mem _ hv)

theorem skipWhite_cons {u : UInt16} {s : List UInt16} (h : isWhite u = false) :
    skipWhite (u :: s) = u :: s := by
  rw [skipWhite, List.dropWhile_cons, if_neg (by simp [h])]

namespace Style

variable (style : Style)

section

variable {α : Type} {p : Parser α} {close : UInt16}

/-- What the items are closed with is neither a comma nor white space, and no number goes
on with it. -/
structure Closes (close : UInt16) : Prop where
  ne_comma : close ≠ 0x2C
  not_white : isWhite close = false
  stops : ∀ rest, Stops (close :: rest)

theorem items_join (hclose : Closes close) {written : List (List UInt16)} {vs : List α}
    (h : List.Forall₂ (Reads p) written vs) (hne : vs ≠ []) {n : Nat} (hn : vs.length ≤ n)
    {white rest : List UInt16} (hwhite : ∀ u ∈ white, isWhite u = true) :
    items p close n (white ++ (style.join written ++ close :: rest)) = some (vs, rest) := by
  induction h generalizing n white with
  | nil => exact absurd rfl hne
  | @cons s v ss vs hs hss ih =>
      cases n with
      | zero => simp at hn
      | succ n =>
          cases hss with
          | nil =>
              rw [join, items, hs white _ hwhite (hclose.stops rest)]
              simp only
              rw [skipWhite_cons hclose.not_white]
              simp only
              rw [if_pos trivial]
          | @cons t w ts ws ht hts =>
              have hrest := ih (by simp) (Nat.le_of_succ_le_succ hn) style.comma_white
              have hstop : Stops (0x2C :: (style.comma ++
                  (style.join (t :: ts) ++ close :: rest))) := stops_cons (by decide)
              have happ : style.join (s :: t :: ts) ++ close :: rest =
                  s ++ 0x2C :: (style.comma ++ (style.join (t :: ts) ++ close :: rest)) := by
                simp [join]
              rw [happ, items, hs white _ hwhite hstop]
              simp only
              rw [skipWhite_cons (by decide)]
              simp only
              rw [if_neg hclose.ne_comma.symm, if_pos trivial, hrest]
              rfl

theorem bracket_join (hp : Shrinks p) (hclose : Closes close) {written : List (List UInt16)}
    {vs : List α} (h : List.Forall₂ (Reads p) written vs)
    (hhead : ∀ s ∈ written, ∃ u s', s = u :: s' ∧ isWhite u = false ∧ u ≠ close)
    (rest : List UInt16) :
    bracket p close (style.join written ++ close :: rest) = some (vs, rest) := by
  cases h with
  | nil =>
      rw [join, List.nil_append, bracket, skipWhite_cons hclose.not_white]
      simp only
      rw [if_pos trivial]
  | @cons s v ss vs hs hss =>
      have hitems {n : Nat} (hn : (v :: vs).length ≤ n) :
          items p close n (style.join (s :: ss) ++ close :: rest) = some (v :: vs, rest) :=
        style.items_join hclose (.cons hs hss) (by simp) hn white_nil
      obtain ⟨u, s', hu, hwhite, hne⟩ := hhead s List.mem_cons_self
      have hfirst : ∃ t, style.join (s :: ss) ++ close :: rest = u :: t := by
        subst hu
        cases ss <;> exact ⟨_, rfl⟩
      obtain ⟨t, ht⟩ := hfirst
      rw [bracket, ht, skipWhite_cons hwhite]
      simp only
      rw [if_neg hne, ← ht, ← items_count hp (Nat.le_max_right (v :: vs).length _)]
      exact hitems (Nat.le_max_left _ _)

theorem member_reads {s : List UInt16} {v : α} (h : Reads p s v) (key : List UInt16) :
    Reads (member p) (style.string key ++ 0x3A :: (style.colon ++ s)) (key, v) := by
  intro white rest hwhite hstop
  have htext : style.string key ++ 0x3A :: (style.colon ++ s) ++ rest =
      0x22 :: (style.body key ++ 0x22 :: 0x3A :: (style.colon ++ (s ++ rest))) := by
    simp [string]
  rw [htext, member, skipWhite_append hwhite, skipWhite_cons (by decide)]
  simp only
  rw [if_pos trivial, style.read_body]
  simp only
  rw [skipWhite_cons (by decide)]
  simp only
  rw [if_pos trivial, h style.colon rest style.colon_white hstop]
  rfl

end

/-! ## Values -/

end Style

/-- A value whose numbers are written as the grammar has them. -/
inductive Writable : Value → Prop
  | null : Writable .null
  | bool (b : Bool) : Writable (.bool b)
  | num {w : List UInt16} (h : Numeral w) : Writable (.num w)
  | str (t : List UInt16) : Writable (.str t)
  | arr {vs : List Value} (h : ∀ v ∈ vs, Writable v) : Writable (.arr vs)
  | obj {ms : List (List UInt16 × Value)} (h : ∀ m ∈ ms, Writable m.2) : Writable (.obj ms)

namespace Style

variable (style : Style)

theorem closes_bracket : Closes 0x5D := ⟨by decide, by decide, fun _ => stops_cons (by decide)⟩

theorem closes_brace : Closes 0x7D := ⟨by decide, by decide, fun _ => stops_cons (by decide)⟩

theorem ne_of_isDigit {u v : UInt16} (h : isDigit u = true) (hv : isDigit v = false) : u ≠ v := by
  rintro rfl
  rw [h] at hv
  cases hv

theorem not_white_of_isDigit {u : UInt16} (h : isDigit u = true) : isWhite u = false := by
  rw [Bool.eq_false_iff, isWhite, ne_eq, List.contains_iff_mem]
  intro hmem
  simp only [List.mem_cons, List.not_mem_nil, or_false] at hmem
  rcases hmem with rfl | rfl | rfl | rfl <;> revert h <;> decide

/-- No value begins with white space or with a closing bracket. -/
theorem write_head {v : Value} (h : Writable v) :
    ∃ u s, style.write v = u :: s ∧ isWhite u = false ∧ u ≠ 0x5D := by
  cases h with
  | null => exact ⟨_, _, rfl, by decide, by decide⟩
  | bool b => cases b <;> exact ⟨_, _, rfl, by decide, by decide⟩
  | str t => exact ⟨_, _, rfl, by decide, by decide⟩
  | arr => exact ⟨_, _, rfl, by decide, by decide⟩
  | obj => exact ⟨_, _, rfl, by decide, by decide⟩
  | num h =>
      obtain ⟨u, w, hw, hdigit | rfl⟩ := h.head
      · exact ⟨u, w, hw, not_white_of_isDigit hdigit, ne_of_isDigit hdigit (by decide)⟩
      · exact ⟨_, w, hw, by decide, by decide⟩

theorem literal_reads {word rest : List UInt16} {v : Value} :
    literal word v (word ++ rest) = some (v, rest) := by
  rw [literal, if_pos (List.isPrefixOf_iff_prefix.mpr (List.prefix_append word rest)),
    List.drop_left]

/-- What becomes true of each value at some depth is true of all of them at some depth. -/
theorem exists_depth {α : Type} {P : Nat → α → Prop} {xs : List α}
    (h : ∀ x ∈ xs, ∃ depth, ∀ d, depth ≤ d → P d x) :
    ∃ depth, ∀ d, depth ≤ d → ∀ x ∈ xs, P d x := by
  induction xs with
  | nil => exact ⟨0, fun _ _ _ hx => nomatch hx⟩
  | cons x xs ih =>
      obtain ⟨m, hm⟩ := h x List.mem_cons_self
      obtain ⟨n, hn⟩ := ih fun y hy => h y (List.mem_cons_of_mem _ hy)
      refine ⟨max m n, fun d hd y hy => ?_⟩
      rcases List.mem_cons.mp hy with rfl | hy
      · exact hm d (by omega)
      · exact hn d (by omega) y hy

section

variable {d : Nat} {rest : List UInt16}

theorem value_str_body (t : List UInt16) : Reads (value (d + 1)) (style.string t) (.str t) := by
  intro white rest hwhite _
  have htext : style.string t ++ rest = 0x22 :: (style.body t ++ 0x22 :: rest) := by simp [string]
  simp only [value, htext, skipWhite_append hwhite, skipWhite_cons (u := 0x22) (by decide),
    style.read_body]
  rfl

end

/-- Every value is read by a reader of enough depth. -/
theorem write_reads {v : Value} (h : Writable v) :
    ∃ depth, ∀ d, depth ≤ d → Reads (value d) (style.write v) v := by
  have hsucc {P : Nat → Prop} (h : ∀ d, P (d + 1)) : ∃ depth, ∀ d, depth ≤ d → P d :=
    ⟨1, fun d hd => by
      obtain ⟨e, rfl⟩ : ∃ e, d = e + 1 := ⟨d - 1, by omega⟩
      exact h e⟩
  induction h with
  | null =>
      refine hsucc fun d white rest hwhite _ => ?_
      simp only [value, skipWhite_append hwhite, write, List.cons_append]
      rw [skipWhite_cons (by decide)]
      exact @literal_reads [0x6E, 0x75, 0x6C, 0x6C] rest _
  | bool b =>
      refine hsucc fun d white rest hwhite _ => ?_
      cases b with
      | true =>
          simp only [value, skipWhite_append hwhite, write, List.cons_append]
          rw [skipWhite_cons (by decide)]
          exact @literal_reads [0x74, 0x72, 0x75, 0x65] rest _
      | false =>
          simp only [value, skipWhite_append hwhite, write, List.cons_append]
          rw [skipWhite_cons (by decide)]
          exact @literal_reads [0x66, 0x61, 0x6C, 0x73, 0x65] rest _
  | @num w h =>
      refine hsucc fun d white rest hwhite hstop => ?_
      have hread := h.read hstop
      obtain ⟨u, w', rfl, hu⟩ := h.head
      have hwhite' : isWhite u = false := by
        rcases hu with hdigit | rfl
        · exact not_white_of_isDigit hdigit
        · decide
      have hne (v : UInt16) (hv : isDigit v = false) (hminus : v ≠ 0x2D) : u ≠ v := by
        rcases hu with hdigit | rfl
        · exact ne_of_isDigit hdigit hv
        · exact hminus.symm
      simp only [value, skipWhite_append hwhite, write, List.cons_append]
      rw [skipWhite_cons hwhite']
      simp only
      rw [if_neg (hne _ (by decide) (by decide)), if_neg (hne _ (by decide) (by decide)),
        if_neg (hne _ (by decide) (by decide)), if_neg (hne _ (by decide) (by decide)),
        if_neg (hne _ (by decide) (by decide)), if_neg (hne _ (by decide) (by decide))]
      exact hread
  | str t => exact hsucc fun d => style.value_str_body t
  | @arr vs h ih =>
      obtain ⟨depth, hdepth⟩ := exists_depth ih
      refine ⟨depth + 1, fun d hd white rest hwhite _ => ?_⟩
      obtain ⟨e, rfl⟩ : ∃ e, d = e + 1 := ⟨d - 1, by omega⟩
      have hall : List.Forall₂ (Reads (value e)) (style.writeValues vs) vs := by
        rw [writeValues_eq, List.forall₂_map_left_iff, List.forall₂_same]
        exact hdepth e (by omega)
      have hhead : ∀ s ∈ style.writeValues vs,
          ∃ u s', s = u :: s' ∧ isWhite u = false ∧ u ≠ 0x5D := by
        rw [writeValues_eq]
        intro s hs
        obtain ⟨v, hv, rfl⟩ := List.mem_map.mp hs
        exact style.write_head (h v hv)
      have hbracket := style.bracket_join (value_shrinks e) closes_bracket hall hhead rest
      simp only [value, skipWhite_append hwhite, write, List.cons_append, List.append_assoc,
        List.nil_append]
      rw [skipWhite_cons (by decide)]
      simp only
      rw [if_neg (by decide), if_pos trivial, hbracket]
      rfl
  | @obj ms h ih =>
      obtain ⟨depth, hdepth⟩ := exists_depth ih
      refine ⟨depth + 1, fun d hd white rest hwhite _ => ?_⟩
      obtain ⟨e, rfl⟩ : ∃ e, d = e + 1 := ⟨d - 1, by omega⟩
      have hall : List.Forall₂ (Reads (member (value e))) (style.writeMembers ms) ms := by
        rw [writeMembers_eq, List.forall₂_map_left_iff, List.forall₂_same]
        intro m hm
        rw [writeMember_eq]
        exact style.member_reads (hdepth e (by omega) m hm) m.1
      have hhead : ∀ s ∈ style.writeMembers ms,
          ∃ u s', s = u :: s' ∧ isWhite u = false ∧ u ≠ 0x7D := by
        rw [writeMembers_eq]
        intro s hs
        obtain ⟨m, -, rfl⟩ := List.mem_map.mp hs
        rw [writeMember_eq]
        exact ⟨_, _, rfl, by decide, by decide⟩
      have hbracket := style.bracket_join (member_shrinks (value_shrinks e)) closes_brace hall
        hhead rest
      simp only [value, skipWhite_append hwhite, write, List.cons_append, List.append_assoc,
        List.nil_append]
      rw [skipWhite_cons (by decide)]
      simp only
      rw [if_pos trivial, hbracket]
      rfl

/-- What is written is read again. -/
theorem parse_write {v : Value} (h : Writable v) : parse (style.write v) = some v := by
  obtain ⟨depth, hdepth⟩ := style.write_reads h
  have hread := hdepth (max depth (style.write v).length) (Nat.le_max_left _ _) [] [] (by simp)
    stops_nil
  rw [List.append_nil, List.nil_append, value_depth (Nat.le_max_right _ _) (Nat.le_refl _)] at hread
  rw [parse, hread]
  rfl

end Style

/-! ## Two writers -/

/-- A hexadecimal digit, in lower case. -/
def hexLetter (n : UInt16) : UInt16 := if n < 10 then 0x30 + n else 0x57 + n

/-- `\u` and four digits. -/
def hexEscape (u : UInt16) : List UInt16 :=
  [0x5C, 0x75, hexLetter (u / 0x1000), hexLetter (u / 0x100 % 0x10), hexLetter (u / 0x10 % 0x10),
    hexLetter (u % 0x10)]

/-- The units with an escape of one letter, and the letter. -/
def letters : List (UInt16 × UInt16) :=
  [(0x22, 0x22), (0x5C, 0x5C), (0x08, 0x62), (0x0C, 0x66), (0x0A, 0x6E), (0x0D, 0x72), (0x09, 0x74)]

def escapeUnit (u : UInt16) : List UInt16 :=
  match letters.lookup u with
  | some v => [0x5C, v]
  | none => if u < 0x20 then hexEscape u else [u]

/-- The strings of `JSON.stringify`: a surrogate that is alone is escaped. -/
def stringifyBody : List UInt16 → List UInt16
  | [] => []
  | [u] => if isHigh u || isLow u then hexEscape u else escapeUnit u
  | u :: v :: t =>
      if isHigh u && isLow v then u :: v :: stringifyBody t
      else if isHigh u || isLow u then hexEscape u ++ stringifyBody (v :: t)
      else escapeUnit u ++ stringifyBody (v :: t)

/-- The strings of `json.dumps` with `ensure_ascii=False`. -/
def dumpsBody (t : List UInt16) : List UInt16 := t.flatMap escapeUnit

/-- What reads as one unit of a string, in front of the rest of it. -/
def ReadsUnit (s : List UInt16) (u : UInt16) : Prop :=
  ∀ a rest, stringBody (s ++ a :: rest) =
    (stringBody (a :: rest)).map fun r => (u :: r.1, r.2)

theorem hexDigit_hexLetter {n : UInt16} (h : n < 16) : hexDigit (hexLetter n) = some n := by
  have hall : ∀ k : Fin 16, hexDigit (hexLetter (UInt16.ofNat k)) = some (UInt16.ofNat k) := by
    decide
  have hn := hall ⟨n.toNat, h⟩
  simpa using hn

theorem hexUnit_letters (u : UInt16) :
    hexUnit (hexLetter (u / 0x1000)) (hexLetter (u / 0x100 % 0x10)) (hexLetter (u / 0x10 % 0x10))
      (hexLetter (u % 0x10)) = some u := by
  have hlt := u.toNat_lt
  have hfirst : u / 0x1000 < 16 := by
    rw [UInt16.lt_iff_toNat_lt, UInt16.toNat_div]
    simp only [UInt16.reduceToNat]
    omega
  have hmod (v : UInt16) : v % 0x10 < 16 := by
    rw [UInt16.lt_iff_toNat_lt, UInt16.toNat_mod]
    simp only [UInt16.reduceToNat]
    omega
  rw [hexUnit, hexDigit_hexLetter hfirst, hexDigit_hexLetter (hmod _), hexDigit_hexLetter (hmod _),
    hexDigit_hexLetter (hmod _)]
  simp only [Option.bind_eq_bind, Option.bind_some, Option.pure_def, Option.some.injEq]
  rw [← UInt16.toNat_inj]
  simp
  omega

theorem hexEscape_reads (u : UInt16) : ReadsUnit (hexEscape u) u := by
  intro a rest
  simp only [hexEscape, List.cons_append, List.nil_append]
  rw [stringBody, if_neg (by decide), if_pos rfl]
  simp only
  rw [if_pos trivial, hexUnit_letters]
  cases stringBody (a :: rest) <;> rfl

theorem letter_reads {u v : UInt16} (h : letters.lookup u = some v) : ReadsUnit [0x5C, v] u := by
  have hletters : letters.all (fun m => m.2 != 0x75 && escape m.2 == some m.1) = true := by
    decide
  obtain ⟨before, after, hsplit, -⟩ := List.lookup_eq_some_iff.mp h
  have hmem : (u, v) ∈ letters := by
    rw [hsplit]
    simp
  have hletter := List.all_eq_true.mp hletters _ hmem
  rw [Bool.and_eq_true, bne_iff_ne, beq_iff_eq] at hletter
  obtain ⟨hv, hescape⟩ := hletter
  intro a rest
  simp only [List.cons_append, List.nil_append]
  rw [stringBody.eq_def]
  dsimp only
  rw [if_neg (by decide), if_pos rfl, if_neg hv, hescape]
  cases stringBody (a :: rest) <;> rfl

theorem plain_reads {u : UInt16} (hquote : u ≠ 0x22) (hback : u ≠ 0x5C) (hcontrol : ¬ u < 0x20) :
    ReadsUnit [u] u := by
  intro a rest
  rw [List.singleton_append, stringBody.eq_def]
  dsimp only
  rw [if_neg hquote, if_neg hback, if_neg hcontrol]

theorem escapeUnit_reads (u : UInt16) : ReadsUnit (escapeUnit u) u := by
  rw [escapeUnit]
  split
  · next v h => exact letter_reads h
  · next h =>
      have hne (v : UInt16) (hv : (letters.lookup v).isSome) : u ≠ v := by
        rintro rfl
        rw [h] at hv
        cases hv
      split
      · exact hexEscape_reads u
      · next hcontrol => exact plain_reads (hne _ (by decide)) (hne _ (by decide)) hcontrol

theorem surrogate_reads {u : UInt16} (h : isHigh u = true ∨ isLow u = true) : ReadsUnit [u] u := by
  have hlow : 0xD800 ≤ u := by
    rcases h with h | h <;> simp only [isHigh, isLow, Bool.and_eq_true, decide_eq_true_eq] at h
    · exact h.1
    · exact UInt16.le_trans (show (0xD800 : UInt16) ≤ 0xDC00 by decide) h.1
  have hne (v : UInt16) (hv : ¬ 0xD800 ≤ v) : u ≠ v := fun h => hv (h ▸ hlow)
  refine plain_reads (hne _ (by decide)) (hne _ (by decide)) fun hcontrol => ?_
  exact absurd (UInt16.lt_of_le_of_lt hlow hcontrol) (by decide)

/-- Units that are read one by one are a string. -/
theorem ReadsUnit.append {s t : List UInt16} {u : UInt16} {text rest : List UInt16}
    (h : ReadsUnit s u) (ht : stringBody (t ++ 0x22 :: rest) = some (text, rest)) :
    stringBody (s ++ t ++ 0x22 :: rest) = some (u :: text, rest) := by
  obtain ⟨a, tail, htail⟩ : ∃ a tail, t ++ 0x22 :: rest = a :: tail := by
    cases t <;> exact ⟨_, _, rfl⟩
  rw [List.append_assoc, htail, h, ← htail, ht]
  rfl

theorem read_nil (rest : List UInt16) : stringBody ([] ++ 0x22 :: rest) = some ([], rest) := by
  rw [List.nil_append, stringBody.eq_def]
  rfl

theorem read_dumpsBody (t rest : List UInt16) :
    stringBody (dumpsBody t ++ 0x22 :: rest) = some (t, rest) := by
  induction t with
  | nil => exact read_nil rest
  | cons u t ih =>
      rw [dumpsBody, List.flatMap_cons]
      exact (escapeUnit_reads u).append ih

theorem read_stringifyBody (t rest : List UInt16) :
    stringBody (stringifyBody t ++ 0x22 :: rest) = some (t, rest) := by
  fun_induction stringifyBody t with
  | case1 => exact read_nil rest
  | case2 u h =>
      have := (hexEscape_reads u).append (read_nil rest)
      rwa [List.append_nil] at this
  | case3 u h =>
      have := (escapeUnit_reads u).append (read_nil rest)
      rwa [List.append_nil] at this
  | case4 u v t h ih =>
      rw [Bool.and_eq_true] at h
      exact (surrogate_reads (.inl h.1)).append ((surrogate_reads (.inr h.2)).append ih)
  | case5 u v t _ h ih => exact (hexEscape_reads u).append ih
  | case6 u v t _ h ih => exact (escapeUnit_reads u).append ih

namespace Style

def stringify : Style where
  comma := []
  colon := []
  body := stringifyBody
  comma_white := white_nil
  colon_white := white_nil
  read_body := read_stringifyBody

/-- `json.dumps` with `ensure_ascii=False`, and the white space of its separators. -/
def dumps (comma colon : List UInt16) (hcomma : ∀ u ∈ comma, isWhite u = true)
    (hcolon : ∀ u ∈ colon, isWhite u = true) : Style where
  comma := comma
  colon := colon
  body := dumpsBody
  comma_white := hcomma
  colon_white := hcolon
  read_body := read_dumpsBody

end Style

end VTranser.Json

import Mathlib.Data.List.Basic

/-!
# UTF-16 code units

One language counts a text in code points, the other in 16-bit code units. The
two counts differ exactly on the characters outside the basic plane, which take
two units: `utf16_length_eq_iff`. The characters can be had back from the units,
`chars_utf16`.
-/

namespace VTranser.Utf16

/-- The characters that are one code unit. -/
def inBmp (c : Char) : Bool := c.val < 0x10000

/-- The code units of one character: itself, or a surrogate pair. -/
def units (c : Char) : List UInt16 :=
  if inBmp c then [c.val.toUInt16]
  else [(0xD800 + (c.val - 0x10000) / 0x400).toUInt16,
        (0xDC00 + (c.val - 0x10000) % 0x400).toUInt16]

/-- A text as the code units the other side stores. -/
def utf16 (s : List Char) : List UInt16 := s.flatMap units

theorem units_length (c : Char) : (units c).length = if inBmp c then 1 else 2 := by
  unfold units
  split <;> rfl

@[simp] theorem utf16_nil : utf16 [] = [] := rfl

theorem length_le_utf16 (s : List Char) : s.length ≤ (utf16 s).length := by
  induction s with
  | nil => exact Nat.le_refl _
  | cons c cs ih =>
      have hc := units_length c
      rw [utf16, List.flatMap_cons, List.length_append, List.length_cons]
      rw [utf16] at ih
      split at hc <;> omega

/-- The two counts agree exactly on the basic plane. -/
theorem utf16_length_eq_iff (s : List Char) :
    (utf16 s).length = s.length ↔ s.all inBmp = true := by
  induction s with
  | nil => simp
  | cons c cs ih =>
      have hc := units_length c
      have hle := length_le_utf16 cs
      rw [utf16] at ih hle
      rw [utf16, List.flatMap_cons, List.length_append, List.length_cons, List.all_cons,
        Bool.and_eq_true, ← ih]
      cases hb : inBmp c with
      | true => rw [hb, if_pos rfl] at hc; simp only [true_and]; omega
      | false => rw [hb, if_neg (by simp)] at hc; simp only [Bool.false_eq_true, false_and, iff_false]; omega

@[simp] theorem utf16_cons (c : Char) (s : List Char) : utf16 (c :: s) = units c ++ utf16 s :=
  List.flatMap_cons

@[simp] theorem utf16_append (s t : List Char) : utf16 (s ++ t) = utf16 s ++ utf16 t :=
  List.flatMap_append

/-! ## Back to characters -/

def isHigh (u : UInt16) : Bool := 0xD800 ≤ u && u ≤ 0xDBFF

def isLow (u : UInt16) : Bool := 0xDC00 ≤ u && u ≤ 0xDFFF

/-- The character of a surrogate pair. -/
def pair (u v : UInt16) : Char :=
  Char.ofNat (0x10000 + (u.toNat - 0xD800) * 0x400 + (v.toNat - 0xDC00))

/-- The characters of a text, unless a surrogate in it is alone. -/
def chars : List UInt16 → Option (List Char)
  | [] => some []
  | [u] => if isHigh u || isLow u then none else some [Char.ofNat u.toNat]
  | u :: v :: s =>
      if isHigh u then if isLow v then (chars s).map (pair u v :: ·) else none
      else if isLow u then none
      else (chars (v :: s)).map (Char.ofNat u.toNat :: ·)

theorem chars_cons {u : UInt16} {s : List UInt16} (hhigh : isHigh u = false)
    (hlow : isLow u = false) : chars (u :: s) = (chars s).map (Char.ofNat u.toNat :: ·) := by
  cases s with
  | nil => simp [chars, hhigh, hlow]
  | cons v s => simp [chars, hhigh, hlow]

theorem isHigh_iff {u : UInt16} : isHigh u = true ↔ 0xD800 ≤ u.toNat ∧ u.toNat ≤ 0xDBFF := by
  simp [isHigh, UInt16.le_iff_toNat_le]

theorem isLow_iff {u : UInt16} : isLow u = true ↔ 0xDC00 ≤ u.toNat ∧ u.toNat ≤ 0xDFFF := by
  simp [isLow, UInt16.le_iff_toNat_le]

/-- The surrogates of a character outside the basic plane, as numbers. -/
theorem toNat_high {v : UInt32} (h : 0x10000 ≤ v.toNat) (hv : v.toNat < 0x110000) :
    (0xD800 + (v - 0x10000) / 0x400).toUInt16.toNat = 0xD800 + (v.toNat - 0x10000) / 0x400 := by
  have hle : (0x10000 : UInt32) ≤ v := h
  rw [UInt32.toNat_toUInt16, UInt32.toNat_add, UInt32.toNat_div, UInt32.toNat_sub_of_le _ _ hle]
  simp only [UInt32.reduceToNat]
  omega

theorem toNat_low {v : UInt32} (h : 0x10000 ≤ v.toNat) :
    (0xDC00 + (v - 0x10000) % 0x400).toUInt16.toNat = 0xDC00 + (v.toNat - 0x10000) % 0x400 := by
  have hle : (0x10000 : UInt32) ≤ v := h
  rw [UInt32.toNat_toUInt16, UInt32.toNat_add, UInt32.toNat_mod, UInt32.toNat_sub_of_le _ _ hle]
  simp only [UInt32.reduceToNat]
  omega

theorem chars_units (c : Char) (s : List UInt16) :
    chars (units c ++ s) = (chars s).map (c :: ·) := by
  have hvalid : c.toNat < 0xD800 ∨ 0xDFFF < c.toNat ∧ c.toNat < 0x110000 := c.valid
  rw [units]
  split
  · next hbmp =>
      have hlt : c.toNat < 0x10000 := by simpa [inBmp, UInt32.lt_iff_toNat_lt] using hbmp
      have hu : c.val.toUInt16.toNat = c.toNat := by
        rw [UInt32.toNat_toUInt16]
        exact Nat.mod_eq_of_lt hlt
      rw [List.singleton_append, chars_cons, hu, Char.ofNat_toNat]
      · rw [Bool.eq_false_iff, ne_eq, isHigh_iff, hu]
        omega
      · rw [Bool.eq_false_iff, ne_eq, isLow_iff, hu]
        omega
  · next hbmp =>
      have hle : 0x10000 ≤ c.val.toNat := by simpa [inBmp, UInt32.lt_iff_toNat_lt] using hbmp
      have hlt : c.val.toNat < 0x110000 := by
        rcases hvalid with h | h
        · exact Nat.lt_trans h (by decide)
        · exact h.2
      have hhigh := toNat_high hle hlt
      have hlow := toNat_low hle
      rw [List.cons_append, List.singleton_append, chars, if_pos, if_pos, pair, hhigh, hlow]
      · have hsum : 0x10000 + (0xD800 + (c.val.toNat - 0x10000) / 0x400 - 0xD800) * 0x400 +
            (0xDC00 + (c.val.toNat - 0x10000) % 0x400 - 0xDC00) = c.toNat := by
          have : c.toNat = c.val.toNat := rfl
          omega
        rw [hsum, Char.ofNat_toNat]
      · rw [isLow_iff, hlow]
        omega
      · rw [isHigh_iff, hhigh]
        omega

theorem chars_utf16 (s : List Char) : chars (utf16 s) = some s := by
  induction s with
  | nil => rfl
  | cons c s ih => rw [utf16_cons, chars_units, ih, Option.map_some]

end VTranser.Utf16

import Mathlib.Data.List.DropRight

/-!
# Base64

Three bytes are four digits of six bits. Where bytes are left over the digits say as
much of them, and the text is filled up with `=` to a multiple of four.

The decoder forgives: it leaves out blanks, needs no `=`, and drops the bits of the
last digit that are of no byte.
-/

namespace VTranser.Base64

/-- The digits of bytes. -/
def sextets : List UInt8 → List Nat
  | [] => []
  | [a] => [a.toNat / 4, a.toNat % 4 * 16]
  | [a, b] => [a.toNat / 4, a.toNat % 4 * 16 + b.toNat / 16, b.toNat % 16 * 4]
  | a :: b :: c :: rest =>
      a.toNat / 4 :: (a.toNat % 4 * 16 + b.toNat / 16) :: (b.toNat % 16 * 4 + c.toNat / 64) ::
        c.toNat % 64 :: sextets rest

/-- The bytes of digits. -/
def octets : List Nat → List UInt8
  | w :: x :: y :: z :: rest =>
      UInt8.ofNat (w * 4 + x / 16) :: UInt8.ofNat (x % 16 * 16 + y / 4) ::
        UInt8.ofNat (y % 4 * 64 + z) :: octets rest
  | [w, x, y] => [UInt8.ofNat (w * 4 + x / 16), UInt8.ofNat (x % 16 * 16 + y / 4)]
  | [w, x] => [UInt8.ofNat (w * 4 + x / 16)]
  | _ => []

/-- `A` to `Z`, `a` to `z`, `0` to `9`, `+` and `/`. -/
def digit (n : Nat) : UInt16 :=
  if n < 26 then UInt16.ofNat (0x41 + n)
  else if n < 52 then UInt16.ofNat (0x61 + (n - 26))
  else if n < 62 then UInt16.ofNat (0x30 + (n - 52))
  else if n = 62 then 0x2B
  else 0x2F

def digitValue (u : UInt16) : Option Nat :=
  let n := u.toNat
  if 0x41 ≤ n ∧ n ≤ 0x5A then some (n - 0x41)
  else if 0x61 ≤ n ∧ n ≤ 0x7A then some (n - 0x61 + 26)
  else if 0x30 ≤ n ∧ n ≤ 0x39 then some (n - 0x30 + 52)
  else if n = 0x2B then some 62
  else if n = 0x2F then some 63
  else none

/-- `=` -/
def fill : UInt16 := 0x3D

def isBlank (u : UInt16) : Bool := [0x09, 0x0A, 0x0C, 0x0D, 0x20].contains u.toNat

/-- What fills a text up to a multiple of four. -/
def filling (n : Nat) : List UInt16 := List.replicate ((4 - n % 4) % 4) fill

def encode (bytes : List UInt8) : List UInt16 :=
  let digits := (sextets bytes).map digit
  digits ++ filling digits.length

/-- A text without the `=` that may fill it up, of which there are at most two. -/
def withoutFilling (s : List UInt16) : List UInt16 :=
  if s.length % 4 = 0 then s.take (s.length - min 2 (s.rtakeWhile (· == fill)).length) else s

def decode (s : List UInt16) : Option (List UInt8) :=
  let s := withoutFilling (s.filter fun u => !isBlank u)
  if s.length % 4 = 1 then none else (s.mapM digitValue).map octets

/-! ## Bytes and digits -/

theorem octets_sextets (bytes : List UInt8) : octets (sextets bytes) = bytes := by
  fun_induction sextets bytes with
  | case1 => rfl
  | case2 a =>
      have ha := a.toNat_lt
      simp only [octets, List.cons.injEq, and_true]
      rw [← UInt8.toNat_inj, UInt8.toNat_ofNat']
      omega
  | case3 a b =>
      have ha := a.toNat_lt
      have hb := b.toNat_lt
      simp only [octets, List.cons.injEq, and_true]
      constructor
      · rw [← UInt8.toNat_inj, UInt8.toNat_ofNat']
        omega
      · rw [← UInt8.toNat_inj, UInt8.toNat_ofNat']
        omega
  | case4 a b c rest ih =>
      have ha := a.toNat_lt
      have hb := b.toNat_lt
      have hc := c.toNat_lt
      simp only [octets, ih, List.cons.injEq, and_true]
      refine ⟨?_, ?_, ?_⟩
      · rw [← UInt8.toNat_inj, UInt8.toNat_ofNat']
        omega
      · rw [← UInt8.toNat_inj, UInt8.toNat_ofNat']
        omega
      · rw [← UInt8.toNat_inj, UInt8.toNat_ofNat']
        omega

theorem lt_of_mem_sextets {bytes : List UInt8} : ∀ n ∈ sextets bytes, n < 64 := by
  fun_induction sextets bytes with
  | case1 => exact nofun
  | case2 a =>
      have ha := a.toNat_lt
      simp only [List.forall_mem_cons]
      exact ⟨by omega, by omega, nofun⟩
  | case3 a b =>
      have ha := a.toNat_lt
      have hb := b.toNat_lt
      simp only [List.forall_mem_cons]
      exact ⟨by omega, by omega, by omega, nofun⟩
  | case4 a b c rest ih =>
      have ha := a.toNat_lt
      have hb := b.toNat_lt
      have hc := c.toNat_lt
      simp only [List.forall_mem_cons]
      exact ⟨by omega, by omega, by omega, by omega, ih⟩

/-- There is no single digit left. -/
theorem length_sextets (bytes : List UInt8) : (sextets bytes).length % 4 ≠ 1 := by
  fun_induction sextets bytes with
  | case1 => decide
  | case2 a => simp
  | case3 a b => simp
  | case4 a b c rest ih =>
      simp only [List.length_cons]
      omega

/-- What holds of every digit holds of every one of the text. -/
theorem forall_mem_map_digit {p : UInt16 → Prop} (h : ∀ n < 64, p (digit n))
    (bytes : List UInt8) : ∀ u ∈ (sextets bytes).map digit, p u := by
  intro u hu
  obtain ⟨n, hn, rfl⟩ := List.mem_map.mp hu
  exact h n (lt_of_mem_sextets n hn)

theorem mapM_digitValue {ds : List Nat} (h : ∀ d ∈ ds, d < 64) :
    (ds.map digit).mapM digitValue = some ds := by
  have hvalue : ∀ d < 64, digitValue (digit d) = some d := by decide
  induction ds with
  | nil => rfl
  | cons d ds ih =>
      rw [List.forall_mem_cons] at h
      rw [List.map_cons, List.mapM_cons, hvalue d h.1, ih h.2]
      rfl

/-! ## Texts -/

/-- A text that ends without `=` keeps its end behind what filled it up. -/
theorem rtakeWhile_append_replicate {s : List UInt16} (h : ∀ u ∈ s, u ≠ fill) (n : Nat) :
    (s ++ List.replicate n fill).rtakeWhile (· == fill) = List.replicate n fill := by
  rw [List.rtakeWhile, List.reverse_append, List.reverse_replicate,
    List.takeWhile_append_of_pos (by simp), List.takeWhile_eq_nil_iff.mpr, List.append_nil,
    List.reverse_replicate]
  intro hlen
  have hmem := List.mem_reverse.mp (List.getElem_mem hlen)
  simpa using h _ hmem

theorem withoutFilling_append {s : List UInt16} (h : ∀ u ∈ s, u ≠ fill)
    (hlen : s.length % 4 ≠ 1) : withoutFilling (s ++ filling s.length) = s := by
  have hfill : (filling s.length).length = (4 - s.length % 4) % 4 := List.length_replicate
  rw [withoutFilling, if_pos, filling, rtakeWhile_append_replicate h, ← filling, hfill]
  · rw [List.length_append, hfill, List.take_append_of_le_length (by omega),
      List.take_of_length_le (by omega)]
  · rw [List.length_append, hfill]
    omega

theorem filter_notBlank {s : List UInt16} (h : ∀ u ∈ s, isBlank u = false) :
    (s.filter fun u => !isBlank u) = s := by
  rw [List.filter_eq_self]
  intro u hu
  rw [h u hu]
  rfl

/-- What was encoded is decoded. -/
theorem decode_encode (bytes : List UInt8) : decode (encode bytes) = some bytes := by
  have hblank : ∀ u ∈ encode bytes, isBlank u = false := by
    intro u hu
    rcases List.mem_append.mp hu with hu | hu
    · exact @forall_mem_map_digit (isBlank · = false) (by decide) bytes u hu
    · rw [List.eq_of_mem_replicate hu]
      rfl
  have hfill := @forall_mem_map_digit (· ≠ fill) (by decide) bytes
  have hlen : ((sextets bytes).map digit).length % 4 ≠ 1 := by
    rw [List.length_map]
    exact length_sextets bytes
  rw [decode, filter_notBlank hblank, encode, withoutFilling_append hfill hlen, if_neg hlen,
    mapM_digitValue lt_of_mem_sextets, Option.map_some, octets_sextets]

end VTranser.Base64

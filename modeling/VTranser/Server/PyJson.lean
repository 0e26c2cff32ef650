import VTranser.Text

/-!
# JSON messages as Python sees them

What `json.loads` makes of a text, and what the receive loop asks of it. `none`
stands for an exception where a function returns an `Option`.
-/

namespace VTranser.Server

/-- A `float`. -/
inductive PyFloat
  | finite (q : Rat)
  | inf (negative : Bool)
  | nan
  deriving DecidableEq, Repr

/-- A value from `json.loads`. A dictionary has each key once. -/
inductive PyJson
  | null
  | bool (b : Bool)
  | int (n : Int)
  | float (x : PyFloat)
  | str (s : PyStr)
  | list (xs : List PyJson)
  | dict (items : List (PyStr × PyJson))
  deriving Repr

/-- `str.lower` on the letters of the words that the receive loop compares with. -/
def lower (s : PyStr) : PyStr := s.map Char.toLower

/-! ## `int` -/

/-- The code points of the digit zero in the scripts that have decimal digits. -/
def decimalZeros : List Nat :=
  [0x30, 0x660, 0x6F0, 0x7C0, 0x966, 0x9E6, 0xA66, 0xAE6, 0xB66, 0xBE6, 0xC66, 0xCE6, 0xD66,
    0xDE6, 0xE50, 0xED0, 0xF20, 0x1040, 0x1090, 0x17E0, 0x1810, 0x1946, 0x19D0, 0x1A80, 0x1A90,
    0x1B50, 0x1BB0, 0x1C40, 0x1C50, 0xA620, 0xA8D0, 0xA900, 0xA9D0, 0xA9F0, 0xAA50, 0xABF0,
    0xFF10, 0x104A0, 0x10D30, 0x11066, 0x110F0, 0x11136, 0x111D0, 0x112F0, 0x11450, 0x114D0,
    0x11650, 0x116C0, 0x11730, 0x118E0, 0x11950, 0x11C50, 0x11D50, 0x11DA0, 0x16A60, 0x16AC0,
    0x16B50, 0x1D7CE, 0x1D7D8, 0x1D7E2, 0x1D7EC, 0x1D7F6, 0x1E140, 0x1E2F0, 0x1E950, 0x1FBF0]

/-- The value of a decimal digit. -/
def decimal (c : Char) : Option Nat :=
  (decimalZeros.find? fun first => first ≤ c.toNat && c.toNat < first + 10).map (c.toNat - ·)

/-- The blanks that `int` ignores around a number: `str.isspace`, less the four
separators of ASCII. -/
def intSpace (n : Nat) : Bool := pySpace n && !(0x1C ≤ n && n ≤ 0x1F)

/-- The digits of a number, with single underscores between them at most, and no more
digits than `sys.int_info.default_max_str_digits`. -/
def digits (s : PyStr) : Option Nat :=
  let groups := s.splitOn '_'
  if groups.all (fun g => !g.isEmpty) ∧ groups.flatten.length ≤ 4300 then
    (groups.flatten.mapM decimal).map fun ds => ds.foldl (fun n d => 10 * n + d) 0
  else none

/-- `int` of a text. -/
def intOfStr (s : PyStr) : Option Int :=
  match (s.dropWhile (onChar intSpace)).rdropWhile (onChar intSpace) with
  | '+' :: ds => (digits ds).map fun n => n
  | '-' :: ds => (digits ds).map fun n => -n
  | ds => (digits ds).map fun n => n

/-! ## `base64.b64decode` -/

/-- The value of a character of the base 64 alphabet. -/
def base64Value (c : Char) : Option Nat :=
  let n := c.toNat
  if 0x41 ≤ n ∧ n ≤ 0x5A then some (n - 0x41)
  else if 0x61 ≤ n ∧ n ≤ 0x7A then some (n - 0x61 + 26)
  else if 0x30 ≤ n ∧ n ≤ 0x39 then some (n - 0x30 + 52)
  else if c = '+' then some 62
  else if c = '/' then some 63
  else none

/-- `binascii.a2b_base64`, not strict: other characters are passed over, and the
padding that completes a group ends the data. `quad` counts the characters of the
group, `pads` the padding since the last of them, `left` is what they have beyond
whole bytes. -/
def a2bBase64 (quad pads left : Nat) : PyStr → Option (List UInt8)
  | [] => if quad = 0 then some [] else none
  | c :: cs =>
      if c = '=' then
        if 2 ≤ quad ∧ 4 ≤ quad + (pads + 1) then some []
        else a2bBase64 quad (if 2 ≤ quad then pads + 1 else pads) left cs
      else
        match base64Value c with
        | none => a2bBase64 quad pads left cs
        | some v =>
            match quad with
            | 0 => a2bBase64 1 0 v cs
            | 1 => (a2bBase64 2 0 (v % 16) cs).map (UInt8.ofNat (left * 4 + v / 16) :: ·)
            | 2 => (a2bBase64 3 0 (v % 4) cs).map (UInt8.ofNat (left * 16 + v / 4) :: ·)
            | _ => (a2bBase64 0 0 0 cs).map (UInt8.ofNat (left * 64 + v) :: ·)

/-! ## Values -/

namespace PyJson

/-- `bool` -/
def truthy : PyJson → Bool
  | null => false
  | bool b => b
  | int n => n != 0
  | float (.finite q) => q != 0
  | float _ => true
  | str s => !s.isEmpty
  | list xs => !xs.isEmpty
  | dict items => !items.isEmpty

/-- `int` -/
def toInt : PyJson → Option Int
  | bool b => some (if b then 1 else 0)
  | int n => some n
  | float (.finite q) => some (q.num.tdiv q.den)
  | str s => intOfStr s
  | _ => none

/-- `base64.b64decode` -/
def b64decode : PyJson → Option (List UInt8)
  | str s => if s.all fun c => c.toNat < 128 then a2bBase64 0 0 0 s else none
  | _ => none

/-- The items of a dictionary; nothing else has the method `get`. -/
def items? : PyJson → Option (List (PyStr × PyJson))
  | dict items => some items
  | _ => none

end PyJson

/-- `items.get(key)`, before a default takes the place of what is missing. -/
def getKey (items : List (PyStr × PyJson)) (key : String) : Option PyJson :=
  items.lookup key.toList

end VTranser.Server

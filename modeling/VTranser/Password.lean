import Mathlib.Algebra.Order.Ring.Rat
import VTranser.Auth
import VTranser.Lib.Base64

/-!
# Password records

A record is a text of four fields with `$` between them: how it was made, how many
rounds, the salt and the hash. A password is right if it has the hash of the record,
and the two hashes are compared as texts.

PBKDF2 and the bytes of a text are the browser's, and so is the value of a text that
is not a short decimal number.
-/

namespace VTranser.Password

def pbkdf2Iters : Nat := 120000

/-- What the browser has: the bytes of a text, the bits that are derived from a password
and a salt, and the number of a text, if it is one. -/
structure Browser where
  encode : JsStr → List UInt8
  deriveBits : List UInt8 → List UInt8 → Rat → List UInt8
  number : JsStr → Option Rat

/-! ## Base64 in addresses -/

def toUrlDigit (u : UInt16) : UInt16 :=
  if u = 0x2B then 0x2D else if u = 0x2F then 0x5F else u

def ofUrlDigit (u : UInt16) : UInt16 :=
  if u = 0x2D then 0x2B else if u = 0x5F then 0x2F else u

/-- `base64url` -/
def base64url (bytes : List UInt8) : JsStr :=
  ((Base64.encode bytes).map toUrlDigit).rdropWhile (· == Base64.fill)

/-- `base64urlToBytes`; `atob` throws where a text is none that it knows. -/
def base64urlToBytes (s : JsStr) : Option (List UInt8) :=
  let b64 := s.map ofUrlDigit
  Base64.decode (b64 ++ Base64.filling b64.length)

/-! ## Records -/

section

variable (browser : Browser)

/-- `Number(s)`; no more than fifteen decimal digits are exactly their number. -/
def toNumber (s : JsStr) : Option Rat :=
  if s.all Auth.isDigit && !s.isEmpty && s.length ≤ 15 then
    some (s.foldl (fun n u => 10 * n + (u.toNat - 0x30)) 0 : Nat)
  else browser.number s

def pbkdf2 (password : JsStr) (saltBytes : List UInt8) (iterations : Rat) : List UInt8 :=
  browser.deriveBits (browser.encode password) saltBytes iterations

/-- `makePasswordHash` with the salt it gets. -/
def makePasswordHash (salt : List UInt8) (password : JsStr) : JsStr :=
  let hashBytes := pbkdf2 browser password salt pbkdf2Iters
  jsText "pbkdf2_sha256" ++ jsText "$" ++ jsText (toString pbkdf2Iters) ++ jsText "$" ++
    base64url salt ++ jsText "$" ++ base64url hashBytes

/-- `verifyPassword`, which throws where the salt is no text of bytes. -/
def verifyPassword (password stored : JsStr) : Option Bool :=
  match stored.splitOn 0x24 with
  | [hashPrefix, iters, salt, expect] =>
      if hashPrefix ≠ jsText "pbkdf2_sha256" then some false
      else
        let iter := match toNumber browser iters with
          | some n => if n = 0 then (pbkdf2Iters : Rat) else n
          | none => pbkdf2Iters
        (base64urlToBytes salt).map fun salt =>
          decide (base64url (pbkdf2 browser password salt iter) = expect)
  | _ => some false

end

end VTranser.Password

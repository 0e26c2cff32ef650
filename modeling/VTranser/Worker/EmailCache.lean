import Mathlib.Algebra.Order.Ring.Rat
import VTranser.Auth
import VTranser.Lib.ObjMap

/-!
# The user ids by email

The service worker remembers which user id belongs to an email, the newest entries of
them. The stored map may be of any version: an entry may be the id alone, or an object
with fields of two names, and one without a time is as new as the moment it is read.

What `String` and `Number` make of a value is a parameter where it is not the value
itself, and so are the letters that `toLowerCase` knows. A field that is missing is
`null`.
-/

namespace VTranser.Worker

/-- A value in the storage. -/
inductive JsVal
  | null
  | bool (b : Bool)
  | num (n : Rat)
  | str (s : JsStr)
  | arr (items : List JsVal)
  | obj (fields : List (JsStr × JsVal))

/-- Conversions: the text of a value, and the number of it if that is finite. -/
structure Convert where
  string : JsVal → JsStr
  number : JsVal → Option Rat
  toLowerCase : JsStr → JsStr

namespace JsVal

/-- `v?.name` -/
def field (name : String) : JsVal → JsVal
  | obj fields => (fields.lookup (jsText name)).getD null
  | _ => null

def truthy : JsVal → Bool
  | null => false
  | bool b => b
  | num n => n != 0
  | str s => !s.isEmpty
  | arr _ | obj _ => true

/-- `a ?? b` -/
def orElse : JsVal → JsVal → JsVal
  | null, b => b
  | a, _ => a

end JsVal

structure EmailRow where
  userId : JsStr
  updatedAt : Rat
  deriving DecidableEq

def EmailRow.toVal (row : EmailRow) : JsVal :=
  .obj [(jsText "user_id", .str row.userId), (jsText "updated_at", .num row.updatedAt)]

def maxEmailKeys : Nat := 300

/-! ## Keys of objects -/

/-- The number that a key is the index of: decimal, without a zero in front, and less
than the greatest length of an array. -/
def indexOf? (k : JsStr) : Option Nat :=
  let n := k.foldl (fun n u => 10 * n + (u.toNat - 0x30)) 0
  if k.all Auth.isDigit && !k.isEmpty && (k.head? != some 0x30 || k.length == 1) &&
      decide (n < 2 ^ 32 - 1) then some n else none

/-- `Object.keys`: the indices in their order, then the others as they were set. -/
def objectKeys {ν : Type*} (m : ObjMap JsStr ν) : List JsStr :=
  ((m.keys.filter fun k => (indexOf? k).isSome).mergeSort fun k k' =>
      decide ((indexOf? k).getD 0 ≤ (indexOf? k').getD 0)) ++
    m.keys.filter fun k => (indexOf? k).isNone

/-- `out[k] = v`; what is set at `__proto__` is no entry. -/
def setKey {ν : Type*} (out : ObjMap JsStr ν) (k : JsStr) (v : ν) : ObjMap JsStr ν :=
  if k = jsText "__proto__" then out else out.set k v

/-! ## The cache -/

section

variable (conv : Convert)

def parseNumericUserId : JsVal → JsStr
  | .null => []
  | .str s => Auth.parseNumericId s
  | v => Auth.parseNumericId (conv.string v)

def normalizeEmail (v : JsStr) : JsStr := conv.toLowerCase (jsTrim v)

/-- `Number(v?.updated_at || v?.updatedAt || Date.now())`, or `Date.now()` where that
is not finite. -/
def entryTime (now : Rat) (v : JsVal) : Rat :=
  let at' := if (v.field "updated_at").truthy then v.field "updated_at" else v.field "updatedAt"
  if at'.truthy then
    match at' with
    | .num n => n
    | v => (conv.number v).getD now
  else now

/-- The loop of `sanitizeEmailUserIdMap` for one entry, read at `now`. -/
def sanitizeEntry (now : Rat) (out : ObjMap JsStr EmailRow) (k : JsStr) (v : JsVal) :
    ObjMap JsStr EmailRow :=
  let email := normalizeEmail conv k
  let rowUid := parseNumericUserId conv (((v.field "user_id").orElse (v.field "id")).orElse v)
  if email.isEmpty || rowUid.isEmpty then out
  else setKey out email ⟨rowUid, entryTime conv now v⟩

/-- `sanitizeEmailUserIdMap`; the `i`-th entry is read at `clock i`, and what is no
object has no entries. -/
def sanitizeEmailUserIdMap (clock : Nat → Rat) (raw : ObjMap JsStr JsVal) :
    ObjMap JsStr EmailRow :=
  (objectKeys raw).zipIdx.foldl (fun out (k, i) =>
    sanitizeEntry conv (clock i) out k ((raw.get? k).getD .null)) ObjMap.empty

/-- `findCachedUserIdByEmail` -/
def findCachedUserIdByEmail (clock : Nat → Rat) (email : JsStr) (raw : ObjMap JsStr JsVal) :
    JsStr :=
  let em := normalizeEmail conv email
  if em.isEmpty then []
  else
    match (sanitizeEmailUserIdMap conv clock raw).get? em with
    | some row => parseNumericUserId conv (.str row.userId)
    | none => []

/-- `Number(map?.[k]?.updated_at || 0)` -/
def timeOf (map : ObjMap JsStr EmailRow) (k : JsStr) : Rat :=
  match map.get? k with
  | some row => row.updatedAt
  | none => 0

/-- The keys that are kept, the newest first. -/
def keptKeys (map : ObjMap JsStr EmailRow) : List JsStr :=
  ((objectKeys map).mergeSort fun a b => decide (timeOf map b ≤ timeOf map a)).take maxEmailKeys

/-- `pruned` -/
def prune (map : ObjMap JsStr EmailRow) : ObjMap JsStr EmailRow :=
  (keptKeys map).foldl (fun pruned k =>
    match map.get? k with
    | some row => setKey pruned k row
    | none => pruned) ObjMap.empty

/-- The map in `cacheEmailUserId` before it looks at its size. -/
def withEmail (clock : Nat → Rat) (now : Rat) (em uid : JsStr) (raw : ObjMap JsStr JsVal) :
    ObjMap JsStr EmailRow :=
  setKey (sanitizeEmailUserIdMap conv clock raw) em ⟨uid, now⟩

/-- What `cacheEmailUserId` stores: the entries are read at `clock`, and the new one is
made at `now`. -/
def cacheEmailUserId (clock : Nat → Rat) (now : Rat) (email : JsStr) (userId : JsVal)
    (raw : ObjMap JsStr JsVal) : ObjMap JsStr JsVal :=
  let em := normalizeEmail conv email
  let uid := parseNumericUserId conv userId
  if em.isEmpty || uid.isEmpty then raw
  else
    let map := withEmail conv clock now em uid raw
    (if maxEmailKeys < (objectKeys map).length then prune map else map).mapVal EmailRow.toVal

end

end VTranser.Worker

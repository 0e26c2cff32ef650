import VTranser.Server.PyJson

/-!
# The auth gate

A client shows a ticket in the address or a token in its first message. Either is three
texts with dots between them, the last of which has to be the signature of the first two,
and says in its middle who the client is and until when.

Whatever goes wrong on the way ends without a session: `_jwt_hs256_verify` catches all of
it, and what `_authenticate` does not catch ends the handler. The hash, `json.loads`, the
bytes of a text, the parts of an address and the text of a value are the library's.
-/

namespace VTranser.Server

/-- `AUTH_MODE` -/
inductive AuthMode
  | ticket
  | message
  | either
  | none
  | other
  deriving DecidableEq, Repr

structure AuthConfig where
  requireAuth : Bool
  authMode : AuthMode
  wsTicketSecret : List UInt8
  accessJwtSecret : List UInt8

/-- What the library makes of its arguments; `none` is an exception. -/
structure AuthLib where
  hmacSha256 : List UInt8 → List UInt8 → List UInt8
  encode : PyStr → Option (List UInt8)
  loadsBytes : List UInt8 → Option PyJson
  loads : PyStr → Option PyJson
  parseQs : PyStr → Option (List (PyStr × List PyStr))
  str : PyJson → PyStr

/-- The addresses that the connection knows of itself. -/
structure AuthRequest where
  path : Option PyStr
  requestPath : Option PyStr
  deriving DecidableEq, Repr

/-- What `recv` brings within its time. -/
inductive FirstMessage
  | timeout
  | failed
  | binary (data : List UInt8)
  | text (raw : PyStr)
  deriving DecidableEq, Repr

inductive AuthOutcome
  | accepted (user : PyStr) (mode : AuthMode)
  | refused (reason : String)
  | raised
  deriving DecidableEq, Repr

/-! ## Numbers as floats -/

/-- `float` of an integer: the nearest one, of two the even one, and none from `2 ^ 1024`
on. -/
def floatOfInt (n : Int) : Option Rat :=
  let m := n.natAbs
  let unit := 2 ^ (m.log2 - 52)
  let rest := m % unit
  let up := unit < 2 * rest ∨ unit = 2 * rest ∧ m / unit % 2 = 1
  let rounded := if up then (m / unit + 1) * unit else m / unit * unit
  if 2 ^ 1024 ≤ rounded then none else some (n.sign * rounded : Int)

namespace PyJson

/-- `float` of what is an `int` or a `float`; the inner `none` is an exception. -/
def float? : PyJson → Option (Option PyFloat)
  | .bool b => some (some (.finite (if b then 1 else 0)))
  | .int n => some ((floatOfInt n).map .finite)
  | .float x => some (some x)
  | _ => none

/-- `v.strip()`; other values have no such method. -/
def strip? : PyJson → Option PyStr
  | .str s => some (pyStrip s)
  | _ => none

end PyJson

/-- `now > x` -/
def PyFloat.past (now : Rat) : PyFloat → Bool
  | .finite q => decide (q < now)
  | .inf negative => negative
  | .nan => false

/-- `items.get(a) or items.get(b) or default` -/
def getOr (items : List (PyStr × PyJson)) (default : PyStr) : List String → PyJson
  | [] => .str default
  | key :: keys =>
      let v := (getKey items key).getD .null
      if v.truthy then v else getOr items default keys

/-! ## Tokens -/

section

variable (lib : AuthLib)

/-- `_b64url_decode` -/
def b64urlDecode (s : PyStr) : Option (List UInt8) :=
  let s := (pyStrip s).map fun c => if c = '-' then '+' else if c = '_' then '/' else c
  (PyJson.str (s ++ List.replicate ((4 - s.length % 4) % 4) '=')).b64decode

/-- The end of `_jwt_hs256_verify`: the payload, if it has not expired. -/
def checkExp (now : Rat) (items : List (PyStr × PyJson)) : Option (List (PyStr × PyJson)) :=
  match (getKey items "exp").bind PyJson.float? with
  | none => some items
  | some none => none
  | some (some x) => if x.past now then none else some items

/-- `_jwt_hs256_verify` at the time `now` -/
def jwtHs256Verify (now : Rat) (token : PyStr) (secret : List UInt8) :
    Option (List (PyStr × PyJson)) :=
  if token.isEmpty || secret.isEmpty then none
  else
    match token.splitOn '.' with
    | [header, payload, signature] => do
        let signingInput ← lib.encode (header ++ '.' :: payload)
        let sig ← b64urlDecode signature
        if lib.hmacSha256 secret signingInput ≠ sig then none
        else
          let body ← b64urlDecode payload
          let loaded ← lib.loadsBytes body
          let items ← loaded.items?
          checkExp now items
    | _ => none

/-- `_extract_query_ticket` -/
def extractQueryTicket (req : AuthRequest) : PyStr :=
  let path := match req.path with
    | some path => if path.isEmpty then req.requestPath.getD [] else path
    | none => req.requestPath.getD []
  if path.isEmpty then []
  else
    match lib.parseQs path with
    | none => []
    | some q =>
        match (q.lookup "ticket".toList).getD [[]] with
        | ticket :: _ => pyStrip ticket
        | [] => []

/-! ## The gate -/

variable (cfg : AuthConfig)

/-- `str(payload.get("sub") or payload.get("user_id") or "user")` -/
def authedUser (items : List (PyStr × PyJson)) : PyStr :=
  lib.str (getOr items "user".toList ["sub", "user_id"])

/-- The branch of `_authenticate` for the first message. -/
def authMessage (now : Rat) : FirstMessage → AuthOutcome
  | .timeout => .refused "auth-timeout"
  | .failed => .refused "auth-failed"
  | .binary _ => .refused "auth-required"
  | .text raw =>
      match lib.loads raw with
      | none => .refused "auth-invalid-json"
      | some obj =>
          match obj.items? with
          | none => .raised
          | some items =>
              match (getOr items [] ["type", "event"]).strip? with
              | none => .raised
              | some typ =>
                  if lower typ ≠ "auth".toList then .refused "auth-required"
                  else
                    match (getOr items [] ["token"]).strip? with
                    | none => .raised
                    | some token =>
                        if token.isEmpty then .refused "auth-missing-token"
                        else if cfg.accessJwtSecret.isEmpty then .accepted "user".toList .message
                        else
                          match jwtHs256Verify lib now token cfg.accessJwtSecret with
                          | none | some [] => .refused "auth-bad-token"
                          | some items => .accepted (authedUser lib items) .message

/-- `_authenticate` -/
def authenticate (now : Rat) (req : AuthRequest) (first : FirstMessage) : AuthOutcome :=
  if !cfg.requireAuth || cfg.authMode == .none then .accepted [] .none
  else
    let ticket := extractQueryTicket lib req
    let payload :=
      if !ticket.isEmpty && (cfg.authMode == .ticket || cfg.authMode == .either) then
        jwtHs256Verify lib now ticket cfg.wsTicketSecret
      else none
    match payload with
    | some (item :: items) => .accepted (authedUser lib (item :: items)) .ticket
    | _ =>
        if cfg.authMode == .message || cfg.authMode == .either then
          authMessage lib cfg now first
        else .refused "auth-required"

/-- Whether `handler` gets to `_make_recorder`, if nothing between goes wrong. -/
def makesRecorder : AuthOutcome → Bool
  | .accepted .. => true
  | .refused _ | .raised => false

end

end VTranser.Server

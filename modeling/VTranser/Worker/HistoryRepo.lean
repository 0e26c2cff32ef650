import VTranser.Auth

/-!
# Deleting a transcript session

A session is deleted if the database says that it is the user's. Where its chunks stand
in the way they are deleted first, and then the session once more. Every request is
repeated without the token of the user if it fails with it.

The database answers as it likes; `Server` says what it answers to which request, and
how many chunk rows of the session a request took away. One that is answered with an
error took none; of one whose answer was lost nobody knows. What `JSON.parse` finds in
the text of an error is a parameter.
-/

namespace VTranser.HistoryRepo

/-- The requests in their order: whose the session is, its deletion, that of its chunks,
and its deletion once more. -/
inductive Step
  | confirm
  | session
  | chunks
  | sessionAgain
  deriving DecidableEq, Repr

/-- What the requests ask for, by their addresses. -/
inductive Request
  | selectSession (uid : JsStr) (sid : Int)
  | deleteSession (uid : JsStr) (sid : Int)
  | deleteChunks (sid : Int)
  deriving DecidableEq, Repr

/-- An answer. `found` says that it is a list whose first entry is none that counts as
missing, and `removed` how many chunk rows of the session the request took away. -/
inductive Reply
  | ok (found : Bool) (removed : Nat)
  | error (status : Nat) (text : JsStr)
  | lost (message : JsStr) (removed : Nat)
  deriving DecidableEq, Repr

def Reply.isOk : Reply → Bool
  | .ok .. => true
  | _ => false

def Reply.removed : Reply → Nat
  | .ok _ n | .lost _ n => n
  | .error .. => 0

/-- The answer to a step, with the token of the user or without. -/
abbrev Server := Step → Bool → Reply

structure Exchange where
  request : Request
  withToken : Bool
  reply : Reply
  deriving DecidableEq, Repr

/-- `jsonDetail` is `message`, `error` or `hint` of a text that is the JSON of one. -/
structure Config where
  toLowerCase : JsStr → JsStr
  jsonDetail : JsStr → Option JsStr

inductive Outcome
  | threw
  | returned (deleted : Bool)
  deriving DecidableEq, Repr

/-! ## Requests -/

/-- A request, and once more without the token if it fails with it. -/
def withFallback (server : Server) (token : JsStr) (s : Step) (request : Request) :
    Reply × List Exchange :=
  let first := server s (!token.isEmpty)
  let log := [⟨request, !token.isEmpty, first⟩]
  if first.isOk || token.isEmpty then (first, log)
  else
    let second := server s false
    (second, log ++ [⟨request, false, second⟩])

/-- `fetchJsonWithAuthFallback` of the ownership query -/
def fetchJsonWithAuthFallback (server : Server) (token : JsStr) (uid : JsStr) (sid : Int) :
    Reply × List Exchange := withFallback server token .confirm (.selectSession uid sid)

/-- `fetchDelete` -/
def fetchDelete (server : Server) (token : JsStr) (s : Step) (request : Request) :
    Reply × List Exchange := withFallback server token s request

section

variable (cfg : Config)

/-- The `detail` of `buildSupabaseError`. -/
def errorDetail (status : Nat) (text : JsStr) : JsStr :=
  match if text.isEmpty then none else cfg.jsonDetail text with
  | some detail => detail
  | none => orText text (jsText "HTTP " ++ jsText (toString status))

/-- `detail.includes(part)` -/
def includes (detail part : JsStr) : Bool := decide (part <:+: detail)

/-- `likelyFkConflict` of the error that a failed deletion throws. -/
def likelyFkConflict : Reply → Bool
  | .ok .. => false
  | .error status text =>
      let detail := cfg.toLowerCase (errorDetail cfg status text)
      status == 409 || includes detail (jsText "foreign key") ||
        includes detail (jsText "violates") || includes detail (jsText "constraint")
  | .lost message _ =>
      let detail := cfg.toLowerCase message
      includes detail (jsText "foreign key") || includes detail (jsText "violates") ||
        includes detail (jsText "constraint")

/-- The deletions of `deleteTranscriptSessionForUser`. -/
def deleteConfirmed (server : Server) (token uid : JsStr) (sid : Int) :
    Outcome × List Exchange :=
  let (first, log) := fetchDelete server token .session (.deleteSession uid sid)
  if first.isOk then (.returned true, log)
  else if !likelyFkConflict cfg first then (.threw, log)
  else
    let (chunks, chunksLog) := fetchDelete server token .chunks (.deleteChunks sid)
    if !chunks.isOk then (.threw, log ++ chunksLog)
    else
      let (again, againLog) := fetchDelete server token .sessionAgain (.deleteSession uid sid)
      (if again.isOk then .returned true else .threw, log ++ chunksLog ++ againLog)

/-- `deleteTranscriptSessionForUser`; `sid` is `toInt(sessionId, 0)`. -/
def deleteTranscriptSessionForUser (server : Server) (userId : JsStr) (sid : Int)
    (authToken : JsStr) : Outcome × List Exchange :=
  let uid := Auth.parseNumericId userId
  let token := jsTrim authToken
  if uid.isEmpty || sid == 0 then (.threw, [])
  else
    let (sessionRows, log) := fetchJsonWithAuthFallback server token uid sid
    match sessionRows with
    | .ok found _ =>
        if !found then (.returned false, log)
        else
          let (outcome, deletions) := deleteConfirmed cfg server token uid sid
          (outcome, log ++ deletions)
    | _ => (.threw, log)

end

end VTranser.HistoryRepo

import VTranser.Auth
import VTranser.Lib.ObjMap

/-!
# Keeping the transcript

What `createTranscriptPersist` makes: an object that takes stable texts, creates
the row of the session when the first that is not blank comes, and writes each
of them, one after the other, until `stop` writes the last one and marks the row.

Its tasks run on a promise chain, so at most one of them has begun (`running`),
and `stop` waits for the chain. A request is answered in a step of its own,
which is when it takes effect; the descriptive columns of the rows are left out.
-/

namespace VTranser.TranscriptPersist

/-- `normalizeDbId` -/
def normalizeDbId (v : JsStr) : JsStr := Auth.parseNumericId v

def isBlank (s : JsStr) : Bool := (jsTrim s).isEmpty

structure Opts where
  userId : JsStr
  userEmail : JsStr

/-! ## The tables -/

inductive Status
  | running | stopped
  deriving DecidableEq, Repr

/-- A row of `transcript_sessions`. -/
structure SessionRow where
  id : JsStr
  userId : JsStr
  latestTextEn : Option JsStr
  lastSeq : Option Int
  status : Status
  deriving DecidableEq, Repr

/-- The rows of `transcript_chunks` have the key `(tr_session_id, seq)`, and `seq`
is always 0. -/
structure Tables where
  sessions : List SessionRow
  chunks : ObjMap JsStr JsStr

namespace Tables

def patch (f : SessionRow → SessionRow) (id : JsStr) (db : Tables) : Tables :=
  { db with sessions := db.sessions.map fun row => if row.id = id then f row else row }

def insertSession (id userId : JsStr) (db : Tables) : Tables :=
  { db with sessions := db.sessions ++ [⟨id, userId, none, none, .running⟩] }

def insertChunk (id text : JsStr) (db : Tables) : Tables :=
  { db with chunks := db.chunks.set id text }

/-- A text without a sequence number is stored with `Number(null)`. -/
def updateLatest (id text : JsStr) (seq : Option Int) (db : Tables) : Tables :=
  db.patch (fun row => { row with latestTextEn := some text, lastSeq := some (seq.getD 0) }) id

def markStopped (id : JsStr) (db : Tables) : Tables :=
  db.patch (fun row => { row with status := .stopped }) id

end Tables

/-! ## The object -/

structure Snapshot where
  text : JsStr
  seq : Option Int
  deriving DecidableEq, Repr

/-- The request a task has made. -/
inductive Wait
  | selectUser
  | insertUser
  | insertSession (userId : JsStr)
  | insertChunk
  | updateLatest
  deriving DecidableEq, Repr

/-- Where `stop` is. -/
inductive StopWait
  | chain | insertChunk | updateLatest | status | resolved
  deriving DecidableEq, Repr

/-- The object, the tables, and what records a run: how many requests were made,
how many when `stop` resolved, the last text that was not blank, and the text
`stop` has to leave behind. -/
structure Persist where
  trSessionId : Option JsStr
  fullLatest : JsStr
  fullSeq : Option Int
  lastSnapshotHash : Option (Option Int × JsStr)
  stopped : Bool
  chain : List Snapshot
  running : Option (Snapshot × Wait)
  stopping : Option (JsStr × StopWait)
  db : Tables
  requests : Nat
  resolvedAt : Option Nat
  lastNonBlank : JsStr
  expected : JsStr

def Persist.init : Persist where
  trSessionId := none
  fullLatest := []
  fullSeq := none
  lastSnapshotHash := none
  stopped := false
  chain := []
  running := none
  stopping := none
  db := ⟨[], .empty⟩
  requests := 0
  resolvedAt := none
  lastNonBlank := []
  expected := []

/-- The answer to a request. -/
inductive Reply
  | ok
  | id (v : JsStr)
  | failed
  deriving DecidableEq, Repr

/-- The user id of an answer, if it has one. -/
def Reply.userId : Reply → JsStr
  | .id v => normalizeDbId v
  | .ok | .failed => []

inductive Label
  | start
  | handleStable (fullText : JsStr) (seq : Option Int)
  | stop (finalText : JsStr)
  | begin
  | reply (r : Reply)
  | stopReply (r : Reply)
  deriving DecidableEq, Repr

namespace Persist

/-- What stands before the `|` of a hash; a number never has one. -/
def hashSeq (seq : Option Int) : Option Int := seq.filter (· ≠ 0)

def handleStable (fullText : JsStr) (seq : Option Int) (p : Persist) : Persist :=
  let p := { p with lastNonBlank := if isBlank fullText then p.lastNonBlank else fullText }
  if p.stopped then p
  else
    let seqNum := seq.or p.fullSeq
    let hash := (hashSeq seqNum, fullText)
    if p.lastSnapshotHash = some hash then p
    else
      { p with
        fullLatest := fullText
        fullSeq := seqNum
        lastSnapshotHash := some hash
        chain := if isBlank fullText then p.chain else p.chain ++ [⟨fullText, seqNum⟩] }

/-- The running task makes a request. -/
def request (snap : Snapshot) (w : Wait) (p : Persist) : Persist :=
  { p with running := some (snap, w), requests := p.requests + 1 }

def finish (p : Persist) : Persist := { p with running := none }

/-- `startSession` and `fetchUserId` up to their first request, or the task goes on. -/
def beginTask (opts : Opts) (snap : Snapshot) (p : Persist) : Persist :=
  if p.stopped then p.finish
  else if p.trSessionId.isSome then p.request snap .insertChunk
  else if !(normalizeDbId opts.userId).isEmpty then
    p.request snap (.insertSession (normalizeDbId opts.userId))
  else if !opts.userEmail.isEmpty then p.request snap .selectUser
  else { p.finish with stopped := true }

/-- The running task goes on with an answer. -/
def reply (snap : Snapshot) (r : Reply) (p : Persist) : Wait → Persist
  | .selectUser =>
      if r.userId.isEmpty then p.request snap .insertUser
      else p.request snap (.insertSession r.userId)
  | .insertUser =>
      if r.userId.isEmpty then { p.finish with stopped := true }
      else p.request snap (.insertSession r.userId)
  | .insertSession userId =>
      match r with
      | .id v =>
          let p := { p with db := p.db.insertSession v userId }
          if (normalizeDbId v).isEmpty then { p.finish with stopped := true }
          else { p with trSessionId := some (normalizeDbId v) }.request snap .insertChunk
      | .ok | .failed => { p.finish with stopped := true }
  | .insertChunk =>
      match p.trSessionId with
      | some id =>
          { p with db := if r = Reply.failed then p.db else p.db.insertChunk id snap.text }.request snap
            .updateLatest
      | none => p.finish
  | .updateLatest =>
      match p.trSessionId with
      | some id =>
          { p.finish with
            db := if r = Reply.failed then p.db else p.db.updateLatest id snap.text snap.seq }
      | none => p.finish

def stop (finalText : JsStr) (p : Persist) : Persist :=
  { p with
    stopped := true
    stopping := some (orText finalText p.fullLatest, .chain)
    expected := orText finalText p.lastNonBlank }

/-- `stop` makes a request. -/
def stopRequest (final : JsStr) (w : StopWait) (p : Persist) : Persist :=
  { p with stopping := some (final, w), requests := p.requests + 1 }

def resolve (final : JsStr) (p : Persist) : Persist :=
  { p with stopping := some (final, .resolved), resolvedAt := some p.requests }

/-- `stop` goes on. -/
def stopReply (final : JsStr) (r : Reply) (p : Persist) (w : StopWait) : Persist :=
  match p.trSessionId with
  | none => p.resolve final
  | some id =>
      match w with
      | .chain =>
          if isBlank final then p.stopRequest final .status else p.stopRequest final .insertChunk
      | .insertChunk =>
          { p with db := if r = Reply.failed then p.db else p.db.insertChunk id final }.stopRequest final
            .updateLatest
      | .updateLatest =>
          { p with
            db := if r = Reply.failed then p.db else p.db.updateLatest id final p.fullSeq }.stopRequest
              final .status
      | .status =>
          { p with db := if r = Reply.failed then p.db else p.db.markStopped id }.resolve final
      | .resolved => p

/-- What happens next. `stop` goes on only when the chain has come to its end. -/
def step (opts : Opts) (p : Persist) : Label → Option Persist
  | .start => some { p with stopped := false }
  | .handleStable fullText seq => some (p.handleStable fullText seq)
  | .stop finalText => if p.stopping.isNone then some (p.stop finalText) else none
  | .begin =>
      match p.running, p.chain with
      | none, snap :: chain => some ({ p with chain }.beginTask opts snap)
      | _, _ => none
  | .reply r => p.running.map fun (snap, w) => reply snap r p w
  | .stopReply r =>
      match p.stopping with
      | some (_, .resolved) | none => none
      | some (final, w) =>
          if w = .chain ∧ ¬(p.running = none ∧ p.chain = []) then none
          else some (stopReply final r p w)

end Persist

end VTranser.TranscriptPersist

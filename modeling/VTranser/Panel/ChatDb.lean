import VTranser.Lib.ObjMap
import VTranser.Lib.Tasks
import VTranser.Worker.ChatRepo

/-!
# The conversations in the database

Where a conversation stands in the database is in the local storage, under a key made
of the identity and the conversation: its row and its last message. When the answer to
a question has come, `sendChat` stores the question and then the answer. For each it
reads the place, lets the service worker store the message there, and writes the new
place when the worker's answer is back. Nothing makes one `sendChat` wait for another.
-/

namespace VTranser.Panel

open ChatRepo Tasks

/-! ## The places -/

structure Cursor where
  chatSessionId : Option JsStr
  parentMsgId : Option JsStr
  deriving DecidableEq, Repr

/-- `LS_CHAT_DB_CURSOR` -/
abbrev Cursors := ObjMap JsStr Cursor

def chatDbCursorKey (identityKey localSessionId : JsStr) : JsStr :=
  let a := jsTrim identityKey
  let b := jsTrim localSessionId
  if a.isEmpty || b.isEmpty then [] else a ++ jsText "::" ++ b

def getChatDbCursorState (key : JsStr) (map : Cursors) : Cursor :=
  if key.isEmpty then ⟨none, none⟩
  else
    let row := (map.get? key).getD ⟨none, none⟩
    ⟨row.chatSessionId.bind normalizeBigintId, row.parentMsgId.bind normalizeBigintId⟩

def setChatDbCursorState (key chatSessionId parentMsgId : JsStr) (map : Cursors) : Cursors :=
  if key.isEmpty then map
  else map.set key ⟨normalizeBigintId chatSessionId, normalizeBigintId parentMsgId⟩

/-! ## Storing a message -/

/-- The arguments of `persistChatMessageToDb`. -/
structure SaveOpts where
  identityKey : JsStr
  localSessionId : JsStr
  role : Role
  content : JsStr
  titleHint : JsStr
  source : JsStr
  model : JsStr
  language : JsStr
  deriving DecidableEq, Repr

/-- `persistChatMessageToDb` up to its message to the worker. -/
def persistChatMessageToDb (opts : SaveOpts) (now : Int) (map : Cursors) : Option Payload :=
  let identityKey := jsTrim opts.identityKey
  let localSessionId := jsTrim opts.localSessionId
  let content := jsTrim opts.content
  if identityKey.isEmpty || localSessionId.isEmpty || content.isEmpty then none
  else
    let key := chatDbCursorKey identityKey localSessionId
    let cursor := getChatDbCursorState key map
    some {
      chatSessionId := cursor.chatSessionId
      parentMsgId := cursor.parentMsgId
      role := opts.role
      content := content
      titleHint := jsTrim (orText opts.titleHint content)
      source := opts.source
      model := opts.model
      language := opts.language
      createdAt := now
      startedAt := now
      key := key }

/-- The rest of it, when the worker's answer is back. -/
def afterSave (key : JsStr) (res : Response) (map : Cursors) : Cursors :=
  match res with
  | .saved chatSessionId messageId => setChatDbCursorState key chatSessionId messageId map
  | .failed => map

/-! ## The end of `sendChat` -/

/-- The message that is being stored, and the messages after it. -/
structure Save where
  payload : Payload
  wait : SaveWait
  left : List SaveOpts
  deriving DecidableEq, Repr

/-- The next message that goes to the worker. -/
def nextSave (now : Int) (map : Cursors) : List SaveOpts → Option Save
  | [] => none
  | opts :: left =>
      match persistChatMessageToDb opts now map with
      | some payload => some ⟨payload, .account, left⟩
      | none => nextSave now map left

/-- A question that was answered. -/
structure Answered where
  identityKey : JsStr
  sid : JsStr
  rawUserQ : JsStr
  out0 : JsStr
  modelTag : JsStr
  deriving DecidableEq, Repr

def Answered.key (a : Answered) : JsStr := chatDbCursorKey a.identityKey a.sid

/-- What `sendChat` stores, one after the other. -/
def Answered.messages (a : Answered) : List SaveOpts :=
  let save (role : Role) (content : JsStr) : SaveOpts :=
    { identityKey := a.identityKey
      localSessionId := a.sid
      role := role
      content := content
      titleHint := a.rawUserQ
      source := jsText "sidepanel"
      model := a.modelTag
      language := jsText "vi" }
  [save .user a.rawUserQ, save .assistant a.out0]

/-! ## The system -/

structure ChatDb where
  cursors : Cursors
  saves : List Save
  db : Tables

def ChatDb.init : ChatDb := ⟨.empty, [], .empty⟩

inductive DbLabel
  /-- The answer to a question has come, and was trimmed. -/
  | answered (a : Answered) (now : Int)
  /-- The worker goes on with the message of the `i`-th `sendChat`. -/
  | reply (i : Nat) (r : Reply)
  /-- Its answer comes back to the panel. -/
  | response (i : Nat) (now : Int)
  | deleteSession (id : JsStr)
  deriving DecidableEq

namespace ChatDb

def step (s : ChatDb) : DbLabel → Option ChatDb
  | .answered a now =>
      if a.rawUserQ.isEmpty || a.out0.isEmpty then none
      else some { s with saves := s.saves ++ (nextSave now s.cursors a.messages).toList }
  | .reply i r =>
      match s.saves[i]? with
      | some t =>
          (save t.payload s.db t.wait r).map fun (db, wait) =>
            { s with db, saves := goOn s.saves i (some { t with wait }) }
      | none => none
  | .response i now =>
      match s.saves[i]? with
      | some ⟨payload, .response res, left⟩ =>
          let cursors := afterSave payload.key res s.cursors
          some { s with cursors, saves := goOn s.saves i (nextSave now cursors left) }
      | _ => none
  | .deleteSession id =>
      if id ∈ s.db.sessions.map SessionRow.id then some { s with db := s.db.deleteSession id }
      else none

end ChatDb

end VTranser.Panel

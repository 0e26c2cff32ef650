import VTranser.Auth

/-!
# Storing a message

What the service worker does with `__CHAT_DB_SAVE__`: it asks who is signed in, looks
up the conversation that the message names, creates one if there is none, and stores
the message there, with the parent that it names.

A request takes effect in the step in which it is answered; one that fails takes none.
A row of `chat_sessions` may be deleted at any time. No function reads a message back,
so `messages` lists all that were ever stored. The key of the conversation in the panel
is with each of them for the statements.
-/

namespace VTranser.ChatRepo

/-! ## Texts -/

/-- `normalizeBigintId`, and `normalizeDbId` in the panel. -/
def normalizeBigintId (v : JsStr) : Option JsStr :=
  let s := jsTrim v
  if s.isEmpty then none else if s.all Auth.isDigit then some s else none

def normalizeTextRef (v : JsStr) : Option JsStr :=
  let s := jsTrim v
  if s.isEmpty then none else some s

def clipText (s : JsStr) (maxLen : Nat) : JsStr :=
  let txt := Words.joinWords 0x20 (Words.words (onUnit jsSpace) s)
  if txt.isEmpty then jsText "Chat sidepanel"
  else if txt.length ≤ maxLen then txt
  else txt.take (maxLen - 3) ++ jsText "..."

/-- An id as the database gives it. -/
structure DbId where
  text : JsStr
  digits : normalizeBigintId text = some text
  deriving DecidableEq

/-! ## The tables -/

/-- The other words are taken as `user`. -/
inductive Role
  | user | assistant | system
  deriving DecidableEq, Repr

/-- A row of `chat_sessions`; its dates are in milliseconds. -/
structure SessionRow where
  id : JsStr
  userId : JsStr
  ownerUid : JsStr
  startedAt : Int
  endedAt : Option Int
  title : JsStr
  source : JsStr
  model : JsStr
  language : JsStr
  deriving DecidableEq, Repr

/-- A row of `chat_messages`. -/
structure MessageRow where
  id : JsStr
  chatSessionId : JsStr
  parentMsgId : Option JsStr
  role : Role
  content : JsStr
  createdAt : Int
  key : JsStr
  deriving DecidableEq, Repr

/-- `deleted` are the ids that were in `chat_sessions` once. -/
structure Tables where
  sessions : List SessionRow
  deleted : List JsStr
  messages : List MessageRow

/-- The `payload` of a message, and the key of its conversation. -/
structure Payload where
  chatSessionId : Option JsStr
  parentMsgId : Option JsStr
  role : Role
  content : JsStr
  titleHint : JsStr
  source : JsStr
  model : JsStr
  language : JsStr
  createdAt : Int
  startedAt : Int
  key : JsStr
  deriving DecidableEq, Repr

/-- What the session of the worker says: the id that `resolveUsersTableUserIdSafe`
finds, and a UUID or nothing. -/
structure Account where
  userId : JsStr
  ownerUid : JsStr
  deriving DecidableEq, Repr

/-- The row that `createChatSessionForUser` asks for. -/
def sessionRow (acct : Account) (p : Payload) (id : JsStr) : SessionRow where
  id := id
  userId := (normalizeBigintId acct.userId).getD []
  ownerUid := acct.ownerUid
  startedAt := p.startedAt
  endedAt := none
  title := clipText (orText p.titleHint (jsTrim p.content)) 160
  source := orText p.source (jsText "sidepanel")
  model := p.model
  language := p.language

/-- The row that `insertChatMessage` asks for. -/
def messageRow (chatSessionId : JsStr) (p : Payload) (id : JsStr) : MessageRow where
  id := id
  chatSessionId := chatSessionId
  parentMsgId := p.parentMsgId.bind normalizeTextRef
  role := p.role
  content := jsTrim p.content
  createdAt := p.createdAt
  key := p.key

namespace Tables

def empty : Tables := ⟨[], [], []⟩

/-- `getChatSessionForUser` -/
def getChatSessionForUser (db : Tables) (acct : Account) (chatSessionId : JsStr) :
    Option SessionRow :=
  match normalizeBigintId chatSessionId, normalizeBigintId acct.userId with
  | none, _ => none
  | some sid, some uid => db.sessions.find? fun row => row.id = sid ∧ row.userId = uid
  | some sid, none =>
      if acct.ownerUid.isEmpty then none
      else db.sessions.find? fun row => row.id = sid ∧ row.ownerUid = acct.ownerUid

def createChatSession (acct : Account) (p : Payload) (id : JsStr) (db : Tables) : Tables :=
  { db with sessions := db.sessions ++ [sessionRow acct p id] }

def insertChatMessage (chatSessionId : JsStr) (p : Payload) (id : JsStr) (db : Tables) : Tables :=
  { db with messages := db.messages ++ [messageRow chatSessionId p id] }

/-- `touchChatSession` with a new `ended_at`. -/
def touchChatSession (chatSessionId : JsStr) (endedAt : Int) (db : Tables) : Tables :=
  { db with
    sessions := db.sessions.map fun row =>
      if row.id = chatSessionId then { row with endedAt := some endedAt } else row }

/-- Someone deletes a row of `chat_sessions`. -/
def deleteSession (id : JsStr) (db : Tables) : Tables :=
  { db with
    sessions := db.sessions.filter fun row => row.id ≠ id
    deleted := db.deleted ++ [id] }

/-- No row of `chat_sessions` has or had this id. -/
def sessionIdFree (db : Tables) (id : JsStr) : Prop :=
  id ∉ db.sessions.map SessionRow.id ∧ id ∉ db.deleted

instance (db : Tables) (id : JsStr) : Decidable (db.sessionIdFree id) :=
  inferInstanceAs (Decidable (_ ∧ _))

def messageIdFree (db : Tables) (id : JsStr) : Prop := id ∉ db.messages.map MessageRow.id

instance (db : Tables) (id : JsStr) : Decidable (db.messageIdFree id) :=
  inferInstanceAs (Decidable (¬ _))

end Tables

/-! ## The handler -/

/-- What the panel reads of the answer to `__CHAT_DB_SAVE__`. -/
inductive Response
  | saved (chatSessionId messageId : JsStr)
  | failed
  deriving DecidableEq, Repr

/-- What the handler waits for. -/
inductive SaveWait
  | account
  | selectSession (acct : Account)
  | insertSession (acct : Account)
  | insertMessage (chatSessionId : JsStr)
  | touch (chatSessionId messageId : JsStr)
  /-- The answer is on its way to the panel. -/
  | response (res : Response)
  deriving DecidableEq, Repr

/-- What it is told. -/
inductive Reply
  | account (acct : Account)
  | ok
  | id (v : DbId)
  | failed
  deriving DecidableEq

/-- `ensureChatSessionForUser` up to its first wait. -/
def ensureChatSessionForUser (acct : Account) (p : Payload) : SaveWait :=
  match normalizeBigintId acct.userId, p.chatSessionId.bind normalizeBigintId with
  | none, _ => .response .failed
  | some _, some _ => .selectSession acct
  | some _, none => .insertSession acct

/-- The handler goes on. -/
def save (p : Payload) (db : Tables) : SaveWait → Reply → Option (Tables × SaveWait)
  | .account, .account acct =>
      if (jsTrim p.content).isEmpty then some (db, .response .failed)
      else some (db, ensureChatSessionForUser acct p)
  | .selectSession acct, .ok =>
      match db.getChatSessionForUser acct (p.chatSessionId.getD []) with
      | some row => some (db, .insertMessage row.id)
      | none => some (db, .insertSession acct)
  | .insertSession acct, .id v =>
      if db.sessionIdFree v.text then
        some (db.createChatSession acct p v.text, .insertMessage v.text)
      else none
  | .insertMessage chatSessionId, .id v =>
      if db.messageIdFree v.text then
        some (db.insertChatMessage chatSessionId p v.text,
          if p.role = .assistant then .touch chatSessionId v.text
          else .response (.saved chatSessionId v.text))
      else none
  | .touch chatSessionId messageId, .ok =>
      some (db.touchChatSession chatSessionId p.createdAt, .response (.saved chatSessionId messageId))
  -- The `try` around it.
  | .touch chatSessionId messageId, .failed =>
      some (db, .response (.saved chatSessionId messageId))
  | .response _, _ => none
  | _, .failed => some (db, .response .failed)
  | _, _ => none

end VTranser.ChatRepo

import VTranser.Panel.ChatStore

/-!
# The chat of the side panel

Who is signed in, which conversation is open, and the questions under way. A
question keeps the conversation in which it was asked; the identity is read
after that, and when the answer has come both are stored. Signing in or out
changes neither the open conversation nor a question under way.

What the user does, and what the services answer, is in the label. So is the
identity for which the panel lists conversations when one is deleted: it may be
one that was read a while ago.
-/

namespace VTranser.Panel

/-- The fields of a profile that tell who it is. -/
structure Profile where
  email : JsStr
  id : JsStr
  name : JsStr
  fullName : JsStr
  deriving DecidableEq, Repr

/-- Whether `sendChat` goes on with this profile. -/
def Profile.known (p : Profile) : Bool :=
  !(p.email.isEmpty && p.id.isEmpty && p.name.isEmpty && p.fullName.isEmpty)

/-- `authIdentityKeyFromProfile` -/
def authIdentityKeyFromProfile (ops : TextOps) (p : Profile) : JsStr :=
  let email := ops.toLowerCase (jsTrim p.email)
  let pid := jsTrim p.id
  let name := ops.toLowerCase (jsTrim (orText p.name p.fullName))
  if !email.isEmpty then jsText "email:" ++ email
  else if !pid.isEmpty then jsText "id:" ++ pid
  else if !name.isEmpty then jsText "name:" ++ name
  else []

/-- A question under way, with the identity once it has been read. -/
structure Send where
  sid : Sid
  question : JsStr
  identityKey : Option JsStr
  deriving DecidableEq, Repr

structure Chat where
  auth : Option Profile
  session : Option Sid
  store : ChatStore
  sends : List Send

def Chat.init : Chat := ⟨none, none, .init, []⟩

inductive Label
  | login (profile : Profile)
  | logout
  | sendStart (question : JsStr) (fresh : Sid)
  | sendProfile (i : Nat)
  | sendDone (i : Nat) (answer userInfo answerInfo : JsStr) (now now' : Int)
  | sendFailed (i : Nat)
  | switchSession (sid : Sid)
  | newConversation (fresh : Sid)
  | deleteConversation (sid : Sid) (identityKey : JsStr) (fresh : Sid)
  deriving DecidableEq, Repr

namespace Chat

variable (ops : TextOps)

/-- The end of `sendChat`: the question and its answer are stored. -/
def storeAnswer (s : Send) (identityKey answer userInfo answerInfo : JsStr) (now now' : Int)
    (st : ChatStore) : ChatStore :=
  let writer := ChatStore.wantedKey ops identityKey
  let st := st.pushChatHistoryItem ops ⟨.user, s.question, userInfo, writer⟩ s.sid identityKey
    s.question now
  st.pushChatHistoryItem ops ⟨.assistant, answer, answerInfo, writer⟩ s.sid identityKey
    s.question now'

/-- The conversation that is open after `deleteChatConversation`. -/
def sessionAfterDelete (sid : Sid) (identityKey : JsStr) (fresh : Sid) (session : Option Sid)
    (store : ChatStore) : Option Sid :=
  if session = some sid then
    let rows := store.collectConversationRowsForIdentity ops identityKey
    some ((rows.head?.map ChatStore.Row.sessionId).getD fresh)
  else session

def step (c : Chat) : Label → Option Chat
  | .login profile => some { c with auth := some profile }
  | .logout => some { c with auth := none }
  | .sendStart question fresh =>
      let sid := c.session.getD fresh
      if (jsTrim question).isEmpty then none
      else some { c with session := some sid, sends := c.sends ++ [⟨sid, jsTrim question, none⟩] }
  | .sendProfile i =>
      match c.sends[i]? with
      | some ⟨sid, question, none⟩ =>
          match c.auth.filter Profile.known with
          | some profile =>
              let s : Send := ⟨sid, question, some (authIdentityKeyFromProfile ops profile)⟩
              some { c with sends := c.sends.set i s }
          | none => some { c with sends := c.sends.eraseIdx i }
      | _ => none
  | .sendDone i answer userInfo answerInfo now now' =>
      match c.sends[i]? with
      | some ⟨sid, question, some identityKey⟩ =>
          if (jsTrim answer).isEmpty then none
          else some { c with
            sends := c.sends.eraseIdx i
            store := storeAnswer ops ⟨sid, question, some identityKey⟩ identityKey (jsTrim answer)
              userInfo answerInfo now now' c.store }
      | _ => none
  | .sendFailed i => (c.sends[i]?).map fun _ => { c with sends := c.sends.eraseIdx i }
  | .switchSession sid => some { c with session := some sid }
  | .newConversation fresh => some { c with session := some fresh }
  | .deleteConversation sid identityKey fresh =>
      let store := c.store.deleteChatConversationData sid
      some { c with
        store, session := sessionAfterDelete ops sid identityKey fresh c.session store }

end Chat

end VTranser.Panel

import Mathlib.Data.List.Sort
import VTranser.Lib.ObjMap
import VTranser.Lib.Words
import VTranser.Text

/-!
# The chat history of the side panel

Two maps in the local storage: the messages of each conversation, and an entry
that names its owner and what the list shows of it. Only the second one records
an owner, and it keeps at most `maxMeta` entries.

A message also carries `writer`, the identity under which it was written. It is
there for the statements, and no function reads it.
-/

namespace VTranser.Panel

/-- What the built-in string functions do with the texts of a conversation. -/
structure TextOps where
  toLowerCase : JsStr → JsStr
  localeCompare : JsStr → JsStr → Int

/-! ## Texts -/

def chatClipText (s : JsStr) (maxLen : Nat) : JsStr :=
  let txt := Words.joinWords 0x20 (Words.words (onUnit jsSpace) s)
  if txt.length ≤ maxLen then txt else txt.take (maxLen - 3) ++ jsText "..."

/-- `normalizeIdentityKey` -/
def normalizeIdentityKey (ops : TextOps) (k : JsStr) : JsStr := ops.toLowerCase (jsTrim k)

def guest : JsStr := jsText "guest"

def untitled : JsStr := jsText "Cuộc trò chuyện mới"

/-! ## The two maps -/

abbrev Sid := JsStr

inductive Who
  | user | assistant
  deriving DecidableEq, Repr

structure ChatItem where
  who : Who
  text : JsStr
  info : JsStr
  writer : JsStr
  deriving DecidableEq, Repr

/-- An entry of the second map; its dates are in milliseconds. -/
structure ChatMeta where
  identityKey : JsStr
  title : JsStr
  preview : JsStr
  createdAt : Int
  updatedAt : Int
  messageCount : Nat
  deriving DecidableEq, Repr

structure ChatStore where
  history : ObjMap Sid (List ChatItem)
  metas : ObjMap Sid ChatMeta

def ChatStore.init : ChatStore := ⟨.empty, .empty⟩

/-- `CHAT_HISTORY_MAX` -/
def chatHistoryMax : Nat := 120

/-- `MAX_META` -/
def maxMeta : Nat := 400

/-- `CHAT_CONV_LIST_MAX` -/
def chatConvListMax : Nat := 80

namespace ChatStore

/-! ## Writing -/

/-- `getChatHistoryItems`: those that have a text. -/
def getChatHistoryItems (st : ChatStore) (sid : Sid) : List ChatItem :=
  ((st.history.get? sid).getD []).filter fun it => !(jsTrim it.text).isEmpty

/-- `saveChatHistoryItems` -/
def saveChatHistoryItems (sid : Sid) (items : List ChatItem) (st : ChatStore) : ChatStore :=
  let nextItems := items.drop (items.length - chatHistoryMax)
  { st with
    history := if nextItems.isEmpty then st.history.delete sid else st.history.set sid nextItems }

/-- The fields that a caller of `upsertChatSessionMeta` sets. -/
structure MetaPatch where
  identityKey : JsStr
  title : JsStr
  preview : JsStr
  messageCount : Nat

/-- The keys of the oldest entries, when there are too many. -/
def evicted (metas : ObjMap Sid ChatMeta) : List Sid :=
  let updated (k : Sid) : Int := ((metas.get? k).map ChatMeta.updatedAt).getD 0
  if maxMeta < metas.keys.length then
    (metas.keys.insertionSort fun a b => updated b ≤ updated a).drop maxMeta
  else []

/-- The entry that `upsertChatSessionMeta` writes. -/
def nextMeta (ops : TextOps) (prev : Option ChatMeta) (patch : MetaPatch) (now : Int) : ChatMeta where
  identityKey := normalizeIdentityKey ops
    (orText patch.identityKey ((prev.map ChatMeta.identityKey).getD []))
  title := chatClipText (orText patch.title ((prev.map ChatMeta.title).getD [])) 72
  preview := chatClipText (orText patch.preview ((prev.map ChatMeta.preview).getD [])) 110
  createdAt := (prev.map ChatMeta.createdAt).getD now
  updatedAt := now
  messageCount := patch.messageCount

/-- `upsertChatSessionMeta` -/
def upsertChatSessionMeta (ops : TextOps) (sid : Sid) (patch : MetaPatch) (now : Int)
    (st : ChatStore) : ChatStore :=
  let metas := st.metas.set sid (nextMeta ops (st.metas.get? sid) patch now)
  { st with metas := metas.deleteIf fun k => (evicted metas).contains k }

/-- `touchChatSessionMetaFromItems` -/
def touchChatSessionMetaFromItems (ops : TextOps) (sid : Sid) (items : List ChatItem)
    (identityKey titleHint : JsStr) (now : Int) (st : ChatStore) : ChatStore :=
  let textOf (it : Option ChatItem) : JsStr := (it.map ChatItem.text).getD []
  let firstUser := items.find? fun it => it.who = .user ∧ !(jsTrim it.text).isEmpty
  let lastMsg := items.getLast?
  upsertChatSessionMeta ops sid
    { identityKey := identityKey
      title := chatClipText
        (orText titleHint (orText (textOf firstUser) (orText (textOf lastMsg) untitled))) 72
      preview := chatClipText (textOf lastMsg) 110
      messageCount := items.length } now st

/-- `pushChatHistoryItem` -/
def pushChatHistoryItem (ops : TextOps) (item : ChatItem) (sid : Sid)
    (identityKey titleHint : JsStr) (now : Int) (st : ChatStore) : ChatStore :=
  let text := jsTrim item.text
  if text.isEmpty then st
  else
    let items := st.getChatHistoryItems sid ++ [{ item with text }]
    touchChatSessionMetaFromItems ops sid items identityKey titleHint now
      (st.saveChatHistoryItems sid items)

/-- `deleteChatConversationData` -/
def deleteChatConversationData (sid : Sid) (st : ChatStore) : ChatStore :=
  ⟨st.history.delete sid, st.metas.delete sid⟩

/-! ## Listing -/

structure Row where
  sessionId : Sid
  title : JsStr
  preview : JsStr
  updatedMs : Int
  messageCount : Nat
  deriving DecidableEq, Repr

/-- The identity that a list is made for. -/
def wantedKey (ops : TextOps) (identityKey : JsStr) : JsStr :=
  orText (normalizeIdentityKey ops (orText identityKey guest)) guest

/-- Whether a conversation with this owner is in the list for `wanted`. One
without an owner is in every list. -/
def visibleTo (wanted rowIdentity : JsStr) : Bool :=
  if wanted ≠ guest then rowIdentity.isEmpty || rowIdentity = wanted
  else rowIdentity.isEmpty || rowIdentity = guest

/-- The row of a conversation, if it is in the list for `wanted`. -/
def rowFor (ops : TextOps) (st : ChatStore) (wanted : JsStr) (sid : Sid) : Option Row :=
  let items := st.getChatHistoryItems sid
  let info := st.metas.get? sid
  let field (f : ChatMeta → JsStr) : JsStr := (info.map f).getD []
  let textOf (it : Option ChatItem) : JsStr := (it.map ChatItem.text).getD []
  if visibleTo wanted (normalizeIdentityKey ops (field ChatMeta.identityKey)) &&
      items.any fun it => it.who = .assistant then
    some {
      sessionId := sid
      title := chatClipText (orText (field ChatMeta.title)
        (orText (textOf (items.find? fun it => it.who = .user))
          (orText (textOf items.getLast?) untitled))) 72
      preview := chatClipText (orText (field ChatMeta.preview) (textOf items.getLast?)) 110
      updatedMs := (info.map ChatMeta.updatedAt).getD 0
      messageCount := if (info.map ChatMeta.messageCount).getD 0 = 0 then items.length
        else (info.map ChatMeta.messageCount).getD 0 }
  else none

/-- The newest first. -/
def rowBefore (ops : TextOps) (a b : Row) : Bool :=
  b.updatedMs < a.updatedMs ||
    a.updatedMs = b.updatedMs && ops.localeCompare b.sessionId a.sessionId ≤ 0

/-- `collectConversationRowsForIdentity` -/
def collectConversationRowsForIdentity (ops : TextOps) (identityKey : JsStr) (st : ChatStore) :
    List Row :=
  let wanted := wantedKey ops identityKey
  let sids := (st.history.keys ++ st.metas.keys).eraseDups
  ((sids.filterMap (rowFor ops st wanted)).insertionSort fun a b => rowBefore ops a b = true).take
    chatConvListMax

end ChatStore

end VTranser.Panel

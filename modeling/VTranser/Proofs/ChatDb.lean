import VTranser.Lib.Linked
import VTranser.Lib.Run
import VTranser.Panel.ChatDb

/-!
# A conversation is one thread

The messages of a conversation that are stored one after the other, each naming the
one before it and all in one row. This holds as long as no `sendChat` begins to store
while another of the same conversation does, and no row is looked up that is gone
(`saves_linear`): the place that is read is then the end of the thread, and stays it
until the message is there.
-/

namespace VTranser.Panel

open Run ChatRepo Tasks

/-- The messages of a conversation as they were stored. -/
def thread (key : JsStr) (db : Tables) : List MessageRow := db.messages.filter (·.key = key)

/-- Parents are in the same row, no two messages have the same, and if they are in
different rows one of the rows was deleted. -/
structure Linear (key : JsStr) (db : Tables) : Prop where
  parents : ∀ m ∈ thread key db, ∀ p ∈ m.parentMsgId,
    ∃ q ∈ thread key db, q.id = p ∧ q.chatSessionId = m.chatSessionId
  apart : (thread key db).Pairwise fun m m' => ∀ p ∈ m.parentMsgId, m'.parentMsgId ≠ some p
  oneRow : ∀ m ∈ thread key db, ∀ m' ∈ thread key db, m.chatSessionId ≠ m'.chatSessionId →
    m.chatSessionId ∈ db.deleted ∨ m'.chatSessionId ∈ db.deleted

/-- The account for which the handler looks the row up. -/
def lookedUp : SaveWait → Option Account
  | .selectSession acct => some acct
  | _ => none

/-- The condition on a step: none begins to store while another of the conversation
does, and the row of the conversation is there when it is looked up. -/
def Meets (key : JsStr) (s : ChatDb) : DbLabel → Prop
  | .answered a _ => a.key = key → ∀ t ∈ s.saves, t.payload.key ≠ key
  | .reply i _ => ∀ t ∈ s.saves[i]?, t.payload.key = key → ∀ acct ∈ lookedUp t.wait,
      (s.db.getChatSessionForUser acct (t.payload.chatSessionId.getD [])).isSome
  | .response .. | .deleteSession _ => True

/-! ## Ids -/

theorem normalizeBigintId_self {v s : JsStr} (h : normalizeBigintId v = some s) :
    normalizeBigintId s = some s := by
  have hs : jsTrim v = s := by
    rw [normalizeBigintId] at h
    split at h
    · cases h
    · split at h
      · exact Option.some.inj h
      · cases h
  subst hs
  rw [normalizeBigintId, jsTrim_jsTrim]
  exact h

theorem normalizeTextRef_id {v : JsStr} (h : normalizeBigintId v = some v) :
    normalizeTextRef v = some v := by
  rw [normalizeBigintId] at h
  rw [normalizeTextRef]
  split at h
  · cases h
  · next hne =>
      rw [if_neg hne]
      split at h
      · exact h
      · cases h

/-- The ids of a place are ids of the database. -/
structure Cursor.Proper (c : Cursor) : Prop where
  session : ∀ v ∈ c.chatSessionId, normalizeBigintId v = some v
  parent : ∀ v ∈ c.parentMsgId, normalizeBigintId v = some v

theorem getChatDbCursorState_proper (key : JsStr) (map : Cursors) :
    (getChatDbCursorState key map).Proper := by
  have hid : ∀ w : Option JsStr, ∀ v ∈ w.bind normalizeBigintId, normalizeBigintId v = some v := by
    intro w v hv
    obtain ⟨u, -, hu⟩ := Option.bind_eq_some_iff.mp hv
    exact normalizeBigintId_self hu
  rw [getChatDbCursorState]
  split
  · exact ⟨fun v hv => absurd hv (Option.not_mem_none v),
      fun v hv => absurd hv (Option.not_mem_none v)⟩
  · exact ⟨hid _, hid _⟩

theorem getChatDbCursorState_set_self {key sid mid : JsStr} (hkey : key ≠ [])
    (hsid : normalizeBigintId sid = some sid) (hmid : normalizeBigintId mid = some mid)
    (map : Cursors) :
    getChatDbCursorState key (setChatDbCursorState key sid mid map) = ⟨some sid, some mid⟩ := by
  have hne : key.isEmpty = false := by simpa using hkey
  simp [getChatDbCursorState, setChatDbCursorState, hne, hsid, hmid]

theorem getChatDbCursorState_set_of_ne {key key' : JsStr} (hne : key' ≠ key) (sid mid : JsStr)
    (map : Cursors) :
    getChatDbCursorState key (setChatDbCursorState key' sid mid map) =
      getChatDbCursorState key map := by
  rw [setChatDbCursorState]
  split
  · rfl
  · rw [getChatDbCursorState, getChatDbCursorState, ObjMap.get?_set, if_neg hne.symm]

theorem afterSave_of_ne {key key' : JsStr} (hne : key' ≠ key) (res : Response) (map : Cursors) :
    getChatDbCursorState key (afterSave key' res map) = getChatDbCursorState key map := by
  cases res with
  | saved sid mid => exact getChatDbCursorState_set_of_ne hne sid mid map
  | failed => rfl

/-! ## The end of the thread -/

/-- The place is the last of these messages, and they are in its row. -/
structure Tip (ms : List MessageRow) (c : Cursor) : Prop where
  parent : c.parentMsgId = ms.getLast?.map MessageRow.id
  row : ∀ m ∈ ms, c.chatSessionId = some m.chatSessionId

theorem Tip.oneRow {ms : List MessageRow} {c : Cursor} (h : Tip ms c) :
    ∀ m ∈ ms, ∀ m' ∈ ms, m.chatSessionId = m'.chatSessionId := by
  intro m hm m' hm'
  have heq := (h.row m hm).symm.trans (h.row m' hm')
  exact Option.some.inj heq

/-- The place that a message was given. -/
def given (p : Payload) : Cursor := ⟨p.chatSessionId, p.parentMsgId⟩

/-- The place that the panel has after the worker's answer, as far as it is known. -/
def Save.place (t : Save) : Cursor :=
  match t.wait with
  | .touch sid mid | .response (.saved sid mid) => ⟨some sid, some mid⟩
  | .account | .selectSession _ | .insertSession _ | .insertMessage _ | .response .failed =>
      given t.payload

/-- A message of the conversation is being stored, and the others end at its place. -/
structure Saving (key : JsStr) (s : ChatDb) (t : Save) : Prop where
  named : key ≠ []
  read : getChatDbCursorState key s.cursors = given t.payload
  tip : Tip (thread key s.db) t.place
  proper : t.place.Proper
  /-- A row is created for the first message only. -/
  first : ∀ acct, t.wait = .insertSession acct → t.payload.chatSessionId = none
  row : ∀ sid, t.wait = .insertMessage sid →
    normalizeBigintId sid = some sid ∧ ∀ m ∈ thread key s.db, m.chatSessionId = sid

def SaveOpts.key (o : SaveOpts) : JsStr := chatDbCursorKey o.identityKey o.localSessionId

/-- All that a `sendChat` stores belongs to one conversation. -/
def Save.Uniform (t : Save) : Prop := ∀ o ∈ t.left, o.key = t.payload.key

/-! ## What is read -/

theorem chatDbCursorKey_trim (a b : JsStr) :
    chatDbCursorKey (jsTrim a) (jsTrim b) = chatDbCursorKey a b := by
  simp only [chatDbCursorKey, jsTrim_jsTrim]

theorem chatDbCursorKey_ne_nil {a b : JsStr} (ha : (jsTrim a).isEmpty = false)
    (hb : (jsTrim b).isEmpty = false) : chatDbCursorKey a b ≠ [] := by
  have hne : jsTrim a ≠ [] := by simpa using ha
  simp only [chatDbCursorKey, ha, hb, Bool.or_self, Bool.false_eq_true, if_false]
  intro hnil
  exact hne (List.append_eq_nil_iff.mp (List.append_eq_nil_iff.mp hnil).1).1

/-- The message goes to the worker with the place that was read. -/
theorem persistChatMessageToDb_spec {opts : SaveOpts} {now : Int} {map : Cursors} {p : Payload}
    (h : persistChatMessageToDb opts now map = some p) :
    p.key = opts.key ∧ p.key ≠ [] ∧ given p = getChatDbCursorState opts.key map := by
  rw [persistChatMessageToDb] at h
  split at h
  · cases h
  · next hne =>
      obtain rfl := Option.some.inj h
      simp only [Bool.or_eq_true, not_or, Bool.not_eq_true] at hne
      obtain ⟨⟨ha, hb⟩, -⟩ := hne
      have hkey := chatDbCursorKey_ne_nil ha hb
      rw [← chatDbCursorKey_trim] at hkey
      refine ⟨chatDbCursorKey_trim _ _, hkey, ?_⟩
      show getChatDbCursorState (chatDbCursorKey (jsTrim _) (jsTrim _)) map = _
      rw [chatDbCursorKey_trim, SaveOpts.key]

structure Begun (key : JsStr) (map : Cursors) (t : Save) : Prop where
  payload : t.payload.key = key
  named : key ≠ []
  wait : t.wait = .account
  read : getChatDbCursorState key map = given t.payload
  uniform : t.Uniform

theorem nextSave_spec {now : Int} {map : Cursors} {key : JsStr} :
    ∀ {left : List SaveOpts}, (∀ o ∈ left, o.key = key) →
      ∀ t ∈ nextSave now map left, Begun key map t
  | [], _, _, h => by cases h
  | o :: left, hleft, t, h => by
      have hrest : ∀ o' ∈ left, o'.key = key := fun o' ho' => hleft o' (by simp [ho'])
      rw [nextSave] at h
      split at h
      · next p hp =>
          obtain rfl := Option.some.inj h
          obtain ⟨hpkey, hne, hread⟩ := persistChatMessageToDb_spec hp
          rw [hleft o (by simp)] at hpkey hread
          rw [hpkey] at hne
          exact ⟨hpkey, hne, rfl, hread.symm, fun o' ho' => (hrest o' ho').trans hpkey.symm⟩
      · exact nextSave_spec hrest t h

theorem messages_key (a : Answered) : ∀ o ∈ a.messages, o.key = a.key := by
  intro o ho
  simp only [Answered.messages, List.mem_cons, List.not_mem_nil, or_false] at ho
  rcases ho with rfl | rfl <;> rfl

/-- A save that begins at the end of the thread. -/
theorem Begun.saving {key : JsStr} {s : ChatDb} {t : Save} (h : Begun key s.cursors t)
    (htip : Tip (thread key s.db) (getChatDbCursorState key s.cursors)) : Saving key s t := by
  have hplace : t.place = getChatDbCursorState key s.cursors := by
    rw [Save.place, h.wait, h.read]
  refine ⟨h.named, h.read, by rwa [hplace], ?_, ?_, ?_⟩
  · rw [hplace]
    exact getChatDbCursorState_proper key s.cursors
  · intro acct hwait
    rw [h.wait] at hwait
    cases hwait
  · intro sid hwait
    rw [h.wait] at hwait
    cases hwait

/-! ## What the worker does -/

/-- A step of the handler that is not over. -/
inductive SaveStep (p : Payload) (db : Tables) : SaveWait → Tables → SaveWait → Prop
  | failed {wait : SaveWait} (htouch : ∀ sid mid, wait ≠ .touch sid mid)
      (hres : ∀ res, wait ≠ .response res) : SaveStep p db wait db (.response .failed)
  | known {acct : Account} {sid : JsStr} (hsid : p.chatSessionId.bind normalizeBigintId = some sid) :
      SaveStep p db .account db (.selectSession acct)
  | fresh {acct : Account} (hsid : p.chatSessionId.bind normalizeBigintId = none) :
      SaveStep p db .account db (.insertSession acct)
  | found {acct : Account} {row : SessionRow}
      (hrow : db.getChatSessionForUser acct (p.chatSessionId.getD []) = some row) :
      SaveStep p db (.selectSession acct) db (.insertMessage row.id)
  | missed {acct : Account} (hrow : db.getChatSessionForUser acct (p.chatSessionId.getD []) = none) :
      SaveStep p db (.selectSession acct) db (.insertSession acct)
  | created {acct : Account} (v : DbId) :
      SaveStep p db (.insertSession acct) (db.createChatSession acct p v.text) (.insertMessage v.text)
  | stored {sid : JsStr} {v : DbId} {wait : SaveWait} (hfree : db.messageIdFree v.text)
      (hwait : wait = .touch sid v.text ∨ wait = .response (.saved sid v.text)) :
      SaveStep p db (.insertMessage sid) (db.insertChatMessage sid p v.text) wait
  | touched {sid mid : JsStr} {db' : Tables} (hmsgs : db'.messages = db.messages) :
      SaveStep p db (.touch sid mid) db' (.response (.saved sid mid))

theorem saveStep_of_save {p : Payload} {db db' : Tables} {wait wait' : SaveWait} {r : Reply}
    (h : save p db wait r = some (db', wait')) : SaveStep p db wait db' wait' := by
  unfold save at h
  split at h
  · split at h
    · obtain ⟨rfl, rfl⟩ := Prod.mk.inj (Option.some.inj h)
      exact .failed nofun nofun
    · obtain ⟨rfl, rfl⟩ := Prod.mk.inj (Option.some.inj h)
      rw [ensureChatSessionForUser]
      split
      · exact .failed nofun nofun
      · next hsid => exact .known hsid
      · next hsid => exact .fresh hsid
  · split at h
    · next hrow =>
        obtain ⟨rfl, rfl⟩ := Prod.mk.inj (Option.some.inj h)
        exact .found hrow
    · next hrow =>
        obtain ⟨rfl, rfl⟩ := Prod.mk.inj (Option.some.inj h)
        exact .missed hrow
  · split at h
    · obtain ⟨rfl, rfl⟩ := Prod.mk.inj (Option.some.inj h)
      exact .created _
    · cases h
  · split at h
    · next hfree =>
        obtain ⟨rfl, rfl⟩ := Prod.mk.inj (Option.some.inj h)
        refine .stored hfree ?_
        split
        · exact .inl rfl
        · exact .inr rfl
    · cases h
  · obtain ⟨rfl, rfl⟩ := Prod.mk.inj (Option.some.inj h)
    exact .touched rfl
  · obtain ⟨rfl, rfl⟩ := Prod.mk.inj (Option.some.inj h)
    exact .touched rfl
  · cases h
  · next htouch hres =>
      obtain ⟨rfl, rfl⟩ := Prod.mk.inj (Option.some.inj h)
      exact .failed htouch hres
  · cases h

/-- A message is stored, or the messages stay as they are. -/
theorem SaveStep.messages {p : Payload} {db db' : Tables} {wait wait' : SaveWait}
    (h : SaveStep p db wait db' wait') :
    db'.messages = db.messages ∨
      ∃ sid id, db.messageIdFree id ∧ db'.messages = db.messages ++ [messageRow sid p id] := by
  cases h with
  | failed | known | fresh | found | missed | created => exact .inl rfl
  | stored hfree => exact .inr ⟨_, _, hfree, rfl⟩
  | touched hmsgs => exact .inl hmsgs

theorem SaveStep.nodup {p : Payload} {db db' : Tables} {wait wait' : SaveWait}
    (h : SaveStep p db wait db' wait') (hnodup : (db.messages.map MessageRow.id).Nodup) :
    (db'.messages.map MessageRow.id).Nodup := by
  rcases h.messages with heq | ⟨sid, id, hfree, heq⟩
  · rwa [heq]
  · rw [heq, List.map_append]
    refine List.nodup_append.mpr ⟨hnodup, List.nodup_singleton _, ?_⟩
    intro a ha b hb hab
    rw [List.map_singleton, List.mem_singleton] at hb
    subst hb hab
    exact hfree ha

theorem SaveStep.thread_of_ne {p : Payload} {db db' : Tables} {wait wait' : SaveWait} {key : JsStr}
    (h : SaveStep p db wait db' wait') (hne : p.key ≠ key) : thread key db' = thread key db := by
  rcases h.messages with heq | ⟨sid, id, hfree, heq⟩
  · rw [thread, heq, thread]
  · have hrow : (messageRow sid p id).key ≠ key := hne
    rw [thread, heq, List.filter_append, List.filter_cons_of_neg (by simpa using hrow),
      List.filter_nil, List.append_nil, thread]

theorem getChatSessionForUser_id {db : Tables} {acct : Account} {sid : JsStr} {row : SessionRow}
    (h : db.getChatSessionForUser acct sid = some row) : normalizeBigintId sid = some row.id := by
  rw [Tables.getChatSessionForUser] at h
  split at h
  · cases h
  · next hsid _ =>
      have hrow := List.find?_some h
      simp only [decide_eq_true_eq] at hrow
      rw [hsid, hrow.1]
  · next hsid _ =>
      split at h
      · cases h
      · have hrow := List.find?_some h
        simp only [decide_eq_true_eq] at hrow
        rw [hsid, hrow.1]

theorem Cursor.Proper.bind_parent {c : Cursor} (h : c.Proper) :
    c.parentMsgId.bind normalizeTextRef = c.parentMsgId := by
  cases hp : c.parentMsgId with
  | none => rfl
  | some v => exact normalizeTextRef_id (h.parent v hp)

theorem Cursor.Proper.bind_session {c : Cursor} (h : c.Proper) :
    c.chatSessionId.bind normalizeBigintId = c.chatSessionId := by
  cases hs : c.chatSessionId with
  | none => rfl
  | some v => exact h.session v hs

theorem Save.place_given {p : Payload} {wait : SaveWait} {left : List SaveOpts}
    (htouch : ∀ sid mid, wait ≠ .touch sid mid) (hres : ∀ res, wait ≠ .response res) :
    Save.place ⟨p, wait, left⟩ = given p := by
  cases wait with
  | account | selectSession | insertSession | insertMessage => rfl
  | touch sid mid => exact absurd rfl (htouch sid mid)
  | response res => exact absurd rfl (hres res)

/-- It is about the conversation only. -/
theorem Saving.frame {key : JsStr} {s s' : ChatDb} {t : Save} (h : Saving key s t)
    (hread : getChatDbCursorState key s'.cursors = getChatDbCursorState key s.cursors)
    (hthread : thread key s'.db = thread key s.db) : Saving key s' t where
  named := h.named
  read := hread.trans h.read
  tip := by rw [hthread]; exact h.tip
  proper := h.proper
  first := h.first
  row := by rw [hthread]; exact h.row

/-- The save goes on and nothing is stored. -/
theorem Saving.keep {key : JsStr} {s : ChatDb} {t t' : Save} (h : Saving key s t) {db' : Tables}
    (hpayload : t'.payload = t.payload) (hthread : thread key db' = thread key s.db)
    (hplace : t'.place = t.place)
    (hfirst : ∀ acct, t'.wait = .insertSession acct → t.payload.chatSessionId = none)
    (hrow : ∀ sid, t'.wait = .insertMessage sid →
      normalizeBigintId sid = some sid ∧ ∀ m ∈ thread key s.db, m.chatSessionId = sid) :
    Saving key { s with db := db' } t' where
  named := h.named
  read := by rw [hpayload]; exact h.read
  tip := by rw [hplace, hthread]; exact h.tip
  proper := by rw [hplace]; exact h.proper
  first := by rw [hpayload]; exact hfirst
  row := by rw [hthread]; exact hrow

/-- The message is stored at the end of the thread. -/
theorem Saving.store {key : JsStr} {s : ChatDb} {p : Payload} {left : List SaveOpts} {sid : JsStr}
    (h : Saving key s ⟨p, .insertMessage sid, left⟩) (hkey : p.key = key)
    (hlinked : Linked MessageRow.id MessageRow.parentMsgId (thread key s.db)) {v : DbId}
    {wait : SaveWait} (hwait : wait = .touch sid v.text ∨ wait = .response (.saved sid v.text)) :
    Saving key { s with db := s.db.insertChatMessage sid p v.text } ⟨p, wait, left⟩ ∧
      Linked MessageRow.id MessageRow.parentMsgId
        (thread key (s.db.insertChatMessage sid p v.text)) := by
  have hthread : thread key (s.db.insertChatMessage sid p v.text) =
      thread key s.db ++ [messageRow sid p v.text] := by
    have hrow : (messageRow sid p v.text).key = key := hkey
    rw [thread, Tables.insertChatMessage, List.filter_append,
      List.filter_cons_of_pos (by simpa using hrow), List.filter_nil, thread]
  have hplace : Save.place ⟨p, wait, left⟩ = ⟨some sid, some v.text⟩ := by
    rcases hwait with rfl | rfl <;> rfl
  obtain ⟨hsid, hsame⟩ := h.row sid rfl
  have hparent : p.parentMsgId = (thread key s.db).getLast?.map MessageRow.id := h.tip.parent
  refine ⟨⟨h.named, h.read, ?_, ?_, ?_, ?_⟩, ?_⟩
  · rw [hplace, hthread]
    refine ⟨by rw [List.getLast?_concat]; rfl, ?_⟩
    intro m hm
    rcases List.mem_append.mp hm with hm | hm
    · rw [hsame m hm]
    · rw [List.mem_singleton.mp hm]
      rfl
  · rw [hplace]
    refine ⟨?_, ?_⟩
    · intro w hw
      obtain rfl := Option.some.inj hw
      exact hsid
    · intro w hw
      obtain rfl := Option.some.inj hw
      exact v.digits
  · intro acct heq
    rcases hwait with rfl | rfl <;> cases heq
  · intro sid' heq
    rcases hwait with rfl | rfl <;> cases heq
  · rw [hthread]
    refine hlinked.concat ?_
    have hsame := h.proper.bind_parent
    rw [← hparent]
    exact hsame

/-- A step of the handler for the one message of the conversation that is being stored. -/
theorem Saving.step {key : JsStr} {s : ChatDb} {p : Payload} {wait wait' : SaveWait}
    {left : List SaveOpts} {db' : Tables} (h : Saving key s ⟨p, wait, left⟩) (hkey : p.key = key)
    (hlinked : Linked MessageRow.id MessageRow.parentMsgId (thread key s.db))
    (hmeets : ∀ acct ∈ lookedUp wait,
      (s.db.getChatSessionForUser acct (p.chatSessionId.getD [])).isSome)
    (hstep : SaveStep p s.db wait db' wait') :
    Saving key { s with db := db' } ⟨p, wait', left⟩ ∧
      Linked MessageRow.id MessageRow.parentMsgId (thread key db') := by
  cases hstep with
  | failed htouch hres =>
      exact ⟨h.keep rfl rfl (Save.place_given htouch hres).symm nofun nofun, hlinked⟩
  | known => exact ⟨h.keep rfl rfl rfl nofun nofun, hlinked⟩
  | fresh hsid =>
      have hnone : p.chatSessionId = none := h.proper.bind_session.symm.trans hsid
      exact ⟨h.keep rfl rfl rfl (fun _ _ => hnone) nofun, hlinked⟩
  | @found acct row hrow =>
      refine ⟨h.keep rfl rfl rfl nofun ?_, hlinked⟩
      intro sid heq
      obtain rfl := SaveWait.insertMessage.inj heq
      have hid := getChatSessionForUser_id hrow
      cases hs : p.chatSessionId with
      | none =>
          rw [hs] at hid
          cases hid
      | some v =>
          have hv : normalizeBigintId v = some v := h.proper.session v hs
          rw [hs, Option.getD_some, hv] at hid
          obtain rfl := Option.some.inj hid
          refine ⟨hv, ?_⟩
          intro m hm
          have hrow := h.tip.row m hm
          exact (Option.some.inj (hs.symm.trans hrow)).symm
  | @missed acct hrow =>
      have hsome := hmeets acct rfl
      rw [hrow] at hsome
      cases hsome
  | created v =>
      refine ⟨h.keep rfl rfl rfl nofun ?_, hlinked⟩
      intro sid heq
      obtain rfl := SaveWait.insertMessage.inj heq
      refine ⟨v.digits, ?_⟩
      intro m hm
      have hrow := h.tip.row m hm
      cases (h.first _ rfl).symm.trans hrow
  | stored hfree hwait => exact h.store hkey hlinked hwait
  | touched hmsgs =>
      have hthread : thread key db' = thread key s.db := by rw [thread, hmsgs, thread]
      refine ⟨h.keep rfl hthread rfl nofun nofun, ?_⟩
      rwa [hthread]

/-! ## Runs -/

/-- The messages of the conversation are linked; at most one of them is being stored,
and they end at its place, or else at the place the panel has. -/
structure Threaded (key : JsStr) (s : ChatDb) : Prop where
  linked : Linked MessageRow.id MessageRow.parentMsgId (thread key s.db)
  nodup : (s.db.messages.map MessageRow.id).Nodup
  uniform : ∀ t ∈ s.saves, t.Uniform
  one : AllButOne (fun t => t.payload.key ≠ key) s.saves
  idle : (∀ t ∈ s.saves, t.payload.key ≠ key) →
    Tip (thread key s.db) (getChatDbCursorState key s.cursors)
  busy : ∀ t ∈ s.saves, t.payload.key = key → Saving key s t

variable {key : JsStr} {s s' : ChatDb} {t : Save} {i : Nat} {next : Option Save}

theorem threaded_init (key : JsStr) : Threaded key .init := by
  have hnone : ∀ t, t ∉ ChatDb.init.saves := fun _ => List.not_mem_nil
  have hread : getChatDbCursorState key ChatDb.init.cursors = ⟨none, none⟩ := by
    rw [getChatDbCursorState]
    split <;> rfl
  refine ⟨.nil, List.nodup_nil, ?_, .nil, ?_, ?_⟩
  · intro t ht
    exact absurd ht (hnone t)
  · intro _
    rw [hread]
    exact ⟨rfl, fun _ hm => absurd hm List.not_mem_nil⟩
  · intro t ht
    exact absurd ht (hnone t)

theorem Threaded.linear (h : Threaded key s) : Linear key s.db := by
  have htip : ∃ c, Tip (thread key s.db) c := by
    by_cases hidle : ∀ t ∈ s.saves, t.payload.key ≠ key
    · exact ⟨_, h.idle hidle⟩
    · simp only [not_forall, not_not] at hidle
      obtain ⟨t, ht, hkey⟩ := hidle
      exact ⟨_, (h.busy t ht hkey).tip⟩
  obtain ⟨c, htip⟩ := htip
  have hids : ((thread key s.db).map MessageRow.id).Nodup :=
    h.nodup.sublist (List.filter_sublist.map MessageRow.id)
  have hparents : (thread key s.db).Pairwise fun m m' => m.parentMsgId ≠ m'.parentMsgId :=
    List.pairwise_map.mp (h.linked.nodup_parents hids)
  refine ⟨?_, ?_, ?_⟩
  · intro m hm p hp
    obtain ⟨q, hq, hid⟩ := h.linked.exists_parent hm hp
    exact ⟨q, hq, hid, htip.oneRow q hq m hm⟩
  · refine hparents.imp ?_
    intro m m' hne p hp hp'
    exact hne ((show m.parentMsgId = some p from hp).trans hp'.symm)
  · intro m hm m' hm' hne
    exact absurd (htip.oneRow m hm m' hm') hne

/-- A `sendChat` of another conversation goes on. -/
theorem Threaded.other (h : Threaded key s) (hi : s.saves[i]? = some t)
    (hne : t.payload.key ≠ key) (hsaves : s'.saves = goOn s.saves i next)
    (hnext : ∀ t' ∈ next, t'.payload.key ≠ key ∧ t'.Uniform)
    (hread : getChatDbCursorState key s'.cursors = getChatDbCursorState key s.cursors)
    (hthread : thread key s'.db = thread key s.db)
    (hnodup : (s'.db.messages.map MessageRow.id).Nodup) : Threaded key s' where
  linked := by rw [hthread]; exact h.linked
  nodup := hnodup
  uniform := by rw [hsaves]; exact forall_goOn h.uniform fun t' ht' => (hnext t' ht').2
  one := by rw [hsaves]; exact h.one.goOn hi fun _ t' ht' => (hnext t' ht').1
  idle hidle := by
    rw [hread, hthread]
    refine h.idle fun u hu hkey => ?_
    have hmem : u ∈ s'.saves := by
      rw [hsaves]
      exact mem_goOn_of_ne hi hu (fun heq => hne (heq ▸ hkey)) next
    exact hidle u hmem hkey
  busy u hu hkey := by
    rw [hsaves] at hu
    rcases mem_goOn hu with hu | hu
    · exact (h.busy u hu hkey).frame hread hthread
    · exact absurd hkey (hnext u hu).1

/-- The one `sendChat` of the conversation goes on. -/
theorem Threaded.own (h : Threaded key s) (hi : s.saves[i]? = some t)
    (hkey : t.payload.key = key) (hsaves : s'.saves = goOn s.saves i next)
    (hlinked : Linked MessageRow.id MessageRow.parentMsgId (thread key s'.db))
    (hnodup : (s'.db.messages.map MessageRow.id).Nodup)
    (hnext : ∀ t' ∈ next, t'.payload.key = key ∧ t'.Uniform ∧ Saving key s' t')
    (hidle : next = none → Tip (thread key s'.db) (getChatDbCursorState key s'.cursors)) :
    Threaded key s' := by
  have hrest := h.one.rest hi (not_not_intro hkey)
  refine ⟨hlinked, hnodup, ?_, ?_, ?_, ?_⟩
  · rw [hsaves]
    exact forall_goOn h.uniform fun t' ht' => (hnext t' ht').2.1
  · rw [hsaves]
    exact AllButOne.goOn_of_rest hi hrest next
  · intro hnot
    cases next with
    | none => exact hidle rfl
    | some t' =>
        have hmem : t' ∈ s'.saves := by rw [hsaves]; exact mem_goOn_next hi
        exact absurd (hnext t' rfl).1 (hnot t' hmem)
  · intro u hu hukey
    rw [hsaves] at hu
    rcases mem_goOn_erase hi hu with hu | hu
    · exact (hnext u hu).2.2
    · exact absurd hukey (hrest u hu)

/-- A `sendChat` begins to store. -/
theorem Threaded.begin (h : Threaded key s) {key' : JsStr} (hbegun : Begun key' s.cursors t)
    (hmeets : key' = key → ∀ u ∈ s.saves, u.payload.key ≠ key) :
    Threaded key { s with saves := s.saves ++ [t] } := by
  have huniform : ∀ u ∈ s.saves ++ [t], u.Uniform := by
    intro u hu
    rcases List.mem_append.mp hu with hu | hu
    · exact h.uniform u hu
    · rw [List.mem_singleton.mp hu]
      exact hbegun.uniform
  by_cases hkey : key' = key
  · subst hkey
    have hidle := hmeets rfl
    have hsaving := hbegun.saving (h.idle hidle)
    refine ⟨h.linked, h.nodup, huniform, AllButOne.append_of_forall hidle t, ?_, ?_⟩
    · intro hnot
      exact absurd hbegun.payload (hnot t (by simp))
    · intro u hu hukey
      rcases List.mem_append.mp hu with hu | hu
      · exact absurd hukey (hidle u hu)
      · obtain rfl := List.mem_singleton.mp hu
        exact hsaving.frame rfl rfl
  · have hne : t.payload.key ≠ key := by rw [hbegun.payload]; exact hkey
    refine ⟨h.linked, h.nodup, huniform, h.one.append ?_, ?_, ?_⟩
    · intro u hu
      rwa [List.mem_singleton.mp hu]
    · intro hnot
      exact h.idle fun u hu => hnot u (List.mem_append_left _ hu)
    · intro u hu hukey
      rcases List.mem_append.mp hu with hu | hu
      · exact (h.busy u hu hukey).frame rfl rfl
      · rw [List.mem_singleton.mp hu] at hukey
        exact absurd hukey hne

/-- The worker's answer is back, and the next message goes to it. -/
theorem Threaded.response (h : Threaded key s) {p : Payload} {res : Response}
    {left : List SaveOpts} (hi : s.saves[i]? = some ⟨p, .response res, left⟩) (now : Int) :
    Threaded key { s with
      cursors := afterSave p.key res s.cursors
      saves := goOn s.saves i (nextSave now (afterSave p.key res s.cursors) left) } := by
  have hbegun : ∀ t ∈ nextSave now (afterSave p.key res s.cursors) left,
      Begun p.key (afterSave p.key res s.cursors) t :=
    nextSave_spec (h.uniform _ (List.mem_of_getElem? hi))
  by_cases hkey : p.key = key
  · subst hkey
    have hsaving := h.busy _ (List.mem_of_getElem? hi) rfl
    -- What the panel reads now is where the thread ends.
    have hread : getChatDbCursorState p.key (afterSave p.key res s.cursors) =
        Save.place ⟨p, .response res, left⟩ := by
      cases res with
      | saved sid mid =>
          exact getChatDbCursorState_set_self hsaving.named (hsaving.proper.session sid rfl)
            (hsaving.proper.parent mid rfl) s.cursors
      | failed => exact hsaving.read
    have htip : Tip (thread p.key s.db)
        (getChatDbCursorState p.key (afterSave p.key res s.cursors)) := by
      rw [hread]
      exact hsaving.tip
    refine h.own hi rfl rfl h.linked h.nodup ?_ fun _ => htip
    intro t' ht'
    have ht := hbegun t' ht'
    exact ⟨ht.payload, ht.uniform, Begun.saving ht htip⟩
  · refine h.other hi hkey rfl ?_ (afterSave_of_ne hkey res s.cursors) rfl h.nodup
    intro t' ht'
    have ht := hbegun t' ht'
    exact ⟨by rw [ht.payload]; exact hkey, ht.uniform⟩

theorem Threaded.step (h : Threaded key s) {l : DbLabel} (hmeets : Meets key s l)
    (hstep : s.step l = some s') : Threaded key s' := by
  cases l with
  | answered a now =>
      rw [ChatDb.step] at hstep
      split at hstep
      · cases hstep
      · obtain rfl := Option.some.inj hstep
        have hbegun : ∀ t ∈ nextSave now s.cursors a.messages, Begun a.key s.cursors t :=
          nextSave_spec (messages_key a)
        cases hnext : nextSave now s.cursors a.messages with
        | none => simpa using h
        | some t => exact h.begin (hbegun t hnext) hmeets
  | reply i r =>
      rw [ChatDb.step] at hstep
      split at hstep
      · next t hi =>
          obtain ⟨⟨db', wait'⟩, hsave, rfl⟩ := Option.map_eq_some_iff.mp hstep
          have hs := saveStep_of_save hsave
          have huniform : Save.Uniform { t with wait := wait' } :=
            h.uniform t (List.mem_of_getElem? hi)
          by_cases hkey : t.payload.key = key
          · have hsaving := h.busy t (List.mem_of_getElem? hi) hkey
            obtain ⟨hsaving', hlinked⟩ := hsaving.step hkey h.linked (hmeets t hi hkey) hs
            refine h.own hi hkey (show _ = goOn s.saves i (some _) from rfl) hlinked
              (hs.nodup h.nodup) ?_ nofun
            intro t' ht'
            obtain rfl := Option.some.inj ht'
            exact ⟨hkey, huniform, hsaving'.frame rfl rfl⟩
          · refine h.other hi hkey (show _ = goOn s.saves i (some _) from rfl) ?_ rfl
              (hs.thread_of_ne hkey) (hs.nodup h.nodup)
            intro t' ht'
            obtain rfl := Option.some.inj ht'
            exact ⟨hkey, huniform⟩
      · cases hstep
  | response i now =>
      rw [ChatDb.step] at hstep
      split at hstep
      · next hi =>
          obtain rfl := Option.some.inj hstep
          exact h.response hi now
      · cases hstep
  | deleteSession id =>
      rw [ChatDb.step] at hstep
      split at hstep
      · obtain rfl := Option.some.inj hstep
        exact ⟨h.linked, h.nodup, h.uniform, h.one, h.idle, fun t ht hkey =>
          (h.busy t ht hkey).frame rfl rfl⟩
      · cases hstep

/-- In a run whose steps meet the condition for a conversation, what is stored of it is
one thread, whatever happens in the others. -/
theorem saves_linear (identityKey localSessionId : JsStr) {ls : List DbLabel} {s : ChatDb}
    (hmeets : Guarded ChatDb.step (Meets (chatDbCursorKey identityKey localSessionId)) .init ls)
    (hrun : run ChatDb.step .init ls = some s) :
    Linear (chatDbCursorKey identityKey localSessionId) s.db :=
  (run_guarded (fun _ _ _ h => h.step) (threaded_init _) hmeets hrun).linear

instance (key : JsStr) (s : ChatDb) : (l : DbLabel) → Decidable (Meets key s l)
  | .answered .. => inferInstanceAs (Decidable (_ → _))
  | .reply i _ => inferInstanceAs (Decidable (∀ t ∈ s.saves[i]?, _ → ∀ acct ∈ lookedUp t.wait, _))
  | .response .. | .deleteSession _ => isTrue trivial

instance (key : JsStr) (db : Tables) : Decidable (Linear key db) :=
  decidable_of_iff
    ((∀ m ∈ thread key db, ∀ p ∈ m.parentMsgId,
        ∃ q ∈ thread key db, q.id = p ∧ q.chatSessionId = m.chatSessionId) ∧
      (thread key db).Pairwise (fun m m' => ∀ p ∈ m.parentMsgId, m'.parentMsgId ≠ some p) ∧
      ∀ m ∈ thread key db, ∀ m' ∈ thread key db, m.chatSessionId ≠ m'.chatSessionId →
        m.chatSessionId ∈ db.deleted ∨ m'.chatSessionId ∈ db.deleted)
    ⟨fun h => ⟨h.1, h.2.1, h.2.2⟩, fun h => ⟨h.parents, h.apart, h.oneRow⟩⟩

/-- An account, and one of its conversations. -/
def somebody : Account := ⟨jsText "7", []⟩

def conversation : JsStr := chatDbCursorKey (jsText "email:a@b.c") (jsText "sess_1")

def asked (question answer : String) : Answered :=
  ⟨jsText "email:a@b.c", jsText "sess_1", jsText question, jsText answer, jsText "default"⟩

/-- The only `sendChat` that stores finds its row and gets this id for a message. -/
def savesIn (id : DbId) : List DbLabel :=
  [.reply 0 (.account somebody), .reply 0 .ok, .reply 0 (.id id)]

def id1 : DbId := ⟨jsText "1", by decide⟩
def id2 : DbId := ⟨jsText "2", by decide⟩
def id10 : DbId := ⟨jsText "10", by decide⟩
def id11 : DbId := ⟨jsText "11", by decide⟩
def id12 : DbId := ⟨jsText "12", by decide⟩
def id13 : DbId := ⟨jsText "13", by decide⟩

/-- Two questions, the second when the first and its answer are stored. -/
def oneByOne : List DbLabel :=
  [.answered (asked "How long is it?" "Two miles.") 0, .reply 0 (.account somebody),
    .reply 0 (.id id1), .reply 0 (.id id10), .response 0 1] ++ savesIn id11 ++
  [.reply 0 .ok, .response 0 2, .answered (asked "How old is it?" "A century.") 3] ++
  savesIn id12 ++ [.response 0 4] ++ savesIn id13

theorem saves_linear_oneByOne : ∃ s, run ChatDb.step .init oneByOne = some s ∧
    (thread conversation s.db).map MessageRow.parentMsgId =
      [none, some id10.text, some id11.text, some id12.text] ∧
    Linear conversation s.db := by
  have hend : ((run ChatDb.step .init oneByOne).any fun s =>
      decide ((thread conversation s.db).map MessageRow.parentMsgId =
        [none, some id10.text, some id11.text, some id12.text])) = true := by decide +kernel
  obtain ⟨s, hrun, hparents⟩ := (Option.any_eq_true _ _).mp hend
  have hmeets : Guarded ChatDb.step (Meets conversation) .init oneByOne := by decide +kernel
  exact ⟨s, hrun, of_decide_eq_true hparents, saves_linear _ _ hmeets hrun⟩

/-! ## Where it is not one thread -/

/-- The second question is answered before the first is stored. -/
def bothAtOnce : List DbLabel :=
  [.answered (asked "How long is it?" "Two miles.") 0,
    .answered (asked "How old is it?" "A century.") 1,
    .reply 0 (.account somebody), .reply 1 (.account somebody),
    .reply 0 (.id id1), .reply 1 (.id id2), .reply 0 (.id id10), .reply 1 (.id id11)]

/-- The row is deleted after the question was stored and before the answer. -/
def deletedBetween : List DbLabel :=
  [.answered (asked "How long is it?" "Two miles.") 0, .reply 0 (.account somebody),
    .reply 0 (.id id1), .reply 0 (.id id10), .response 0 1, .deleteSession id1.text,
    .reply 0 (.account somebody), .reply 0 .ok, .reply 0 (.id id2), .reply 0 (.id id11)]

/-- Two rows for one conversation, though none was deleted; and a parent in another row. -/
theorem saves_not_linear :
    (∃ s, run ChatDb.step .init bothAtOnce = some s ∧ s.db.deleted = [] ∧
      (thread conversation s.db).map MessageRow.chatSessionId = [id1.text, id2.text] ∧
      ¬ Linear conversation s.db) ∧
    ∃ s, run ChatDb.step .init deletedBetween = some s ∧ ¬ Linear conversation s.db := by
  have hboth : ((run ChatDb.step .init bothAtOnce).any fun s =>
      decide (s.db.deleted = [] ∧
        (thread conversation s.db).map MessageRow.chatSessionId = [id1.text, id2.text] ∧
        ¬ Linear conversation s.db)) = true := by decide +kernel
  have hdeleted : ((run ChatDb.step .init deletedBetween).any fun s =>
      decide (¬ Linear conversation s.db)) = true := by decide +kernel
  obtain ⟨s, hrun, hs⟩ := (Option.any_eq_true _ _).mp hboth
  obtain ⟨s', hrun', hs'⟩ := (Option.any_eq_true _ _).mp hdeleted
  exact ⟨⟨s, hrun, of_decide_eq_true hs⟩, s', hrun', of_decide_eq_true hs'⟩

end VTranser.Panel

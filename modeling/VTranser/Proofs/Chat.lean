import VTranser.Lib.Run
import VTranser.Panel.Chat

/-!
# When the chat history is private to the account

The owner of a conversation is whoever wrote last: signing in as somebody else
does not open a new conversation, and the next message in the old one makes all
of it the new account's. A conversation whose entry is one too many loses its
owner altogether and is in everybody's list.

As long as every answer is stored in a conversation that is empty or belongs to
the same identity, and there is room for its entry, each stored conversation has
an owner who wrote all of it (`Owned`).
-/

namespace VTranser.Panel

open Run ChatStore

/-! ## Storing a message -/

section Store

variable {ops : TextOps}

theorem getChatHistoryItems_save (sid sid' : Sid) (items : List ChatItem) (st : ChatStore) :
    (st.saveChatHistoryItems sid items).getChatHistoryItems sid' =
      if sid' = sid then
        (items.drop (items.length - chatHistoryMax)).filter fun it => !(jsTrim it.text).isEmpty
      else st.getChatHistoryItems sid' := by
  by_cases hsid : sid' = sid
  · subst hsid
    rw [if_pos rfl, saveChatHistoryItems, getChatHistoryItems]
    dsimp only
    split
    · next hnil =>
        rw [ObjMap.get?_delete, if_pos rfl, List.isEmpty_iff.mp hnil]
        rfl
    · rw [ObjMap.get?_set_self]
      rfl
  · rw [if_neg hsid, saveChatHistoryItems, getChatHistoryItems, getChatHistoryItems]
    dsimp only
    split
    · rw [ObjMap.get?_delete, if_neg hsid]
    · rw [ObjMap.get?_set, if_neg hsid]

theorem getChatHistoryItems_delete (sid sid' : Sid) (st : ChatStore) :
    (st.deleteChatConversationData sid).getChatHistoryItems sid' =
      if sid' = sid then [] else st.getChatHistoryItems sid' := by
  rw [deleteChatConversationData, getChatHistoryItems, ObjMap.get?_delete]
  split <;> rfl

/-! ## The owner -/

/-- There is an entry for the conversation, or room for one. -/
def HasRoom (st : ChatStore) (sid : Sid) : Prop :=
  sid ∈ st.metas.keys ∨ st.metas.keys.length < maxMeta

/-- The conversation has no message, or its entry names `owner`. -/
def OwnedOrEmpty (st : ChatStore) (sid : Sid) (owner : JsStr) : Prop :=
  st.getChatHistoryItems sid = [] ∨ (st.metas.get? sid).map ChatMeta.identityKey = some owner

/-- The owner of a conversation wrote all of it. -/
structure OwnerOf (ops : TextOps) (st : ChatStore) (sid : Sid) (info : ChatMeta) : Prop where
  entry : st.metas.get? sid = some info
  named : info.identityKey ≠ []
  normal : normalizeIdentityKey ops info.identityKey = info.identityKey
  wrote : ∀ it ∈ st.getChatHistoryItems sid, it.writer = info.identityKey

/-- Every conversation with a message has an owner, and the entries are not too
many. -/
structure Owned (ops : TextOps) (st : ChatStore) : Prop where
  owner : ∀ sid, st.getChatHistoryItems sid ≠ [] → ∃ info, OwnerOf ops st sid info
  bound : st.metas.keys.length ≤ maxMeta

variable (ops) in
/-- A signed-in identity may store an answer in the conversation. -/
structure MayStore (st : ChatStore) (sid : Sid) (key : JsStr) : Prop where
  given : key ≠ []
  named : normalizeIdentityKey ops key ≠ []
  owned : OwnedOrEmpty st sid (normalizeIdentityKey ops key)
  room : HasRoom st sid

/-- With room for the entry there are not too many. -/
theorem HasRoom.length_set {sid : Sid} {st : ChatStore} (hroom : HasRoom st sid)
    (hbound : st.metas.keys.length ≤ maxMeta) (info : ChatMeta) :
    (st.metas.set sid info).keys.length ≤ maxMeta := by
  rw [ObjMap.keys_set]
  rcases hroom with hmem | hlt
  · rwa [if_pos hmem]
  · split
    · exact hbound
    · rw [List.length_append, List.length_singleton]
      exact hlt

/-- With room for the entry no other is dropped. -/
theorem upsert_metas (ops : TextOps) {sid : Sid} (st : ChatStore) (hbound : st.metas.keys.length ≤ maxMeta)
    (hroom : HasRoom st sid) (patch : MetaPatch) (now : Int) :
    (st.upsertChatSessionMeta ops sid patch now).metas =
      st.metas.set sid (nextMeta ops (st.metas.get? sid) patch now) := by
  rw [upsertChatSessionMeta]
  refine ObjMap.deleteIf_of_none fun k => ?_
  rw [evicted, if_neg (Nat.not_lt.mpr (hroom.length_set hbound _))]
  rfl

theorem orText_of_ne {a : JsStr} (ha : a ≠ []) (b : JsStr) : orText a b = a := by
  rw [orText, if_neg (by simpa using ha)]

theorem wantedKey_of_named {key : JsStr} (hgiven : key ≠ [])
    (hnamed : normalizeIdentityKey ops key ≠ []) :
    wantedKey ops key = normalizeIdentityKey ops key := by
  rw [wantedKey, orText_of_ne hgiven, orText_of_ne hnamed]

theorem getChatHistoryItems_upsert (ops : TextOps) (sid sid' : Sid) (patch : MetaPatch) (now : Int)
    (st : ChatStore) : (st.upsertChatSessionMeta ops sid patch now).getChatHistoryItems sid' =
      st.getChatHistoryItems sid' := by
  rw [getChatHistoryItems, upsertChatSessionMeta, getChatHistoryItems]

/-- What a message that is stored with room for its entry changes. -/
structure Stored (st : ChatStore) (sid : Sid) (owner writer : JsStr) (st' : ChatStore) : Prop where
  items : ∀ it ∈ st'.getChatHistoryItems sid, it ∈ st.getChatHistoryItems sid ∨ it.writer = writer
  others : ∀ sid' ≠ sid, st'.getChatHistoryItems sid' = st.getChatHistoryItems sid'
  entry : ∃ info, st'.metas.get? sid = some info ∧ info.identityKey = owner
  entries : ∀ sid' ≠ sid, st'.metas.get? sid' = st.metas.get? sid'
  bound : st'.metas.keys.length ≤ maxMeta

theorem push_stored (ops : TextOps) {st : ChatStore} {sid : Sid} {key : JsStr} {item : ChatItem}
    (hbound : st.metas.keys.length ≤ maxMeta) (hroom : HasRoom st sid) (hgiven : key ≠ [])
    (htext : jsTrim item.text ≠ []) (titleHint : JsStr) (now : Int) :
    Stored st sid (normalizeIdentityKey ops key) item.writer
      (st.pushChatHistoryItem ops item sid key titleHint now) := by
  rw [pushChatHistoryItem]
  dsimp only
  rw [if_neg (by simpa using htext), touchChatSessionMetaFromItems]
  generalize hitems : st.getChatHistoryItems sid ++ [{ item with text := jsTrim item.text }] = items
  have hsame : (st.saveChatHistoryItems sid items).metas = st.metas := by
    rw [saveChatHistoryItems]
  have hmetas := upsert_metas ops (st.saveChatHistoryItems sid items)
    (by rw [hsame]; exact hbound) (by rw [HasRoom, hsame]; exact hroom)
  rw [hsame] at hmetas
  refine ⟨?_, ?_, ?_, ?_, ?_⟩
  · intro it hit
    rw [getChatHistoryItems_upsert, getChatHistoryItems_save, if_pos rfl] at hit
    have hmem := (List.drop_sublist _ _).subset (List.mem_filter.mp hit).1
    rw [← hitems] at hmem
    rcases List.mem_append.mp hmem with hold | hnew
    · exact .inl hold
    · exact .inr (by rw [List.mem_singleton.mp hnew])
  · intro sid' hne
    rw [getChatHistoryItems_upsert, getChatHistoryItems_save, if_neg hne]
  · rw [hmetas, ObjMap.get?_set_self]
    refine ⟨_, rfl, ?_⟩
    rw [nextMeta]
    dsimp only
    rw [orText_of_ne hgiven]
  · intro sid' hne
    rw [hmetas, ObjMap.get?_set, if_neg hne]
  · rw [hmetas]
    exact hroom.length_set hbound _

/-- Storing keeps the owners, and the identity may go on storing there. -/
theorem Owned.push (hops : ∀ k, normalizeIdentityKey ops (normalizeIdentityKey ops k) =
      normalizeIdentityKey ops k) {st : ChatStore} {sid : Sid} {key : JsStr} (ho : Owned ops st)
    (hm : MayStore ops st sid key) (item : ChatItem) (hwriter : item.writer = wantedKey ops key)
    (titleHint : JsStr) (now : Int) :
    Owned ops (st.pushChatHistoryItem ops item sid key titleHint now) ∧
      MayStore ops (st.pushChatHistoryItem ops item sid key titleHint now) sid key := by
  by_cases htext : jsTrim item.text = []
  · have hsame : st.pushChatHistoryItem ops item sid key titleHint now = st := by
      rw [pushChatHistoryItem]
      dsimp only
      rw [if_pos (by simpa using htext)]
    rw [hsame]
    exact ⟨ho, hm⟩
  · have hs := push_stored ops ho.bound hm.room hm.given htext titleHint now
    generalize st.pushChatHistoryItem ops item sid key titleHint now = st' at hs ⊢
    obtain ⟨info, hentry, hinfo⟩ := hs.entry
    rw [wantedKey_of_named hm.given hm.named] at hwriter
    refine ⟨⟨fun sid' hne => ?_, hs.bound⟩, ?_⟩
    · by_cases hsid : sid' = sid
      · subst hsid
        refine ⟨info, hentry, by rw [hinfo]; exact hm.named, by rw [hinfo, hops], ?_⟩
        intro it hit
        rw [hinfo]
        rcases hs.items it hit with hold | hnew
        · -- An older message is of the owner that the entry named before.
          rcases hm.owned with hnil | hnamed
          · rw [hnil] at hold
            cases hold
          · obtain ⟨info', howner⟩ := ho.owner sid' (List.ne_nil_of_mem hold)
            rw [howner.entry, Option.map_some, Option.some.injEq] at hnamed
            rw [howner.wrote it hold, hnamed]
        · rw [hnew, hwriter]
      · rw [hs.others sid' hsid] at hne
        obtain ⟨info', howner⟩ := ho.owner sid' hne
        exact ⟨info', by rw [hs.entries sid' hsid]; exact howner.entry, howner.named,
          howner.normal, by rw [hs.others sid' hsid]; exact howner.wrote⟩
    · exact ⟨hm.given, hm.named, .inr (by rw [hentry, Option.map_some, hinfo]),
        .inl (ObjMap.mem_keys_of_get? hentry)⟩

theorem Owned.delete {st : ChatStore} (ho : Owned ops st) (sid : Sid) :
    Owned ops (st.deleteChatConversationData sid) where
  owner sid' hne := by
    rw [getChatHistoryItems_delete] at hne
    split at hne
    · exact absurd rfl hne
    · next hsid =>
        obtain ⟨info, howner⟩ := ho.owner sid' hne
        refine ⟨info, ?_, howner.named, howner.normal, ?_⟩
        · rw [deleteChatConversationData, ObjMap.get?_delete, if_neg hsid]
          exact howner.entry
        · rw [getChatHistoryItems_delete, if_neg hsid]
          exact howner.wrote
  bound := (ObjMap.length_keys_deleteIf_le _ _).trans ho.bound

/-- A row in the list of a named identity is a conversation of its own. -/
theorem Owned.listed {st : ChatStore} (ho : Owned ops st) {key : JsStr}
    (hguest : wantedKey ops key ≠ guest) {row : Row}
    (hrow : row ∈ st.collectConversationRowsForIdentity ops key) :
    ∀ it ∈ st.getChatHistoryItems row.sessionId, it.writer = wantedKey ops key := by
  have hmem := (List.mem_insertionSort _).mp (List.mem_of_mem_take hrow)
  obtain ⟨sid, -, hsid⟩ := List.mem_filterMap.mp hmem
  rw [rowFor] at hsid
  dsimp only at hsid
  split at hsid
  · next hlisted =>
      injection hsid with hsid
      subst hsid
      rw [Bool.and_eq_true, List.any_eq_true] at hlisted
      obtain ⟨hvisible, it, hit, -⟩ := hlisted
      obtain ⟨info, howner⟩ := ho.owner sid (List.ne_nil_of_mem hit)
      rw [howner.entry, Option.map_some, Option.getD_some, howner.normal, visibleTo,
        if_pos hguest] at hvisible
      have hkey : info.identityKey = wantedKey ops key := by
        simpa [howner.named] using hvisible
      rw [← hkey]
      exact howner.wrote
  · cases hsid

end Store

/-! ## Runs -/

section Runs

variable (ops : TextOps)

/-- Every message in a conversation that is listed for a named identity was
written under it. -/
def ChatPrivate (ls : List Label) : Prop :=
  ∀ c ∈ run (Chat.step ops) .init ls, ∀ key, wantedKey ops key ≠ guest →
    ∀ row ∈ c.store.collectConversationRowsForIdentity ops key,
      ∀ it ∈ c.store.getChatHistoryItems row.sessionId, it.writer = wantedKey ops key

/-- An answer is stored only where its identity may store it. -/
def StoresOwn (c : Chat) : Label → Prop
  | .sendDone i .. => ∀ s ∈ c.sends[i]?, ∀ key ∈ s.identityKey, MayStore ops c.store s.sid key
  | _ => True

variable {ops}

theorem Owned.init : Owned ops Chat.init.store where
  owner _ hne := absurd rfl hne
  bound := Nat.zero_le _

theorem Owned.step (hops : ∀ k, normalizeIdentityKey ops (normalizeIdentityKey ops k) =
      normalizeIdentityKey ops k) {c c' : Chat} {l : Label} (ho : Owned ops c.store)
    (hown : StoresOwn ops c l) (hstep : c.step ops l = some c') : Owned ops c'.store := by
  cases l with
  | sendDone i answer userInfo answerInfo now now' =>
      simp only [Chat.step] at hstep
      split at hstep
      · next _ question key hs =>
          split at hstep
          · cases hstep
          · injection hstep with hstep
            rw [← hstep]
            have hmay := hown _ hs key rfl
            obtain ⟨ho₁, hmay₁⟩ := ho.push hops hmay ⟨.user, question, userInfo, _⟩ rfl
              question now
            exact (ho₁.push hops hmay₁ _ rfl question now').1
      · cases hstep
  | deleteConversation sid =>
      injection hstep with hstep
      rw [← hstep]
      exact ho.delete sid
  | login | logout | switchSession | newConversation =>
      injection hstep with hstep
      rw [← hstep]
      exact ho
  | sendStart question fresh =>
      simp only [Chat.step] at hstep
      split at hstep
      · cases hstep
      · injection hstep with hstep
        rw [← hstep]
        exact ho
  | sendProfile i =>
      simp only [Chat.step] at hstep
      split at hstep
      · split at hstep <;>
          · injection hstep with hstep
            rw [← hstep]
            exact ho
      · cases hstep
  | sendFailed i =>
      simp only [Chat.step, Option.map_eq_some_iff] at hstep
      obtain ⟨_, -, rfl⟩ := hstep
      exact ho

/-- The chat history is private in every run in which each answer is stored in a
conversation that is empty or of the same identity, with room for its entry. -/
theorem chat_private (ops : TextOps) (hops : ∀ k,
      normalizeIdentityKey ops (normalizeIdentityKey ops k) = normalizeIdentityKey ops k)
    (ls : List Label) (hown : Guarded (Chat.step ops) (StoresOwn ops) .init ls) :
    ChatPrivate ops ls := by
  intro c hrun key hguest row hrow
  have ho : Owned ops c.store :=
    run_guarded (I := fun c : Chat => Owned ops c.store)
      (fun c l c' ho hown hs => Owned.step hops ho hown hs) Owned.init hown hrun
  exact ho.listed hguest hrow

instance (ops : TextOps) (st : ChatStore) (sid : Sid) (key : JsStr) :
    Decidable (MayStore ops st sid key) :=
  have : Decidable (OwnedOrEmpty st sid (normalizeIdentityKey ops key)) :=
    inferInstanceAs (Decidable (_ ∨ _))
  have : Decidable (HasRoom st sid) := inferInstanceAs (Decidable (_ ∨ _))
  decidable_of_iff (key ≠ [] ∧ normalizeIdentityKey ops key ≠ [] ∧
      OwnedOrEmpty st sid (normalizeIdentityKey ops key) ∧ HasRoom st sid)
    ⟨fun h => ⟨h.1, h.2.1, h.2.2.1, h.2.2.2⟩, fun h => ⟨h.given, h.named, h.owned, h.room⟩⟩

instance (ops : TextOps) (c : Chat) : (l : Label) → Decidable (StoresOwn ops c l)
  | .sendDone i .. => inferInstanceAs (Decidable (∀ s ∈ c.sends[i]?, ∀ key ∈ s.identityKey, _))
  | .login _ | .logout | .sendStart _ _ | .sendProfile _ | .sendFailed _ | .switchSession _
  | .newConversation _ | .deleteConversation .. => isTrue trivial

/-- The string functions on texts that are in lower case. -/
def lowerCaseOps : TextOps where
  toLowerCase := id
  localeCompare a b := if a < b then -1 else if b < a then 1 else 0

theorem normalize_lowerCase (k : JsStr) : normalizeIdentityKey lowerCaseOps
    (normalizeIdentityKey lowerCaseOps k) = normalizeIdentityKey lowerCaseOps k :=
  jsTrim_jsTrim k

/-- Somebody signs in, asks a question and gets an answer. -/
def asks (email question answer : String) (fresh : String) : List Label :=
  [.login ⟨jsText email, [], [], []⟩, .sendStart (jsText question) (jsText fresh), .sendProfile 0,
    .sendDone 0 (jsText answer) [] [] 1 1]

theorem chat_private_apart : ChatPrivate lowerCaseOps (asks "ann" "hi" "yo" "sess_1" ++
    [.logout, .newConversation (jsText "sess_2")] ++ asks "bob" "me" "ok" "sess_3") :=
  chat_private lowerCaseOps normalize_lowerCase _ (by decide)

/-- The conversation stays open when the account changes, and the next question
in it makes all of it the other's. -/
theorem chat_changes_hands : ¬ ChatPrivate lowerCaseOps
    (asks "ann" "hi" "yo" "sess_1" ++ [.logout] ++ asks "bob" "me" "ok" "sess_3") := by
  intro h
  have hbob := fun c hc => h c hc (jsText "email:bob") (by decide)
  exact absurd hbob (by decide)

end Runs

end VTranser.Panel

import VTranser.Lib.Window
import VTranser.Proofs.Chat

/-!
# What is kept of a conversation

A question is stored with its answer when the answer has come, and not at all when none
comes. Two messages go in and two go out, so what is stored of a conversation is always
made of whole exchanges, the last ones since it was deleted.
-/

namespace VTranser.Panel

open Run ChatStore Window

/-- A question and its answer. -/
structure Exchange where
  question : JsStr
  answer : JsStr
  deriving DecidableEq, Repr

/-- The two messages of an exchange. -/
def Exchange.messages (e : Exchange) : List (Who × JsStr) :=
  [(.user, e.question), (.assistant, e.answer)]

/-- The exchanges of each conversation after a step. -/
def exchangesAfter (c : Chat) (log : Sid → List Exchange) : Label → Sid → List Exchange
  | .sendDone i answer .. =>
      match c.sends[i]? with
      | some s => Function.update log s.sid (log s.sid ++ [⟨s.question, jsTrim answer⟩])
      | none => log
  | .deleteConversation sid .. => Function.update log sid []
  | _ => log

/-- The exchanges of each conversation that a run completes, since it was last deleted. -/
def exchanges (ops : TextOps) : Chat → (Sid → List Exchange) → List Label → Sid → List Exchange
  | _, log, [] => log
  | c, log, l :: ls =>
      match c.step ops l with
      | some c' => exchanges ops c' (exchangesAfter c log l) ls
      | none => log

/-- How many exchanges are kept. -/
def exchangesKept : Nat := chatHistoryMax / 2

/-- The messages of a conversation, as they are read. -/
def messagesOf (st : ChatStore) (sid : Sid) : List (Who × JsStr) :=
  (st.getChatHistoryItems sid).map fun it => (it.who, it.text)

section Store

variable {ops : TextOps} {st : ChatStore}

theorem messagesOf_push {item : ChatItem} (htext : jsTrim item.text ≠ []) (sid sid' : Sid)
    (key titleHint : JsStr) (now : Int) :
    messagesOf (st.pushChatHistoryItem ops item sid key titleHint now) sid' =
      if sid' = sid then
        (messagesOf st sid ++ [(item.who, jsTrim item.text)]).rtake chatHistoryMax
      else messagesOf st sid' := by
  rw [pushChatHistoryItem]
  dsimp only
  rw [if_neg (by simpa using htext), touchChatSessionMetaFromItems, messagesOf,
    getChatHistoryItems_upsert, getChatHistoryItems_save]
  split
  · -- What is stored has a text already.
    have hkeep : ∀ items : List ChatItem, (∀ it ∈ items, jsTrim it.text ≠ []) →
        items.filter (fun it => !(jsTrim it.text).isEmpty) = items := fun items h =>
      List.filter_eq_self.mpr fun it hit => by simpa using h it hit
    rw [hkeep]
    · rw [List.map_drop, messagesOf, List.rtake, List.map_append, List.length_append,
        List.length_append, List.length_map]
      rfl
    · intro it hit
      rcases List.mem_append.mp (List.mem_of_mem_drop hit) with hit | hit
      · simpa using (List.mem_filter.mp hit).2
      · rw [List.mem_singleton.mp hit]
        rw [jsTrim_jsTrim]
        exact htext
  · rfl

/-- Both messages of an answered question. -/
theorem messagesOf_storeAnswer {s : Send} {answer : JsStr} (hquestion : jsTrim s.question ≠ [])
    (hanswer : jsTrim answer ≠ []) (sid' : Sid) (identityKey userInfo answerInfo : JsStr)
    (now now' : Int) :
    messagesOf (Chat.storeAnswer ops s identityKey answer userInfo answerInfo now now' st) sid' =
      if sid' = s.sid then
        (messagesOf st s.sid ++ [(Who.user, jsTrim s.question), (Who.assistant, jsTrim answer)]).rtake
          chatHistoryMax
      else messagesOf st sid' := by
  rw [Chat.storeAnswer, messagesOf_push hanswer]
  split
  · rw [messagesOf_push hquestion, if_pos rfl, rtake_append_rtake, List.append_assoc]
    rfl
  · next hsid => rw [messagesOf_push hquestion, if_neg hsid]

theorem messagesOf_delete (sid sid' : Sid) :
    messagesOf (st.deleteChatConversationData sid) sid' =
      if sid' = sid then [] else messagesOf st sid' := by
  rw [messagesOf, getChatHistoryItems_delete]
  split <;> rfl

end Store

namespace Chat

variable {ops : TextOps} {c c' : Chat} {log : Sid → List Exchange}

/-- What is stored are the last exchanges, and no question under way is blank. -/
structure Windowed (c : Chat) (log : Sid → List Exchange) : Prop where
  stored : ∀ sid, messagesOf c.store sid = ((log sid).rtake exchangesKept).flatMap Exchange.messages
  asked : ∀ s ∈ c.sends, jsTrim s.question = s.question ∧ s.question ≠ []

theorem Windowed.step (h : Windowed c log) {l : Label} (hstep : c.step ops l = some c') :
    Windowed c' (exchangesAfter c log l) := by
  cases l with
  | login profile | logout | switchSession sid | newConversation fresh =>
      cases hstep
      exact ⟨h.stored, h.asked⟩
  | sendStart question fresh =>
      rw [Chat.step] at hstep
      split at hstep
      · cases hstep
      · next hblank =>
          cases hstep
          refine ⟨h.stored, fun s hs => ?_⟩
          rcases List.mem_append.mp hs with hs | hs
          · exact h.asked s hs
          · rw [List.mem_singleton.mp hs]
            exact ⟨jsTrim_jsTrim question, by simpa using hblank⟩
  | sendProfile i =>
      rw [Chat.step] at hstep
      split at hstep
      · next sid question hi =>
          have hasked := h.asked _ (List.mem_of_getElem? hi)
          split at hstep
          · cases hstep
            refine ⟨h.stored, fun s hs => ?_⟩
            rcases List.mem_or_eq_of_mem_set hs with hs | rfl
            · exact h.asked s hs
            · exact hasked
          · cases hstep
            exact ⟨h.stored, fun s hs => h.asked s (List.mem_of_mem_eraseIdx hs)⟩
      · cases hstep
  | sendDone i answer userInfo answerInfo now now' =>
      rw [Chat.step] at hstep
      split at hstep
      · next sid question identityKey hi =>
          split at hstep
          · cases hstep
          · next hblank =>
              cases hstep
              have hasked := h.asked _ (List.mem_of_getElem? hi)
              have hanswer : jsTrim (jsTrim answer) ≠ [] := by
                rw [jsTrim_jsTrim]
                simpa using hblank
              refine ⟨fun sid' => ?_, fun s hs => h.asked s (List.mem_of_mem_eraseIdx hs)⟩
              rw [messagesOf_storeAnswer (by rw [hasked.1]; exact hasked.2) hanswer, exchangesAfter,
                hi, jsTrim_jsTrim, hasked.1]
              dsimp only
              by_cases hsid : sid' = sid
              · subst hsid
                have hpair : ∀ e : Exchange, e.messages.length = 2 := fun _ => rfl
                have hkept : 2 * exchangesKept = chatHistoryMax := by decide
                have hwindow : ∀ es : List Exchange, (es.rtake exchangesKept).flatMap
                    Exchange.messages = (es.flatMap Exchange.messages).rtake chatHistoryMax :=
                  fun es => by rw [← hkept, rtake_flatMap hpair]
                rw [if_pos rfl, Function.update_self, h.stored, hwindow, hwindow,
                  List.flatMap_append, List.flatMap_singleton, rtake_append_rtake]
                rfl
              · rw [if_neg hsid, Function.update_of_ne hsid]
                exact h.stored sid'
      · cases hstep
  | sendFailed i =>
      rw [Chat.step] at hstep
      obtain ⟨s, -, rfl⟩ := Option.map_eq_some_iff.mp hstep
      exact ⟨h.stored, fun s hs => h.asked s (List.mem_of_mem_eraseIdx hs)⟩
  | deleteConversation sid identityKey fresh =>
      cases hstep
      refine ⟨fun sid' => ?_, h.asked⟩
      show messagesOf (c.store.deleteChatConversationData sid) sid' = _
      rw [messagesOf_delete, exchangesAfter]
      by_cases hsid : sid' = sid
      · rw [if_pos hsid, hsid, Function.update_self]
        rfl
      · rw [if_neg hsid, Function.update_of_ne hsid]
        exact h.stored sid'

theorem Windowed.run {ls : List Label} : ∀ {c c' : Chat} {log : Sid → List Exchange},
    Windowed c log → Run.run (Chat.step ops) c ls = some c' →
      Windowed c' (exchanges ops c log ls) := by
  induction ls with
  | nil =>
      intro c c' log h hrun
      cases hrun
      exact h
  | cons l ls ih =>
      intro c c' log h hrun
      obtain ⟨c₁, h₁, h₂⟩ := run_cons_some.mp hrun
      rw [exchanges, h₁]
      exact ih (h.step h₁) h₂

/-- In every run of the chat, whatever questions are under way at a time, in whatever
conversations and under whatever identities: what is stored of a conversation are the
last sixty exchanges that were completed in it since it was deleted, each question
right before its answer, in the order in which the answers came. -/
theorem chat_window {ls : List Label} (h : Run.run (Chat.step ops) Chat.init ls = some c)
    (sid : Sid) :
    (c.store.getChatHistoryItems sid).map (fun it => (it.who, it.text)) =
      ((exchanges ops Chat.init (fun _ => []) ls sid).rtake 60).flatMap Exchange.messages := by
  have hinit : Windowed Chat.init fun _ => [] := ⟨fun _ => rfl, nofun⟩
  exact (hinit.run h).stored sid

/-- Two questions are under way together, and the later one is answered first. -/
theorem chat_window_crossed :
    let ls := asks "ann" "hi" "yo" "s" ++
      [.sendStart (jsText "a") [], .sendStart (jsText "b") [], .sendProfile 0, .sendProfile 1,
        .sendDone 1 (jsText "B") [] [] 2 2, .sendDone 0 (jsText "A") [] [] 3 3]
    ∃ c, Run.run (Chat.step lowerCaseOps) Chat.init ls = some c ∧
      (c.store.getChatHistoryItems (jsText "s")).map (fun it => (it.who, it.text)) =
        [(.user, jsText "hi"), (.assistant, jsText "yo"), (.user, jsText "b"),
          (.assistant, jsText "B"), (.user, jsText "a"), (.assistant, jsText "A")] := by
  intro ls
  exact ⟨_, rfl, (@chat_window lowerCaseOps _ ls rfl (jsText "s")).trans (by decide +kernel)⟩

end Chat

end VTranser.Panel

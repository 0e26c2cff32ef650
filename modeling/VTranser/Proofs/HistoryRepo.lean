import VTranser.Worker.HistoryRepo

/-!
# When a deletion is all or nothing

No deletion is asked for before the database has said whose the session is. But what
was taken away is not put back: the chunks are gone when the session still cannot be
deleted after them, and so they are when the answer to a deletion is lost that was
carried out.
-/

namespace VTranser.HistoryRepo

/-- The answers to a step, the last of which counts. -/
def tries (server : Server) (token : JsStr) (s : Step) : List (Bool × Reply) :=
  let first := server s (!token.isEmpty)
  if first.isOk || token.isEmpty then [(!token.isEmpty, first)]
  else [(true, first), (false, server s false)]

/-- The answer that counts. -/
def settledReply (server : Server) (token : JsStr) (s : Step) : Reply :=
  let first := server s (!token.isEmpty)
  if first.isOk || token.isEmpty then first else server s false

/-- The chunk rows that a step took away, with all its tries. -/
def taken (server : Server) (token : JsStr) (s : Step) : Nat :=
  ((tries server token s).map fun t => t.2.removed).sum

def Request.isDelete : Request → Bool
  | .selectSession .. => false
  | .deleteSession .. | .deleteChunks _ => true

/-- The chunk rows that the deletions among the requests took away. -/
def removedBy (log : List Exchange) : Nat :=
  ((log.filter fun e => e.request.isDelete).map fun e => e.reply.removed).sum

/-- The chunks of a session are asked to be deleted only behind an answer that it is
the user's. -/
def ConfirmedFirst (uid : JsStr) (log : List Exchange) : Prop :=
  ∀ pre (e : Exchange) post sid, log = pre ++ e :: post → e.request = .deleteChunks sid →
    ∃ c ∈ pre, c.request = .selectSession uid sid ∧ ∃ n, c.reply = .ok true n

/-- What fails took no chunk away, and no chunks were asked for that are not known to be
the user's. -/
def AllOrNothing (uid : JsStr) (result : Outcome × List Exchange) : Prop :=
  (result.1 = .threw ∨ result.1 = .returned false → removedBy result.2 = 0) ∧
    ConfirmedFirst uid result.2

/-- How the deletions must be answered: the session goes, with or without its chunks
first, or none of the requests that were made took chunk rows away. -/
def Finishes (cfg : Config) (server : Server) (token : JsStr) : Prop :=
  let conflict := likelyFkConflict cfg (settledReply server token .session)
  let gone s := (settledReply server token s).isOk
  gone .session ∨ (conflict ∧ gone .chunks ∧ gone .sessionAgain) ∨
    (taken server token .session = 0 ∧
      (conflict → taken server token .chunks = 0 ∧
        (gone .chunks → taken server token .sessionAgain = 0)))

variable {cfg : Config} {server : Server} {token : JsStr}

theorem withFallback_eq (s : Step) (request : Request) :
    withFallback server token s request =
      (settledReply server token s,
        (tries server token s).map fun t => ⟨request, t.1, t.2⟩) := by
  simp only [withFallback, settledReply, tries]
  split
  · simp
  · next h =>
      have htoken : token.isEmpty = false := by
        by_contra hne
        exact h (by simp [hne])
      simp [htoken]

theorem removedBy_append (log log' : List Exchange) :
    removedBy (log ++ log') = removedBy log + removedBy log' := by
  simp [removedBy]

theorem removedBy_tries {request : Request} (h : request.isDelete = true) (s : Step) :
    removedBy ((tries server token s).map fun t => ⟨request, t.1, t.2⟩) =
      taken server token s := by
  rw [removedBy, List.filter_eq_self.mpr, List.map_map]
  · rfl
  · intro e he
    obtain ⟨t, -, rfl⟩ := List.mem_map.mp he
    exact h

theorem removedBy_confirm (uid : JsStr) (sid : Int) (s : Step) :
    removedBy ((tries server token s).map fun t => ⟨.selectSession uid sid, t.1, t.2⟩) = 0 := by
  rw [removedBy, List.filter_eq_nil_iff.mpr]
  · rfl
  · intro e he
    obtain ⟨t, -, rfl⟩ := List.mem_map.mp he
    exact Bool.false_ne_true

/-- The deletions leave the chunks, or take the session away, if and only if they are
answered so. -/
theorem deleteConfirmed_iff (uid : JsStr) (sid : Int) :
    let result := deleteConfirmed cfg server token uid sid
    (result.1 = .threw ∨ result.1 = .returned false → removedBy result.2 = 0) ↔
      Finishes cfg server token := by
  have hsession := @removedBy_tries server token (.deleteSession uid sid) rfl
  have hchunks := @removedBy_tries server token (.deleteChunks sid) rfl
  simp only [deleteConfirmed, fetchDelete, withFallback_eq, Finishes]
  split
  · next h => simp [h]
  · next hfailed =>
      split
      · next hother =>
          simp only [Bool.not_eq_true'] at hother
          simp [hfailed, hother, hsession]
      · next hconflict =>
          simp only [Bool.not_eq_true', Bool.not_eq_false] at hconflict
          split
          · next hkept =>
              simp only [Bool.not_eq_true'] at hkept
              simp [hfailed, hconflict, hkept, removedBy_append, hsession, hchunks]
          · next hgone =>
              simp only [Bool.not_eq_true', Bool.not_eq_false] at hgone
              by_cases hagain : (settledReply server token .sessionAgain).isOk = true
              · simp [hconflict, hgone, hagain]
              · simp [hfailed, hconflict, hgone, hagain, removedBy_append, hsession, hchunks]

/-- No request is about the chunks of another session. -/
theorem mem_deleteConfirmed {uid : JsStr} {sid sid' : Int} {e : Exchange}
    (he : e ∈ (deleteConfirmed cfg server token uid sid).2)
    (hchunks : e.request = .deleteChunks sid') : sid' = sid := by
  have hsession : ∀ s, e ∈ (fetchDelete server token s (.deleteSession uid sid)).2 → False := by
    intro s he
    rw [fetchDelete, withFallback_eq] at he
    obtain ⟨t, -, rfl⟩ := List.mem_map.mp he
    cases hchunks
  have hown : e ∈ (fetchDelete server token .chunks (.deleteChunks sid)).2 → sid' = sid := by
    intro he
    rw [fetchDelete, withFallback_eq] at he
    obtain ⟨t, -, rfl⟩ := List.mem_map.mp he
    exact (Request.deleteChunks.inj hchunks).symm
  simp only [deleteConfirmed] at he
  split at he
  · exact (hsession _ he).elim
  split at he
  · exact (hsession _ he).elim
  split at he
  · exact (List.mem_append.mp he).elim (fun he => (hsession _ he).elim) hown
  · rcases List.mem_append.mp he with he | he
    · exact (List.mem_append.mp he).elim (fun he => (hsession _ he).elim) hown
    · exact (hsession _ he).elim

/-- The query whose the session is asks for no chunks, and its last answer counts. -/
theorem mem_tries {s : Step} {n : Nat} (h : settledReply server token s = .ok true n) :
    ∃ t ∈ tries server token s, t.2 = .ok true n := by
  simp only [settledReply] at h
  simp only [tries]
  split at h
  · next hlast =>
      rw [if_pos hlast]
      exact ⟨_, List.mem_singleton_self _, h⟩
  · next hlast =>
      rw [if_neg hlast]
      exact ⟨_, List.mem_cons_of_mem _ (List.mem_singleton_self _), h⟩

theorem confirmedFirst_append {uid : JsStr} {sid : Int} {n : Nat}
    (hfound : settledReply server token .confirm = .ok true n) {deletions : List Exchange}
    (hown : ∀ e ∈ deletions, ∀ sid', e.request = .deleteChunks sid' → sid' = sid) :
    ConfirmedFirst uid ((tries server token .confirm).map
      (fun t => ⟨.selectSession uid sid, t.1, t.2⟩) ++ deletions) := by
  intro pre e post sid' heq hchunks
  obtain ⟨t, ht, hreply⟩ := mem_tries hfound
  rcases List.append_eq_append_iff.mp heq with ⟨mid, rfl, hdel⟩ | ⟨mid, hlog, hpost⟩
  · -- The query is answered before the deletions begin.
    have hsid := hown e (by rw [hdel]; simp) sid' hchunks
    refine ⟨_, List.mem_append_left _ (List.mem_map_of_mem ht), ?_, n, hreply⟩
    rw [hsid]
  · cases mid with
    | nil =>
        rw [List.nil_append] at hpost
        have hsid := hown e (by rw [← hpost]; simp) sid' hchunks
        rw [List.append_nil] at hlog
        refine ⟨_, hlog ▸ List.mem_map_of_mem ht, ?_, n, hreply⟩
        rw [hsid]
    | cons c mid =>
        obtain ⟨rfl, -⟩ := List.cons.inj hpost
        have hmem : e ∈ (tries server token .confirm).map
            fun t => (⟨.selectSession uid sid, t.1, t.2⟩ : Exchange) := by
          rw [hlog]
          simp
        obtain ⟨t', -, rfl⟩ := List.mem_map.mp hmem
        cases hchunks

theorem confirmedFirst_confirm (uid : JsStr) (sid : Int) :
    ConfirmedFirst uid ((tries server token .confirm).map
      fun t => ⟨.selectSession uid sid, t.1, t.2⟩) := by
  intro pre e post sid' heq hchunks
  have hmem : e ∈ (tries server token .confirm).map
      fun t => (⟨.selectSession uid sid, t.1, t.2⟩ : Exchange) := by
    rw [heq]
    simp
  obtain ⟨t, -, rfl⟩ := List.mem_map.mp hmem
  cases hchunks

/-- The chunks of a session that is not known to be the user's are never asked to be
deleted; and no chunk is lost in a deletion that fails if and only if the deletions that
follow the answer that it is the user's are answered so that it finishes. -/
theorem deleteTranscriptSession_iff (cfg : Config) (server : Server) (userId : JsStr) (sid : Int)
    (authToken : JsStr) :
    AllOrNothing (Auth.parseNumericId userId)
        (deleteTranscriptSessionForUser cfg server userId sid authToken) ↔
      (Auth.parseNumericId userId ≠ [] → sid ≠ 0 →
        (∃ n, settledReply server (jsTrim authToken) .confirm = .ok true n) →
          Finishes cfg server (jsTrim authToken)) := by
  simp only [deleteTranscriptSessionForUser, fetchJsonWithAuthFallback, withFallback_eq]
  split
  · next hids =>
      refine iff_of_true ⟨fun _ => rfl, fun pre e post sid' heq => ?_⟩ ?_
      · cases pre <;> cases heq
      · rw [Bool.or_eq_true, List.isEmpty_iff, beq_iff_eq] at hids
        exact fun huid hsid => (hids.elim huid hsid).elim
  · next hids =>
      rw [Bool.or_eq_true, List.isEmpty_iff, beq_iff_eq, not_or] at hids
      have hconfirm := fun uid => @removedBy_confirm server (jsTrim authToken) uid sid .confirm
      split
      · next found n hreply =>
          split
          · next hnone =>
              have hfound : found = false := by simpa using hnone
              refine iff_of_true ⟨fun _ => hconfirm _, confirmedFirst_confirm _ _⟩ ?_
              rintro - - ⟨m, hm⟩
              rw [hreply, hfound] at hm
              cases hm
          · next hsome =>
              have hfound : found = true := by simpa using hsome
              rw [hfound] at hreply
              have hdel := @deleteConfirmed_iff cfg server (jsTrim authToken)
                (Auth.parseNumericId userId) sid
              have hfirst : ConfirmedFirst (Auth.parseNumericId userId) _ :=
                confirmedFirst_append hreply fun e he sid' =>
                  @mem_deleteConfirmed cfg server (jsTrim authToken)
                    (Auth.parseNumericId userId) sid sid' e he
              rw [AllOrNothing, removedBy_append, hconfirm, Nat.zero_add]
              constructor
              · rintro ⟨hnone, -⟩ - - -
                exact hdel.mp hnone
              · intro h
                exact ⟨hdel.mpr (h hids.1 hids.2 ⟨n, hreply⟩), hfirst⟩
      · next hfailed =>
          refine iff_of_true ⟨fun _ => hconfirm _, confirmedFirst_confirm _ _⟩ ?_
          rintro - - ⟨n, hn⟩
          exact (hfailed _ _ hn).elim

/-- A deletion that the database refuses by its policy takes the chunks away. -/
theorem not_deleteTranscriptSession :
    ¬ ∀ (cfg : Config) (server : Server) (userId : JsStr) (sid : Int) (authToken : JsStr),
      AllOrNothing (Auth.parseNumericId userId)
        (deleteTranscriptSessionForUser cfg server userId sid authToken) := by
  intro h
  have hlost := (h ⟨id, fun _ => none⟩ (fun s _ => match s with
    | .confirm => .ok true 0
    | .session | .sessionAgain =>
        .error 403 (jsText "new row violates row-level security policy")
    | .chunks => .ok false 5) (jsText "7") 1 []).1
  revert hlost
  decide +kernel

end VTranser.HistoryRepo

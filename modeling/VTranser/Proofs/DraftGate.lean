import VTranser.Proofs.Lag
import VTranser.Translator.Draft

/-!
# Which drafts pass the gate

Every draft request and every invalidation raises a counter, and a translation is shown only
if the counter still stands at its request's number. Between two resets that is exact:
the counter only goes up, so equal numbers mean that nothing has come since.

A reset sets the counter back to zero, and its own invalidation makes it one. The translation
in flight is not stopped. When the counter reaches its number once more, it is shown,
over whatever the reset made room for. So the gate is right as long as no reset
lies between a request and the translation whose number agrees
(`drafts_current_iff`).
-/

namespace VTranser.Translator

open Run Handler

variable {σ : Type}

/-! ## Requests and what comes after them -/

section Requests

/-- How many resets there were, and how many events that make earlier drafts stale: draft
requests, invalidations, baselines and resets. -/
structure Stamp where
  resets : Nat
  events : Nat
  deriving DecidableEq, Repr

/-- A connection, the stamps of now, of the request in the queue and of the one in
translation, and for each draft that was shown when it was requested and when sent. -/
structure Gated (σ : Type) where
  handler : Handler σ
  now : Stamp
  queued : Stamp
  inFlight : Stamp
  shown : List (Stamp × Stamp)

def Out.showsDraft : Out → Bool
  | .viDraft text .. => !text.isEmpty
  | .viCommit .. | .viDelta .. => false

namespace Handler.Label

def isReset : Label → Bool
  | .receive msg _ => msg.mtype == .reset
  | _ => false

def isBaseline : Label → Bool
  | .receive msg _ => msg.mtype == .baseline
  | _ => false

/-- A step of the draft worker. -/
def isDraft : Label → Bool
  | .draftTake | .draftTranslated _ | .draftFailed | .draftResume => true
  | _ => false

end Handler.Label

/-- A reset, a baseline, or a bump of the counter. -/
def supersedes (h : Handler σ) (l : Label) (h' : Handler σ) : Bool :=
  l.isReset || l.isBaseline || decide (h'.stream.draftReqId ≠ h.stream.draftReqId)

/-- The drafts with a text that a step sent. -/
def newDrafts (h h' : Handler σ) : List SentOut :=
  (h'.sent.drop h.sent.length).filter fun o => o.out.showsDraft

namespace Gated

def init (seg : σ) : Gated σ := ⟨.init seg, ⟨0, 0⟩, ⟨0, 0⟩, ⟨0, 0⟩, []⟩

/-- The stamp of the request in translation after a step. -/
def nextInFlight (w : Gated σ) : Label → Stamp
  | .draftTake => w.queued
  | _ => w.inFlight

def step (cfg : HandlerConfig σ) (w : Gated σ) (l : Label) : Option (Gated σ) :=
  (Handler.step cfg w.handler l).map fun h =>
    let now : Stamp := {
      resets := w.now.resets + if l.isReset then 1 else 0
      events := w.now.events + if supersedes w.handler l h then 1 else 0 }
    { handler := h
      now
      queued := if h.draftQueue = w.handler.draftQueue then w.queued else now
      inFlight := w.nextInFlight l
      shown := w.shown ++ (newDrafts w.handler h).map fun _ => (w.inFlight, now) }

/-- Every draft was shown before anything came after its request. -/
def Current (w : Gated σ) : Prop := ∀ p ∈ w.shown, p.1.events = p.2.events

instance (w : Gated σ) : Decidable w.Current :=
  inferInstanceAs (Decidable (∀ p ∈ w.shown, p.1.events = p.2.events))

end Gated

/-- The request in translation. -/
def inHand : DraftWorker → Option DraftItem
  | .translating item => some item
  | .idle | .sending => none

/-- When a translation comes back whose number the counter stands at, there was no
reset since its request. -/
def NoResetSince (w : Gated σ) : Label → Prop
  | .draftTranslated vi => vi ≠ [] → ∀ item ∈ inHand w.handler.draftWorker,
      item.reqId = w.handler.stream.draftReqId → w.inFlight.resets = w.now.resets
  | _ => True

instance (w : Gated σ) : ∀ l, Decidable (NoResetSince w l)
  | .draftTranslated _ => inferInstanceAs (Decidable (_ → ∀ _ ∈ _, _ → _ = _))
  | .receive .. | .readerResume _ | .release .. | .releaseResume .. | .commitTake
  | .commitTranslated _ | .commitFailed | .commitResume | .draftTake | .draftFailed
  | .draftResume => isTrue trivial

end Requests

/-! ## What the other coroutines do to drafts -/

section Redrafts

/-- From `h` to `h'` no draft is shown, and either nothing happens to requests or the counter
goes up and the queue holds the latest request, if any. -/
structure Redrafts (h h' : Handler σ) : Prop where
  worker : h'.draftWorker = h.draftWorker
  count : h.stream.draftReqId ≤ h'.stream.draftReqId
  kept : h'.stream.draftReqId = h.stream.draftReqId → h'.draftQueue = h.draftQueue
  latest : h'.stream.draftReqId ≠ h.stream.draftReqId →
    ∀ item ∈ h'.draftQueue, item.reqId = h'.stream.draftReqId
  quiet : ∃ msgs, h'.sent = h.sent ++ msgs ∧ ∀ o ∈ msgs, o.out.showsDraft = false

variable {h h' h'' : Handler σ}

theorem Redrafts.refl (h : Handler σ) : Redrafts h h where
  worker := rfl
  count := Nat.le_refl _
  kept _ := rfl
  latest hne := absurd rfl hne
  quiet := ⟨[], (List.append_nil _).symm, nofun⟩

theorem Redrafts.trans (h₁ : Redrafts h h') (h₂ : Redrafts h' h'') : Redrafts h h'' where
  worker := h₂.worker.trans h₁.worker
  count := Nat.le_trans h₁.count h₂.count
  kept heq := by
    have hle₁ := h₁.count
    have hle₂ := h₂.count
    rw [h₂.kept (by omega), h₁.kept (by omega)]
  latest hne := by
    by_cases hsame : h''.stream.draftReqId = h'.stream.draftReqId
    · rw [h₂.kept hsame, hsame]
      exact h₁.latest fun heq => hne (hsame.trans heq)
    · exact h₂.latest hsame
  quiet := by
    obtain ⟨ms₁, hsent₁, hq₁⟩ := h₁.quiet
    obtain ⟨ms₂, hsent₂, hq₂⟩ := h₂.quiet
    refine ⟨ms₁ ++ ms₂, by rw [hsent₂, hsent₁, List.append_assoc], fun o ho => ?_⟩
    rcases List.mem_append.mp ho with ho | ho
    · exact hq₁ o ho
    · exact hq₂ o ho

/-- A new stream state with the same counter. -/
theorem stream_redrafts (h : Handler σ) {stream : StreamState σ}
    (hreq : stream.draftReqId = h.stream.draftReqId) : Redrafts h { h with stream } :=
  { Redrafts.refl h with
    count := Nat.le_of_eq hreq.symm
    kept := fun _ => rfl
    latest := fun hne => absurd hreq hne }

/-- A message that shows no draft. -/
theorem send_redrafts (textEpoch commitSeq : Nat) (h : Handler σ) {out : Out}
    (hout : out.showsDraft = false) :
    Redrafts h (Handler.send out textEpoch commitSeq h) :=
  { Redrafts.refl h with
    quiet := ⟨[_], rfl, fun o ho => by rw [List.mem_singleton.mp ho]; exact hout⟩ }

variable (cfg : HandlerConfig σ)

theorem sendDraftClear_redrafts (enSeq : Option Int) (reqId : Nat) (h : Handler σ) :
    Redrafts h (sendDraftClear cfg enSeq reqId h).1 := by
  rw [sendDraftClear]
  split
  · refine Redrafts.trans ?_ (send_redrafts _ _ _ rfl)
    exact { Redrafts.refl h with }
  · exact { Redrafts.refl h with }

theorem sendDraftClear_keeps (enSeq : Option Int) (reqId : Nat) (h : Handler σ) :
    (sendDraftClear cfg enSeq reqId h).1.stream.draftReqId = h.stream.draftReqId ∧
      (sendDraftClear cfg enSeq reqId h).1.draftQueue = h.draftQueue := by
  rw [sendDraftClear]
  split <;> exact ⟨rfl, rfl⟩

/-- An invalidation raises the counter and empties the queue. -/
theorem invalidateAndClearDraft_redrafts (enSeq : Option Int) (h : Handler σ) :
    Redrafts h (invalidateAndClearDraft cfg enSeq h).1 ∧
      (invalidateAndClearDraft cfg enSeq h).1.stream.draftReqId = h.stream.draftReqId + 1 ∧
        (invalidateAndClearDraft cfg enSeq h).1.draftQueue = none := by
  have hclear := fun h₁ : Handler σ =>
    sendDraftClear_redrafts cfg enSeq (h.stream.draftReqId + 1) h₁
  have hkeeps := fun h₁ : Handler σ =>
    sendDraftClear_keeps cfg enSeq (h.stream.draftReqId + 1) h₁
  refine ⟨Redrafts.trans ?_ (hclear _), (hkeeps _).1, (hkeeps _).2⟩
  exact { Redrafts.refl h with
    count := Nat.le_succ _
    kept := fun heq => absurd heq (Nat.succ_ne_self _)
    latest := fun _ => nofun }

theorem enqueueAll_redrafts (items : List (Int × PyStr)) (h : Handler σ) :
    Redrafts h (items.foldl (enqueueCommitSegment cfg) h) := by
  obtain ⟨commitQueue, heq⟩ := enqueueAll_frame cfg items h
  rw [heq]
  exact { Redrafts.refl h with }

theorem lagCollectAll_draftReqId (effSeq : Int) (segs : List PyStr) (st : StreamState σ) :
    (segs.foldl (lagCollectCommit cfg effSeq) st).draftReqId = st.draftReqId := by
  induction segs generalizing st with
  | nil => rfl
  | cons seg segs ih =>
      rw [List.foldl_cons, ih, lagCollectCommit_eq]
      dsimp only
      split
      · rfl
      · generalize splitCompleteSentencesText cfg.strict.text _ = out
        split <;> rfl

theorem lagDispatchReady_redrafts (draftEn : PyStr) (effSeq : Int) (force : Bool)
    (h : Handler σ) : Redrafts h (lagDispatchReady cfg draftEn effSeq force h) := by
  rw [lagDispatchReady_eq]
  refine (stream_redrafts h ?_).trans (enqueueAll_redrafts cfg _ _)
  show (lagFlushed cfg effSeq force h.stream).draftReqId = h.stream.draftReqId
  rw [lagFlushed]
  split <;> rfl

/-- A draft is requested with the number that the counter takes. -/
theorem offerDraft_redrafts (draftEn : PyStr) (effSeq wallMs : Int) (h : Handler σ) :
    Redrafts h (offerDraft cfg draftEn effSeq wallMs h) := by
  have hput : ∀ (stream : StreamState σ) (payload : PyStr),
      stream.draftReqId = h.stream.draftReqId + 1 →
        Redrafts h { h with
          stream, draftQueue := some ⟨effSeq, payload, h.stream.draftReqId + 1⟩ } := by
    intro stream payload hreq
    exact { Redrafts.refl h with
      count := by show h.stream.draftReqId ≤ stream.draftReqId; omega
      kept := fun heq => by
        have hsame : stream.draftReqId = h.stream.draftReqId := heq
        omega
      latest := fun _ item hitem => by
        injection hitem with hitem
        rw [← hitem]
        exact hreq.symm }
  simp only [offerDraft]
  split
  · split
    · split
      · exact hput _ _ rfl
      · exact .refl h
    · split
      · exact hput _ _ rfl
      · exact .refl h
  · split
    · exact hput _ _ rfl
    · exact stream_redrafts h rfl

theorem resume_redrafts (wallMs : Int) (k : Cont) (h : Handler σ) :
    Redrafts h (resume cfg wallMs k h) := by
  have hschedule : ∀ (fullNorm : PyStr) (effSeq : Int) (h : Handler σ),
      Redrafts h (scheduleTailRelease fullNorm effSeq h) := fun _ _ h =>
    { Redrafts.refl h with }
  cases k with
  | done => exact .refl h
  | schedule fullNorm effSeq => exact hschedule fullNorm effSeq h
  | lagRest segs draftEn fullNorm effSeq force schedule =>
      have hcollect := stream_redrafts h (lagCollectAll_draftReqId cfg effSeq segs h.stream)
      have hrest := (hcollect.trans (lagDispatchReady_redrafts cfg draftEn effSeq force _)).trans
        (offerDraft_redrafts cfg draftEn effSeq wallMs _)
      simp only [resume]
      split
      · exact hrest.trans (hschedule fullNorm effSeq _)
      · exact hrest

theorem orWait_redrafts (wallMs : Int) (k : Cont) {r : Handler σ × Bool}
    (hr : Redrafts h r.1) : Redrafts h (orWait cfg wallMs k r).1 := by
  rw [orWait]
  split
  · exact hr
  · exact hr.trans (resume_redrafts cfg wallMs k r.1)

theorem strictUpdate_redrafts (fullNorm : PyStr) (effSeq : Int) (force : Bool) (h : Handler σ) :
    Redrafts h (strictUpdate cfg fullNorm effSeq force h) := by
  rw [strictUpdate]
  refine Redrafts.trans ?_ (enqueueAll_redrafts cfg _ _)
  exact { Redrafts.refl h with }

theorem processEnUpdate_redrafts (fullNorm : PyStr) (effSeq : Int) (tMs : Option Int)
    (force schedule : Bool) (wallMs : Int) (h : Handler σ) :
    Redrafts h (Handler.processEnUpdate cfg fullNorm effSeq tMs force schedule wallMs h).1 := by
  rw [Handler.processEnUpdate]
  split
  · have hstrict := strictUpdate_redrafts cfg fullNorm effSeq force h
    simp only
    split
    · exact orWait_redrafts cfg wallMs _
        (hstrict.trans (invalidateAndClearDraft_redrafts cfg (some effSeq) _).1)
    · exact hstrict.trans (resume_redrafts cfg wallMs _ _)
  · generalize cfg.seg.updateStable _ _ _ _ = result
    have hseg : Redrafts h { h with stream := { h.stream with seg := result.1 } } :=
      stream_redrafts h rfl
    dsimp only
    split
    · dsimp only
      exact hseg.trans (resume_redrafts cfg wallMs _ _)
    · exact orWait_redrafts cfg wallMs _
        (hseg.trans (invalidateAndClearDraft_redrafts cfg (some effSeq) _).1)

theorem nextEffectiveEnSeq_draftReqId (seq : Option Int) (st : StreamState σ) :
    (nextEffectiveEnSeq seq st).1.draftReqId = st.draftReqId := by
  cases seq <;> rfl

theorem receiveUpdate_redrafts (msg : InMsg) (clocks : Clocks) (h : Handler σ) :
    Redrafts h (receiveUpdate cfg msg clocks h).1 := by
  rw [receiveUpdate]
  split
  · exact .refl h
  · refine Redrafts.trans (stream_redrafts h ?_) (processEnUpdate_redrafts cfg _ _ _ _ _ _ _)
    exact nextEffectiveEnSeq_draftReqId msg.seq h.stream

/-- A baseline raises the counter. -/
theorem receiveBaseline_redrafts (msg : InMsg) (clocks : Clocks) (h : Handler σ) :
    Redrafts h (receiveBaseline cfg msg clocks h).1 ∧
      h.stream.draftReqId < (receiveBaseline cfg msg clocks h).1.stream.draftReqId := by
  rw [receiveBaseline]
  dsimp only
  generalize hst : nextEffectiveEnSeq msg.seq _ = next
  have hreq : next.1.draftReqId = h.stream.draftReqId := by
    rw [← hst]
    exact nextEffectiveEnSeq_draftReqId msg.seq _
  generalize hh₁ : ({ h with stream := _, epoch := _ } : Handler σ) = h₁
  have hstart : Redrafts h h₁ ∧ h₁.stream.draftReqId = h.stream.draftReqId := by
    rw [← hh₁]
    exact ⟨{ stream_redrafts h hreq with }, hreq⟩
  obtain ⟨hinv, hsucc, -⟩ := invalidateAndClearDraft_redrafts cfg (some next.2) h₁
  have hwait := orWait_redrafts cfg clocks.wallMs (.schedule (normSpaces cfg.strict.text msg.full)
    next.2) (Redrafts.refl (invalidateAndClearDraft cfg (some next.2) h₁).1)
  refine ⟨(hstart.1.trans hinv).trans hwait, ?_⟩
  have hle := hwait.count
  omega

theorem receive_redrafts (msg : InMsg) (clocks : Clocks) (h : Handler σ)
    (hother : msg.mtype ≠ .reset) : Redrafts h (receive cfg msg clocks h).1 ∧
      (msg.mtype = .baseline →
        h.stream.draftReqId < (receive cfg msg clocks h).1.stream.draftReqId) := by
  cases hm : msg.mtype with
  | reset => exact absurd hm hother
  | baseline =>
      obtain ⟨hr, hlt⟩ := receiveBaseline_redrafts cfg msg clocks h
      simp only [receive, hm]
      exact ⟨hr, fun _ => hlt⟩
  | stable | patch =>
      have hr := receiveUpdate_redrafts cfg msg clocks h
      simp only [receive, hm]
      exact ⟨hr, by rintro ⟨⟩⟩
  | other =>
      simp only [receive, hm]
      exact ⟨.refl h, by rintro ⟨⟩⟩

/-- A reset leaves the counter at one and no request. -/
theorem receiveReset_drafts (msg : InMsg) (clocks : Clocks) (h : Handler σ) :
    (receiveReset cfg msg clocks h).1.draftWorker = h.draftWorker ∧
      (receiveReset cfg msg clocks h).1.draftQueue = none ∧
        ∃ msgs, (receiveReset cfg msg clocks h).1.sent = h.sent ++ msgs ∧
          ∀ o ∈ msgs, o.out.showsDraft = false := by
  rw [receiveReset]
  dsimp only
  generalize hh₁ : ({ h with stream := _, epoch := _ } : Handler σ) = h₁
  have hsame : h₁.draftWorker = h.draftWorker ∧ h₁.sent = h.sent := by
    rw [← hh₁]
    exact ⟨rfl, rfl⟩
  obtain ⟨hinv, -, hqueue⟩ := invalidateAndClearDraft_redrafts cfg msg.seq h₁
  have hdone : (orWait cfg clocks.wallMs .done (invalidateAndClearDraft cfg msg.seq h₁)).1 =
      (invalidateAndClearDraft cfg msg.seq h₁).1 := by
    rw [orWait]
    split <;> rfl
  rw [hdone, hinv.worker, hqueue, ← hsame.1, ← hsame.2]
  exact ⟨rfl, rfl, hinv.quiet⟩

theorem release_redrafts (job : Job) (clocks : Clocks) (h : Handler σ) :
    Redrafts h (release cfg job clocks h).1 := by
  rw [release]
  split
  · exact .refl h
  · exact processEnUpdate_redrafts cfg _ _ _ _ _ _ _

theorem emitCommits_redrafts (todo : List (Segment × PyStr)) (h : Handler σ) :
    Redrafts h (emitCommits todo h) := by
  rcases emitCommits_cases todo h with heq | ⟨seg, vi, rest, -, heq⟩
  · rw [heq]
    exact { Redrafts.refl h with }
  · rw [heq, sendCommit]
    refine Redrafts.trans ?_ (send_redrafts _ _ _ rfl)
    exact { Redrafts.refl h with }

theorem commitResume_redrafts (h : Handler σ) : Redrafts h (commitResume cfg h) := by
  rw [commitResume]
  split
  · split
    · refine Redrafts.trans ?_ (send_redrafts _ _ _ rfl)
      exact { Redrafts.refl h with }
    · exact emitCommits_redrafts _ h
  · exact emitCommits_redrafts _ h
  · exact .refl h
  · exact .refl h

end Redrafts

/-! ## Steps -/

section Steps

variable {cfg : HandlerConfig σ} {h h' : Handler σ}

theorem newDrafts_append {msgs : List SentOut} (hsent : h'.sent = h.sent ++ msgs) :
    newDrafts h h' = msgs.filter fun o => o.out.showsDraft := by
  rw [newDrafts, hsent, List.drop_left]

theorem newDrafts_send {h₁ : Handler σ} (out : Out) (textEpoch commitSeq : Nat)
    (hsent : h₁.sent = h.sent) :
    newDrafts h (Handler.send out textEpoch commitSeq h₁) ≠ [] ↔ out.showsDraft = true := by
  have happend : (Handler.send out textEpoch commitSeq h₁).sent =
      h.sent ++ [⟨out, textEpoch, h₁.epoch, commitSeq⟩] := by rw [Handler.send, hsent]
  rw [newDrafts_append happend, List.filter_cons]
  split
  · next hshows => exact ⟨fun _ => hshows, fun _ => List.cons_ne_nil _ _⟩
  · next hnot => exact ⟨fun hne => absurd rfl hne, fun hshows => absurd hshows hnot⟩

theorem newDrafts_quiet (hquiet : ∃ msgs, h'.sent = h.sent ++ msgs ∧
    ∀ o ∈ msgs, o.out.showsDraft = false) : newDrafts h h' = [] := by
  obtain ⟨msgs, hsent, hq⟩ := hquiet
  rw [newDrafts_append hsent, List.filter_eq_nil_iff]
  intro o ho
  simp [hq o ho]

theorem newDrafts_same (hsent : h'.sent = h.sent) : newDrafts h h' = [] := by
  refine newDrafts_quiet ⟨[], ?_, ?_⟩
  · rw [hsent, List.append_nil]
  · simp

/-- All steps but resets and those of the draft worker. -/
theorem step_redrafts {l : Label} (hstep : Handler.step cfg h l = some h')
    (hdraft : l.isDraft = false) (hreset : l.isReset = false) :
    Redrafts h h' ∧ (l.isBaseline = true → h.stream.draftReqId < h'.stream.draftReqId) := by
  cases step_takes hstep with
  | @receive msg clocks _ =>
      have hother : msg.mtype ≠ .reset := by simpa [Label.isReset] using hreset
      obtain ⟨hr, hlt⟩ := receive_redrafts cfg msg clocks h hother
      exact ⟨{ hr with }, fun hb => hlt (by simpa [Label.isBaseline] using hb)⟩
  | @readerResume wallMs k _ =>
      exact ⟨{ resume_redrafts cfg wallMs k { h with reader := none } with }, nofun⟩
  | @release i clocks job _ =>
      exact ⟨{ release_redrafts cfg job clocks { h with jobs := h.jobs.eraseIdx i } with }, nofun⟩
  | @releaseResume i wallMs k _ =>
      exact ⟨{ resume_redrafts cfg wallMs k { h with releases := h.releases.eraseIdx i } with },
        nofun⟩
  | commitTake | commitFailed => exact ⟨{ Redrafts.refl h with }, nofun⟩
  | commitTranslated => exact ⟨emitCommits_redrafts _ h, nofun⟩
  | commitSent | deltaSent => exact ⟨commitResume_redrafts cfg h, nofun⟩
  | draftTake | draftTranslated | draftFailed | draftResume => cases hdraft

/-- A step that shows no draft, keeps the counter, and leaves the queue as it is or empty. -/
structure Idles (h h' : Handler σ) : Prop where
  count : h'.stream.draftReqId = h.stream.draftReqId
  queue : h'.draftQueue = h.draftQueue ∨ h'.draftQueue = none

/-- What the worker takes from the queue is what it translates. -/
theorem draftTake_step (hstep : Handler.step cfg h .draftTake = some h') :
    Idles h h' ∧ newDrafts h h' = [] ∧
      ∀ item ∈ inHand h'.draftWorker, ∃ queued ∈ h.draftQueue, queued.reqId = item.reqId := by
  cases step_takes hstep with
  | @draftTake item hidle hqueue =>
      have hclear := sendDraftClear_redrafts cfg (some item.enSeq) item.reqId
        { h with draftQueue := none }
      have hkeeps := sendDraftClear_keeps cfg (some item.enSeq) item.reqId
        { h with draftQueue := none }
      rw [draftTake]
      dsimp only
      split
      · refine ⟨⟨rfl, .inr rfl⟩, newDrafts_same rfl, ?_⟩
        rw [hidle]
        intro item' hitem'
        cases hitem'
      · split
        · refine ⟨⟨hkeeps.1, .inr hkeeps.2⟩, newDrafts_quiet hclear.quiet, ?_⟩
          intro item' hitem'
          split at hitem' <;> cases hitem'
        · refine ⟨⟨rfl, .inr rfl⟩, newDrafts_same rfl, ?_⟩
          intro item' hitem'
          injection hitem' with hitem'
          exact ⟨item, hqueue, by rw [← hitem']⟩

/-- A translation is shown when there is one and the counter stands at its number. -/
theorem draftTranslated_step {vi : PyStr}
    (hstep : Handler.step cfg h (.draftTranslated vi) = some h') :
    ∃ item, inHand h.draftWorker = some item ∧ Idles h h' ∧ inHand h'.draftWorker = none ∧
      (newDrafts h h' ≠ [] ↔ vi ≠ [] ∧ item.reqId = h.stream.draftReqId) := by
  cases step_takes hstep with
  | @draftTranslated item _ hworker =>
      refine ⟨item, by rw [hworker]; rfl, ?_⟩
      have hclear := sendDraftClear_redrafts cfg (some item.enSeq) item.reqId h
      have hkeeps := sendDraftClear_keeps cfg (some item.enSeq) item.reqId h
      rw [draftTranslated]
      split
      · next hreq =>
          have hnone : newDrafts h { h with draftWorker := .idle } = [] := newDrafts_same rfl
          exact ⟨⟨rfl, .inl rfl⟩, rfl, fun hne => absurd hnone hne, fun hboth => absurd hboth.2 hreq⟩
      · next hreq =>
          split
          · next hvi =>
              refine ⟨⟨hkeeps.1, .inl hkeeps.2⟩, ?_, fun hne => ?_, fun hboth => ?_⟩
              · dsimp only
                split <;> rfl
              · exact absurd (newDrafts_quiet hclear.quiet) hne
              · exact absurd (List.isEmpty_iff.mp hvi) hboth.1
          · next hvi =>
              have hshown : (!vi.isEmpty) = true := by simpa using hvi
              refine ⟨⟨rfl, .inl rfl⟩, rfl, (newDrafts_send _ _ _ rfl).trans ⟨fun _ => ?_, fun _ => hshown⟩⟩
              exact ⟨by simpa using hvi, by simpa using hreq⟩

/-- The worker gives up, or its send is over. -/
theorem draftIdle_step {l : Label} (hl : l = .draftFailed ∨ l = .draftResume)
    (hstep : Handler.step cfg h l = some h') :
    Idles h h' ∧ newDrafts h h' = [] ∧ inHand h'.draftWorker = none := by
  have hidle : Idles h { h with draftWorker := .idle } ∧
      newDrafts h { h with draftWorker := .idle } = [] ∧
        inHand ({ h with draftWorker := .idle } : Handler σ).draftWorker = none :=
    ⟨⟨rfl, .inl rfl⟩, newDrafts_same rfl, rfl⟩
  rcases hl with rfl | rfl
  · cases step_takes hstep with
    | draftFailed => exact hidle
  · cases step_takes hstep with
    | draftResume => exact hidle

theorem draft_idles {l : Label} (hdraft : l.isDraft = true)
    (hstep : Handler.step cfg h l = some h') : Idles h h' := by
  cases l with
  | draftTake => exact (draftTake_step hstep).1
  | draftTranslated vi =>
      obtain ⟨-, -, hi, -⟩ := draftTranslated_step hstep
      exact hi
  | draftFailed => exact (draftIdle_step (.inl rfl) hstep).1
  | draftResume => exact (draftIdle_step (.inr rfl) hstep).1
  | _ => cases hdraft

end Steps

/-! ## Runs -/

section Runs

variable {cfg : HandlerConfig σ} {w w' : Gated σ}

namespace Gated

/-- The request in the queue is the latest. The one in translation is not younger than now,
is of an earlier event if it is of an earlier reset, and otherwise has the number of the
counter only if it is the latest. -/
structure Gate (w : Gated σ) : Prop where
  queued : ∀ item ∈ w.handler.draftQueue,
    item.reqId = w.handler.stream.draftReqId ∧ w.queued = w.now
  past : ∀ item ∈ inHand w.handler.draftWorker,
    w.inFlight.resets ≤ w.now.resets ∧ w.inFlight.events ≤ w.now.events
  same : ∀ item ∈ inHand w.handler.draftWorker, w.inFlight.resets = w.now.resets →
    item.reqId ≤ w.handler.stream.draftReqId ∧
      (item.reqId = w.handler.stream.draftReqId → w.inFlight.events = w.now.events)
  older : ∀ item ∈ inHand w.handler.draftWorker, w.inFlight.resets < w.now.resets →
    w.inFlight.events < w.now.events

theorem Gate.init (seg : σ) : Gate (Gated.init seg) where
  queued := nofun
  past := nofun
  same := nofun
  older := nofun

/-- A step of a coroutine other than the draft worker that is no reset. -/
theorem Gate.redrafts (hg : Gate w) {h' : Handler σ} {events : Nat}
    (hr : Redrafts w.handler h')
    (hevents : events = w.now.events +
      if h'.stream.draftReqId ≠ w.handler.stream.draftReqId then 1 else 0)
    (shown : List (Stamp × Stamp)) :
    Gate ⟨h', ⟨w.now.resets, events⟩,
      if h'.draftQueue = w.handler.draftQueue then w.queued else ⟨w.now.resets, events⟩,
      w.inFlight, shown⟩ := by
  have hcount := hr.count
  by_cases hsame : h'.stream.draftReqId = w.handler.stream.draftReqId
  · -- Nothing was requested or invalidated.
    rw [if_neg (by simpa using hsame), Nat.add_zero] at hevents
    subst hevents
    refine ⟨?_, ?_, ?_, ?_⟩
    · dsimp only
      rw [if_pos (hr.kept hsame), hr.kept hsame, hsame]
      exact hg.queued
    · dsimp only
      rw [hr.worker]
      exact hg.past
    · dsimp only
      rw [hr.worker, hsame]
      exact hg.same
    · dsimp only
      rw [hr.worker]
      exact hg.older
  · rw [if_pos hsame] at hevents
    subst hevents
    refine ⟨?_, ?_, ?_, ?_⟩
    · intro item hitem
      have hlatest := hr.latest hsame item hitem
      refine ⟨hlatest, ?_⟩
      dsimp only
      split
      · next hqueue =>
          rw [hqueue] at hitem
          exact absurd (hlatest.symm.trans (hg.queued item hitem).1) hsame
      · rfl
    · dsimp only
      rw [hr.worker]
      exact fun item hitem => ⟨(hg.past item hitem).1, Nat.le_succ_of_le (hg.past item hitem).2⟩
    · dsimp only
      rw [hr.worker]
      intro item hitem hresets
      have hle := (hg.same item hitem hresets).1
      exact ⟨by omega, fun heq => by omega⟩
    · dsimp only
      rw [hr.worker]
      exact fun item hitem hlt => Nat.lt_succ_of_lt (hg.older item hitem hlt)

/-- A step of the draft worker: the counts stay. -/
theorem Gate.idles (hg : Gate w) {h' : Handler σ} (hi : Idles w.handler h') {inFlight : Stamp}
    (hflight : ∀ item ∈ inHand h'.draftWorker,
      inFlight = w.now ∧ item.reqId = w.handler.stream.draftReqId)
    (shown : List (Stamp × Stamp)) :
    Gate ⟨h', w.now, if h'.draftQueue = w.handler.draftQueue then w.queued else w.now, inFlight,
      shown⟩ := by
  refine ⟨?_, ?_, ?_, ?_⟩
  · rcases hi.queue with hqueue | hqueue
    · dsimp only
      rw [if_pos hqueue, hqueue, hi.count]
      exact hg.queued
    · dsimp only
      rw [hqueue]
      exact nofun
  · intro item hitem
    obtain ⟨rfl, -⟩ := hflight item hitem
    exact ⟨Nat.le_refl _, Nat.le_refl _⟩
  · intro item hitem _
    obtain ⟨rfl, hreq⟩ := hflight item hitem
    dsimp only
    rw [hi.count, hreq]
    exact ⟨Nat.le_refl _, fun _ => rfl⟩
  · intro item hitem hlt
    obtain ⟨rfl, -⟩ := hflight item hitem
    exact absurd hlt (Nat.lt_irrefl _)

/-- A step of a coroutine other than the draft worker that is no reset shows nothing. -/
theorem step_reader {l : Label} (hstep : w.step cfg l = some w') (hdraft : l.isDraft = false)
    (hreset : l.isReset = false) : w'.shown = w.shown ∧ (Gate w → Gate w') := by
  simp only [Gated.step, Option.map_eq_some_iff] at hstep
  obtain ⟨h', hh, rfl⟩ := hstep
  obtain ⟨hr, hbase⟩ := step_redrafts hh hdraft hreset
  have hquiet := newDrafts_quiet hr.quiet
  have hflight : w.nextInFlight l = w.inFlight := by
    cases l with
    | draftTake => cases hdraft
    | _ => rfl
  have hevents : (if supersedes w.handler l h' then 1 else 0) =
      if h'.stream.draftReqId ≠ w.handler.stream.draftReqId then 1 else 0 := by
    rw [supersedes, hreset, Bool.false_or]
    cases hb : l.isBaseline with
    | true =>
        have hne := Nat.ne_of_gt (hbase hb)
        rw [Bool.true_or, if_pos rfl, if_pos hne]
    | false => simp only [Bool.false_or, decide_eq_true_eq]
  simp only [hquiet, List.map_nil, List.append_nil, hflight, hevents, hreset,
    Bool.false_eq_true, if_false, Nat.add_zero]
  exact ⟨trivial, fun hg => hg.redrafts hr rfl _⟩

/-- A reset: the request in translation is of an earlier one from now on. -/
theorem step_reset {l : Label} (hstep : w.step cfg l = some w') (hreset : l.isReset = true) :
    w'.shown = w.shown ∧ (Gate w → Gate w') := by
  simp only [Gated.step, Option.map_eq_some_iff] at hstep
  obtain ⟨h', hh, rfl⟩ := hstep
  cases l with
  | receive msg clocks =>
      have hm : msg.mtype = .reset := by simpa [Label.isReset] using hreset
      simp only [Handler.step, receive, hm] at hh
      split at hh
      · injection hh with hh
        obtain ⟨hworker, hqueue, hquiet⟩ := receiveReset_drafts cfg msg clocks w.handler
        have hnone : newDrafts w.handler h' = [] := newDrafts_quiet (hh ▸ hquiet)
        have hworker : h'.draftWorker = w.handler.draftWorker := hh ▸ hworker
        have hqueue : h'.draftQueue = none := hh ▸ hqueue
        have hflight : w.nextInFlight (.receive msg clocks) = w.inFlight := rfl
        simp only [supersedes, hreset, Bool.true_or, if_true, hnone, List.map_nil, List.append_nil,
          hflight]
        refine ⟨trivial, fun hg => ⟨?_, ?_, ?_, ?_⟩⟩
        · dsimp only
          rw [hqueue]
          exact fun item hitem => absurd hitem (Option.not_mem_none item)
        · dsimp only
          rw [hworker]
          exact fun item hitem => ⟨Nat.le_succ_of_le (hg.past item hitem).1,
            Nat.le_succ_of_le (hg.past item hitem).2⟩
        · dsimp only
          rw [hworker]
          intro item hitem hresets
          have hle := (hg.past item hitem).1
          omega
        · dsimp only
          rw [hworker]
          exact fun item hitem _ => Nat.lt_succ_of_le (hg.past item hitem).2
      · cases hh
  | _ => cases hreset

/-- The counts stay when the draft worker takes a step. -/
theorem step_idles {l : Label} (hdraft : l.isDraft = true) (hstep : w.step cfg l = some w') :
    ∃ h', Handler.step cfg w.handler l = some h' ∧ Idles w.handler h' ∧
      w' = ⟨h', w.now, if h'.draftQueue = w.handler.draftQueue then w.queued else w.now,
        w.nextInFlight l,
        w.shown ++ (newDrafts w.handler h').map fun _ => (w.inFlight, w.now)⟩ := by
  simp only [Gated.step, Option.map_eq_some_iff] at hstep
  obtain ⟨h', hh, rfl⟩ := hstep
  have hi := draft_idles hdraft hh
  have hcounts : l.isReset = false ∧ supersedes w.handler l h' = false := by
    cases l with
    | draftTake | draftTranslated | draftFailed | draftResume =>
        exact ⟨rfl, by simp [supersedes, Label.isReset, Label.isBaseline, hi.count]⟩
    | _ => cases hdraft
  refine ⟨h', hh, hi, ?_⟩
  simp only [hcounts, Bool.false_eq_true, if_false, Nat.add_zero]

/-- The draft worker takes a request, gives up, or goes on after a send. -/
theorem step_worker {l : Label} (hstep : w.step cfg l = some w') (hdraft : l.isDraft = true)
    (hl : ∀ vi, l ≠ .draftTranslated vi) : w'.shown = w.shown ∧ (Gate w → Gate w') := by
  obtain ⟨h', hh, hi, rfl⟩ := step_idles hdraft hstep
  have hshown : newDrafts w.handler h' = [] →
      w.shown ++ (newDrafts w.handler h').map (fun _ => (w.inFlight, w.now)) = w.shown := by
    intro hnone
    rw [hnone, List.map_nil, List.append_nil]
  cases l with
  | draftTake =>
      obtain ⟨-, hnone, htaken⟩ := draftTake_step hh
      refine ⟨hshown hnone, fun hg => hg.idles hi (fun item hitem => ?_) _⟩
      obtain ⟨queued, hqueued, hreq⟩ := htaken item hitem
      obtain ⟨hlatest, hstamp⟩ := hg.queued queued hqueued
      exact ⟨hstamp, hreq.symm.trans hlatest⟩
  | draftTranslated vi => exact absurd rfl (hl vi)
  | draftFailed | draftResume =>
      obtain ⟨-, hnone, hhand⟩ := draftIdle_step (by simp) hh
      exact ⟨hshown hnone, fun hg => hg.idles hi (by rw [hhand]; exact nofun) _⟩
  | _ => cases hdraft

/-- A translation comes back: it is shown with the stamps of its request and of now, or not. -/
theorem step_translated {vi : PyStr} (hstep : w.step cfg (.draftTranslated vi) = some w') :
    (Gate w → Gate w') ∧ ∃ item, inHand w.handler.draftWorker = some item ∧
      ∃ n, w'.shown = w.shown ++ List.replicate n (w.inFlight, w.now) ∧
        (n ≠ 0 ↔ vi ≠ [] ∧ item.reqId = w.handler.stream.draftReqId) := by
  obtain ⟨h', hh, hi, rfl⟩ := step_idles rfl hstep
  obtain ⟨item, hitem, -, hhand, hshows⟩ := draftTranslated_step hh
  refine ⟨fun hg => hg.idles hi (by rw [hhand]; exact nofun) _, item, hitem, _,
    congrArg _ List.map_const', ?_⟩
  rw [← hshows]
  exact not_congr List.length_eq_zero_iff

theorem Gate.step {l : Label} (hg : Gate w) (hstep : w.step cfg l = some w') : Gate w' := by
  cases hreset : l.isReset with
  | true => exact (step_reset hstep hreset).2 hg
  | false =>
      cases hdraft : l.isDraft with
      | false => exact (step_reader hstep hdraft hreset).2 hg
      | true =>
          by_cases hl : ∃ vi, l = .draftTranslated vi
          · obtain ⟨vi, rfl⟩ := hl
            exact (step_translated hstep).1 hg
          · exact (step_worker hstep hdraft fun vi heq => hl ⟨vi, heq⟩).2 hg

/-- A step shows nothing, or is the end of a translation. -/
theorem shown_step {l : Label} (hstep : w.step cfg l = some w') :
    w'.shown = w.shown ∨ ∃ vi, l = .draftTranslated vi := by
  cases hreset : l.isReset with
  | true => exact .inl (step_reset hstep hreset).1
  | false =>
      cases hdraft : l.isDraft with
      | false => exact .inl (step_reader hstep hdraft hreset).1
      | true =>
          by_cases hl : ∃ vi, l = .draftTranslated vi
          · exact .inr hl
          · exact .inl (step_worker hstep hdraft fun vi heq => hl ⟨vi, heq⟩).1

/-- Whether a shown draft is current is whether there was a reset in between. -/
theorem Current.step_iff {l : Label} (hc : Current w) (hg : Gate w)
    (hstep : w.step cfg l = some w') : Current w' ↔ NoResetSince w l := by
  rcases shown_step hstep with hsame | ⟨vi, rfl⟩
  · by_cases hl : ∃ vi, l = .draftTranslated vi
    · obtain ⟨vi, rfl⟩ := hl
      obtain ⟨-, item, hitem, n, hshown, hn⟩ := step_translated hstep
      have hzero : n = 0 := by
        have hlen := congrArg List.length (hshown.symm.trans hsame)
        simp only [List.length_append, List.length_replicate] at hlen
        omega
      refine ⟨fun _ hvi item' hitem' hreq => ?_, fun _ => by rwa [Current, hsame]⟩
      rw [hitem] at hitem'
      injection hitem' with hitem'
      subst hitem'
      exact absurd hzero (hn.mpr ⟨hvi, hreq⟩)
    · have htriv : NoResetSince w l := by
        cases l with
        | draftTranslated vi => exact absurd ⟨vi, rfl⟩ hl
        | _ => trivial
      exact ⟨fun _ => htriv, fun _ => by rwa [Current, hsame]⟩
  · obtain ⟨-, item, hitem, n, hshown, hn⟩ := step_translated hstep
    have hcurrent : Current w' ↔ (n ≠ 0 → w.inFlight.events = w.now.events) := by
      rw [Current, hshown]
      constructor
      · intro h hne
        exact h _ (List.mem_append_right _ (List.mem_replicate.mpr ⟨hne, rfl⟩))
      · intro h p hp
        rcases List.mem_append.mp hp with hp | hp
        · exact hc p hp
        · obtain ⟨hne, rfl⟩ := List.mem_replicate.mp hp
          exact h hne
    rw [hcurrent, hn]
    constructor
    · intro h hvi item' hitem' hreq
      rw [hitem] at hitem'
      injection hitem' with hitem'
      subst hitem'
      have hevents := h ⟨hvi, hreq⟩
      -- Were there a reset in between, its event would be later than the request.
      have hpast := (hg.past item hitem).1
      by_contra hne
      have hlt := hg.older item hitem (by omega)
      omega
    · rintro h ⟨hvi, hreq⟩
      exact (hg.same item hitem (h hvi item hitem hreq)).2 hreq

end Gated

/-- In every run, whatever the interleaving: each draft that is shown is the latest request,
with nothing after it, exactly when no translation whose number the counter stands at
comes back after a reset. -/
theorem drafts_current_iff (cfg : HandlerConfig σ) (seg : σ) (ls : List Label) (w : Gated σ)
    (hrun : run (Gated.step cfg) (.init seg) ls = some w) :
    w.Current ↔ Guarded (Gated.step cfg) NoResetSince (.init seg) ls := by
  have hlost : ∀ (w : Gated σ) (l : Label) (w' : Gated σ), w.Gate → ¬ w.Current →
      w.step cfg l = some w' → ¬ w'.Current := by
    intro w l w' _ hbad hstep hc
    refine hbad fun p hp => hc p ?_
    rcases Gated.shown_step hstep with hsame | ⟨vi, rfl⟩
    · rwa [hsame]
    · obtain ⟨-, _, _, n, hshown, -⟩ := Gated.step_translated hstep
      rw [hshown]
      exact List.mem_append_left _ hp
  exact holds_iff_guarded_of (I := Gated.Current) (J := Gated.Gate)
    (fun _ _ _ hg hstep => hg.step hstep)
    (fun _ _ _ hg hc hstep => hc.step_iff hg hstep) hlost (.init seg) nofun hrun

/-- A draft is taken, translated and shown. -/
def draftShown : List Label :=
  [.receive (message .stable 1 "we visit the old red market hall every single day") ⟨1, 300⟩,
    .draftTake, .draftTranslated "chúng ta".toList, .draftResume]

theorem drafts_current_shown :
    (run (Gated.step draftHandler) (.init (.init 0)) draftShown).isSome = true ∧
      ∀ w ∈ run (Gated.step draftHandler) (.init (.init 0)) draftShown,
        w.shown.length = 1 ∧ w.Current := by
  refine ⟨by decide +kernel, fun w hw => ⟨?_, ?_⟩⟩
  · have hlen : ∀ w ∈ run (Gated.step draftHandler) (.init (.init 0)) draftShown,
        w.shown.length = 1 := by decide +kernel
    exact hlen w hw
  · exact (drafts_current_iff draftHandler (.init 0) draftShown w hw).mpr (by decide +kernel)

/-- The reset comes while the first draft is translated: both have number one. -/
def draftOverReset : List Label :=
  [.receive (message .stable 1 "we visit the old red market hall every single day") ⟨1, 300⟩,
    .draftTake, .receive (message .reset 2 "") ⟨2, 400⟩, .draftTranslated "chúng ta".toList]

theorem drafts_outlive_reset :
    ¬ ∀ (ls : List Label) (w : Gated SegState),
      run (Gated.step draftHandler) (.init (.init 0)) ls = some w → w.Current := by
  intro h
  have hstale : ¬ ∀ w ∈ run (Gated.step draftHandler) (.init (.init 0)) draftOverReset,
      w.Current := by decide +kernel
  exact hstale fun w hw => h draftOverReset w hw

end Runs

end VTranser.Translator

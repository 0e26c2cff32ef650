import VTranser.Lib.Run
import VTranser.Translator.Handler

/-!
# What a coroutine does beside the commit worker

The reader, the tail releases and the draft worker never touch the commit
worker, the number of commits or the text that came last. They send nothing but
drafts, and what they enqueue is of the current epoch. `Beside` says this once;
every invariant of a connection uses it for all but the commit worker and the
messages that begin an epoch.
-/

namespace VTranser.Translator

def Out.IsDraft : Out → Prop
  | .viDraft .. => True
  | .viCommit .. | .viDelta .. => False

section

variable {σ : Type} {h h' h'' : Handler σ}

namespace Handler

/-- From `h` to `h'` nothing happens to commits but that some are enqueued;
strict mode enqueues `new`. -/
structure Beside (h : Handler σ) (new : List (PyStr × Released)) (h' : Handler σ) : Prop where
  epoch : h'.epoch = h.epoch
  worker : h'.commitWorker = h.commitWorker
  viSeq : h'.stream.viSeq = h.stream.viSeq
  viFull : h'.stream.viFull = h.stream.viFull
  rawFull : h'.stream.rawFull = h.stream.rawFull
  passed : h'.passed = h.passed ++ new
  queue : ∀ s ∈ h'.commitQueue, s ∈ h.commitQueue ∨ s.epoch = h.epoch
  sent : ∃ drafts, h'.sent = h.sent ++ drafts ∧ ∀ o ∈ drafts, o.out.IsDraft

theorem Beside.refl (h : Handler σ) : Beside h [] h where
  epoch := rfl
  worker := rfl
  viSeq := rfl
  viFull := rfl
  rawFull := rfl
  passed := by simp
  queue _ hs := .inl hs
  sent := ⟨[], by simp, by simp⟩

theorem Beside.trans {new new' : List (PyStr × Released)} (h₁ : Beside h new h')
    (h₂ : Beside h' new' h'') : Beside h (new ++ new') h'' where
  epoch := h₂.epoch.trans h₁.epoch
  worker := h₂.worker.trans h₁.worker
  viSeq := h₂.viSeq.trans h₁.viSeq
  viFull := h₂.viFull.trans h₁.viFull
  rawFull := h₂.rawFull.trans h₁.rawFull
  passed := by rw [h₂.passed, h₁.passed, List.append_assoc]
  queue s hs := by
    rcases h₂.queue s hs with hs | hs
    · exact h₁.queue s hs
    · exact .inr (hs.trans h₁.epoch)
  sent := by
    obtain ⟨ds₁, hsent₁, hd₁⟩ := h₁.sent
    obtain ⟨ds₂, hsent₂, hd₂⟩ := h₂.sent
    refine ⟨ds₁ ++ ds₂, by rw [hsent₂, hsent₁, List.append_assoc], fun o ho => ?_⟩
    rcases List.mem_append.mp ho with ho | ho
    · exact hd₁ o ho
    · exact hd₂ o ho

/-- The usual case: only the first part enqueues in strict mode. -/
theorem Beside.followed {new : List (PyStr × Released)} (h₁ : Beside h new h')
    (h₂ : Beside h' [] h'') : Beside h new h'' := by
  simpa using h₁.trans h₂

theorem Beside.reader {new : List (PyStr × Released)} (hb : Beside h new h') (k : Option Cont) :
    Beside h new { h' with reader := k } :=
  { hb with }

/-! ## Its functions -/

section Functions

variable (cfg : HandlerConfig σ)

theorem sendDraftClear_beside (enSeq : Option Int) (reqId : Nat) (h : Handler σ) :
    Beside h [] (sendDraftClear cfg enSeq reqId h).1 := by
  rw [sendDraftClear]
  split
  · exact { Beside.refl h with
      sent := ⟨[_], rfl, fun o ho => by rw [List.mem_singleton.mp ho]; trivial⟩ }
  · exact { Beside.refl h with }

theorem invalidateAndClearDraft_beside (enSeq : Option Int) (h : Handler σ) :
    Beside h [] (invalidateAndClearDraft cfg enSeq h).1 :=
  { sendDraftClear_beside cfg enSeq _ _ with }

theorem enqueueCommitSegment_beside (h : Handler σ) (item : Int × PyStr) :
    Beside h [] (enqueueCommitSegment cfg h item) := by
  rw [enqueueCommitSegment]
  split
  · exact .refl h
  · split
    · refine { Beside.refl h with queue := fun s hs => ?_ }
      rcases List.mem_append.mp hs with hs | hs
      · exact .inl hs
      · exact .inr (by rw [List.mem_singleton.mp hs])
    · refine { Beside.refl h with queue := fun s hs => ?_ }
      rcases List.mem_append.mp hs with hs | hs
      · exact .inl (List.mem_of_mem_tail hs)
      · exact .inr (by rw [List.mem_singleton.mp hs])

theorem enqueueAll_beside (items : List (Int × PyStr)) (h : Handler σ) :
    Beside h [] (items.foldl (enqueueCommitSegment cfg) h) := by
  induction items generalizing h with
  | nil => exact .refl h
  | cons item items ih =>
      rw [List.foldl_cons]
      exact (enqueueCommitSegment_beside cfg h item).followed (ih _)

theorem lagCollectCommit_keeps (effSeq : Int) (st : StreamState σ) (seg : PyStr) :
    (lagCollectCommit cfg effSeq st seg).viSeq = st.viSeq ∧
      (lagCollectCommit cfg effSeq st seg).viFull = st.viFull ∧
        (lagCollectCommit cfg effSeq st seg).rawFull = st.rawFull := by
  simp only [lagCollectCommit]
  split
  · exact ⟨rfl, rfl, rfl⟩
  · generalize splitCompleteSentencesText _ _ = split
    by_cases hnone : split.1.isEmpty = true
    · rw [if_pos hnone]
      exact ⟨rfl, rfl, rfl⟩
    · rw [if_neg hnone]
      exact ⟨rfl, rfl, rfl⟩

theorem lagCollectAll_keeps (effSeq : Int) (segs : List PyStr) (st : StreamState σ) :
    (segs.foldl (lagCollectCommit cfg effSeq) st).viSeq = st.viSeq ∧
      (segs.foldl (lagCollectCommit cfg effSeq) st).viFull = st.viFull ∧
        (segs.foldl (lagCollectCommit cfg effSeq) st).rawFull = st.rawFull := by
  induction segs generalizing st with
  | nil => exact ⟨rfl, rfl, rfl⟩
  | cons seg segs ih =>
      obtain ⟨hseq, hfull, hraw⟩ := lagCollectCommit_keeps cfg effSeq st seg
      obtain ⟨hseqs, hfulls, hraws⟩ := ih (lagCollectCommit cfg effSeq st seg)
      exact ⟨hseqs.trans hseq, hfulls.trans hfull, hraws.trans hraw⟩

/-- A new stream state that keeps the commits and the text. -/
theorem stream_beside (h : Handler σ) {stream : StreamState σ}
    (hseq : stream.viSeq = h.stream.viSeq) (hfull : stream.viFull = h.stream.viFull)
    (hraw : stream.rawFull = h.stream.rawFull) : Beside h [] { h with stream } :=
  { Beside.refl h with viSeq := hseq, viFull := hfull, rawFull := hraw }

theorem lagDispatchReady_beside (draftEn : PyStr) (effSeq : Int) (force : Bool) (h : Handler σ) :
    Beside h [] (lagDispatchReady cfg draftEn effSeq force h) := by
  refine Beside.followed (stream_beside h ?_ ?_ ?_) (enqueueAll_beside cfg _ _) <;>
    · dsimp only
      split <;> rfl

theorem offerDraft_beside (draftEn : PyStr) (effSeq wallMs : Int) (h : Handler σ) :
    Beside h [] (offerDraft cfg draftEn effSeq wallMs h) := by
  have hput : ∀ (stream : StreamState σ) (item : Option DraftItem),
      stream.viSeq = h.stream.viSeq → stream.viFull = h.stream.viFull →
        stream.rawFull = h.stream.rawFull →
          Beside h [] { h with stream, draftQueue := item } := fun _ _ hseq hfull hraw =>
    { stream_beside h hseq hfull hraw with }
  simp only [offerDraft]
  split
  · split
    · split
      · exact hput _ _ rfl rfl rfl
      · exact .refl h
    · split
      · exact hput _ _ rfl rfl rfl
      · exact .refl h
  · split
    · exact hput _ _ rfl rfl rfl
    · exact hput _ _ rfl rfl rfl

theorem scheduleTailRelease_beside (fullNorm : PyStr) (effSeq : Int) (h : Handler σ) :
    Beside h [] (scheduleTailRelease fullNorm effSeq h) :=
  { Beside.refl h with }

theorem resume_beside (wallMs : Int) (k : Cont) (h : Handler σ) :
    Beside h [] (resume cfg wallMs k h) := by
  cases k with
  | done => exact .refl h
  | schedule fullNorm effSeq => exact scheduleTailRelease_beside fullNorm effSeq h
  | lagRest segs draftEn fullNorm effSeq force schedule =>
      obtain ⟨hseq, hfull, hraw⟩ := lagCollectAll_keeps cfg effSeq segs h.stream
      have hrest := ((stream_beside h hseq hfull hraw).followed
        (lagDispatchReady_beside cfg draftEn effSeq force _)).followed
        (offerDraft_beside cfg draftEn effSeq wallMs _)
      simp only [resume]
      split
      · exact hrest.followed (scheduleTailRelease_beside fullNorm effSeq _)
      · exact hrest

theorem orWait_beside {new : List (PyStr × Released)} (wallMs : Int) (k : Cont)
    {r : Handler σ × Bool} (hr : Beside h new r.1) : Beside h new (orWait cfg wallMs k r).1 := by
  rw [orWait]
  split
  · exact hr
  · exact hr.followed (resume_beside cfg wallMs k r.1)

/-! ## An update -/

/-- What an update enqueues in strict mode. -/
def newlyPassed (cfg : HandlerConfig σ) (fullNorm : PyStr) (effSeq : Int) (forceRelease : Bool)
    (st : StrictState) : List (PyStr × Released) :=
  if cfg.strictStableSentenceOnly then
    (strictCollectAndDispatch cfg.strict fullNorm effSeq forceRelease st).2.map fun r =>
      (fullNorm, r)
  else []

theorem strictUpdate_beside (fullNorm : PyStr) (effSeq : Int) (force : Bool) (h : Handler σ) :
    Beside h ((strictCollectAndDispatch cfg.strict fullNorm effSeq force h.stream.strict).2.map
      fun r => (fullNorm, r)) (strictUpdate cfg fullNorm effSeq force h) := by
  rw [strictUpdate]
  refine Beside.followed ?_ (enqueueAll_beside cfg _ _)
  exact { Beside.refl h with passed := rfl }

theorem processEnUpdate_beside (fullNorm : PyStr) (effSeq : Int) (tMs : Option Int)
    (force schedule : Bool) (wallMs : Int) (h : Handler σ) :
    Beside h (newlyPassed cfg fullNorm effSeq force h.stream.strict)
      (processEnUpdate cfg fullNorm effSeq tMs force schedule wallMs h).1 := by
  rw [processEnUpdate, newlyPassed]
  split
  · -- Strict mode: the sentences are handed on before the draft is cleared.
    have hstrict := strictUpdate_beside cfg fullNorm effSeq force h
    simp only
    split
    · exact orWait_beside cfg wallMs _
        (hstrict.followed (invalidateAndClearDraft_beside cfg (some effSeq) _))
    · exact hstrict.followed (resume_beside cfg wallMs _ _)
  · generalize cfg.seg.updateStable _ _ _ _ = result
    have hseg : Beside h [] { h with stream := { h.stream with seg := result.1 } } :=
      stream_beside h rfl rfl rfl
    dsimp only
    split
    · dsimp only
      exact hseg.followed (resume_beside cfg wallMs _ _)
    · exact orWait_beside cfg wallMs _
        (hseg.followed (invalidateAndClearDraft_beside cfg (some effSeq) _))

theorem release_beside (job : Job) (clocks : Clocks) (h : Handler σ) :
    ∃ new, Beside h new (release cfg job clocks h).1 ∧
      (new = [] ∨ new = newlyPassed cfg h.stream.rawFull job.effSeq true h.stream.strict) := by
  rw [release]
  split
  · exact ⟨[], .refl h, .inl rfl⟩
  · next hacts =>
      have hraw : h.stream.rawFull = job.rawSnapshot := by
        by_contra hne
        exact hacts (.inr (.inr hne))
      have hb := processEnUpdate_beside cfg job.rawSnapshot job.effSeq none true false clocks.wallMs h
      exact ⟨_, hb, .inr (by rw [hraw])⟩

/-- The stream state with which an update of the reader begins. -/
def updateStream (cfg : HandlerConfig σ) (msg : InMsg) (clocks : Clocks) (st : StreamState σ) :
    StreamState σ :=
  { (nextEffectiveEnSeq msg.seq st).1 with
    rawFull := normSpaces cfg.strict.text (updateText msg st.rawFull)
    rawEffSeq := (nextEffectiveEnSeq msg.seq st).2
    lastRxMono := clocks.mono }

theorem nextEffectiveEnSeq_keeps (seq : Option Int) (st : StreamState σ) :
    (nextEffectiveEnSeq seq st).1.viSeq = st.viSeq ∧
      (nextEffectiveEnSeq seq st).1.rawFull = st.rawFull ∧
        (nextEffectiveEnSeq seq st).1.strict = st.strict ∧
          (nextEffectiveEnSeq seq st).1.viFull = st.viFull := by
  cases seq <;> exact ⟨rfl, rfl, rfl, rfl⟩

theorem updateStream_keeps (cfg : HandlerConfig σ) (msg : InMsg) (clocks : Clocks)
    (st : StreamState σ) :
    (updateStream cfg msg clocks st).viSeq = st.viSeq ∧
      (updateStream cfg msg clocks st).rawFull =
        normSpaces cfg.strict.text (updateText msg st.rawFull) ∧
        (updateStream cfg msg clocks st).strict = st.strict ∧
          (updateStream cfg msg clocks st).viFull = st.viFull := by
  obtain ⟨hseq, -, hstrict, hfull⟩ := nextEffectiveEnSeq_keeps msg.seq st
  rw [updateStream]
  dsimp only
  exact ⟨hseq, rfl, hstrict, hfull⟩

/-- An update that is not dropped sets the text and hands it on. -/
theorem receiveUpdate_eq (msg : InMsg) (clocks : Clocks) (h : Handler σ)
    (hnew : ¬ msg.seq.any (· ≤ h.stream.lastEnSeq)) :
    receiveUpdate cfg msg clocks h =
      processEnUpdate cfg (normSpaces cfg.strict.text (updateText msg h.stream.rawFull))
        (nextEffectiveEnSeq msg.seq h.stream).2 msg.tMs false true clocks.wallMs
        { h with stream := updateStream cfg msg clocks h.stream } := by
  obtain ⟨-, hraw, -⟩ := nextEffectiveEnSeq_keeps msg.seq h.stream
  rw [receiveUpdate, if_neg hnew]
  simp only [updateStream, hraw]

theorem receiveUpdate_beside (msg : InMsg) (clocks : Clocks) (h : Handler σ) :
    Beside h [] (receiveUpdate cfg msg clocks h).1 ∨
      Beside { h with stream := updateStream cfg msg clocks h.stream }
        (newlyPassed cfg (normSpaces cfg.strict.text (updateText msg h.stream.rawFull))
          (nextEffectiveEnSeq msg.seq h.stream).2 false h.stream.strict)
        (receiveUpdate cfg msg clocks h).1 := by
  by_cases hold : msg.seq.any (· ≤ h.stream.lastEnSeq)
  · left
    rw [receiveUpdate, if_pos hold]
    exact .refl h
  · right
    obtain ⟨-, -, hstrict, -⟩ := updateStream_keeps cfg msg clocks h.stream
    rw [receiveUpdate_eq cfg msg clocks h hold, ← hstrict]
    exact processEnUpdate_beside cfg _ _ _ _ _ _ _

/-! ## The workers -/

theorem draftTake_beside (item : DraftItem) (h : Handler σ) :
    Beside h [] (draftTake cfg item h) := by
  simp only [draftTake]
  split
  · exact .refl h
  · split
    · exact { sendDraftClear_beside cfg (some item.enSeq) item.reqId h with }
    · exact { Beside.refl h with }

theorem draftTranslated_beside (item : DraftItem) (vi : PyStr) (h : Handler σ) :
    Beside h [] (draftTranslated cfg item vi h) := by
  simp only [draftTranslated]
  split
  · exact { Beside.refl h with }
  · split
    · exact { sendDraftClear_beside cfg (some item.enSeq) item.reqId h with }
    · exact { Beside.refl h with
        sent := ⟨[_], rfl, fun o ho => by rw [List.mem_singleton.mp ho]; trivial⟩ }

/-- The commit worker sends a commit and waits. -/
def sendCommit (seg : Segment) (app : PyStr) (rest : List (Segment × PyStr)) (h : Handler σ) :
    Handler σ :=
  send (.viCommit app (h.stream.viSeq + 1) seg.enSeq) seg.epoch (h.stream.viSeq + 1)
    { h with
      stream := { h.stream with viFull := h.stream.viFull ++ app, viSeq := h.stream.viSeq + 1 }
      commitWorker := .commitSent app seg (h.stream.viSeq + 1) rest }

theorem emitCommits_cases (todo : List (Segment × PyStr)) (h : Handler σ) :
    emitCommits todo h = { h with commitWorker := .idle } ∨
      ∃ seg vi rest, (seg, vi) :: rest <:+ todo ∧
        emitCommits todo h = sendCommit seg (joinVi h.stream.viFull vi) rest h := by
  induction todo with
  | nil => exact .inl rfl
  | cons pair todo ih =>
      obtain ⟨seg, vi⟩ := pair
      simp only [emitCommits]
      split
      · rcases ih with hidle | ⟨seg', vi', rest, hsuffix, hsend⟩
        · exact .inl hidle
        · exact .inr ⟨seg', vi', rest, hsuffix.trans (List.suffix_cons _ _), hsend⟩
      · exact .inr ⟨seg, vi, todo, List.suffix_rfl, rfl⟩

/-! ## A step -/

/-- A message begins an epoch: all but the stream state and the number of the
epoch is as it was. -/
structure Begins (h h' : Handler σ) : Prop where
  epoch : h'.epoch = h.epoch + 1
  worker : h'.commitWorker = h.commitWorker
  passed : h'.passed = h.passed
  queue : h'.commitQueue = h.commitQueue
  sent : h'.sent = h.sent

/-- The label of a step that begins no epoch. -/
def Label.Plain (l : Label) : Prop :=
  ∀ msg clocks, l = .receive msg clocks → msg.mtype ≠ .reset ∧ msg.mtype ≠ .baseline

/-- What a step does. -/
inductive Effect (cfg : HandlerConfig σ) (h : Handler σ) : Label → Handler σ → Prop
  | beside {l h'} : l.Plain → Beside h [] h' → Effect cfg h l h'
  | released {i clocks effSeq h'} :
      Beside h (newlyPassed cfg h.stream.rawFull effSeq true h.stream.strict) h' →
        Effect cfg h (.release i clocks) h'
  | updated {msg clocks h'} : msg.mtype ≠ .reset → msg.mtype ≠ .baseline →
      Beside { h with stream := updateStream cfg msg clocks h.stream }
        (newlyPassed cfg (normSpaces cfg.strict.text (updateText msg h.stream.rawFull))
          (nextEffectiveEnSeq msg.seq h.stream).2 false h.stream.strict) h' →
        Effect cfg h (.receive msg clocks) h'
  | reset {msg clocks h₁ h'} : msg.mtype = .reset → Begins h h₁ → h₁.stream.viSeq = 0 →
      Beside h₁ [] h' → Effect cfg h (.receive msg clocks) h'
  | baseline {msg clocks h₁ h'} : msg.mtype = .baseline → Begins h h₁ →
      h₁.stream.viSeq = h.stream.viSeq → h₁.stream.viFull = h.stream.viFull →
        h₁.stream.rawFull = normSpaces cfg.strict.text msg.full →
          Beside h₁ [] h' → Effect cfg h (.receive msg clocks) h'
  | commitTake : h.commitWorker = .idle → Effect cfg h .commitTake (commitTake cfg h)
  | commitTranslated {batch vis} : h.commitWorker = .translating batch →
      Effect cfg h (.commitTranslated vis) (emitCommits (batch.zip vis) h)
  | commitFailed : Effect cfg h .commitFailed { h with commitWorker := .idle }
  | deltaSent {app seg seq rest} : cfg.sendViDeltaCompat = true →
      h.commitWorker = .commitSent app seg seq rest →
        Effect cfg h .commitResume (send (.viDelta app h.stream.viSeq seg.enSeq) seg.epoch seq
          { h with commitWorker := .deltaSent rest })
  | commitsGoOn {rest} :
      (h.commitWorker = .deltaSent rest ∨ cfg.sendViDeltaCompat = false ∧
        ∃ app seg seq, h.commitWorker = .commitSent app seg seq rest) →
        Effect cfg h .commitResume (emitCommits rest h)

theorem receive_effect (msg : InMsg) (clocks : Clocks) (h : Handler σ) (k : Option Cont) :
    Effect cfg h (.receive msg clocks) { (receive cfg msg clocks h).1 with reader := k } := by
  have hplain : msg.mtype ≠ .reset ∧ msg.mtype ≠ .baseline →
      Label.Plain (.receive msg clocks) := by
    rintro hne msg' clocks' heq
    injection heq with hmsg
    rwa [← hmsg]
  have hupdate : msg.mtype ≠ .reset → msg.mtype ≠ .baseline →
      Effect cfg h (.receive msg clocks)
        { (receiveUpdate cfg msg clocks h).1 with reader := k } := by
    intro hreset hbase
    rcases receiveUpdate_beside cfg msg clocks h with hb | hb
    · exact .beside (hplain ⟨hreset, hbase⟩) (hb.reader k)
    · exact .updated hreset hbase (hb.reader k)
  cases hm : msg.mtype with
  | reset =>
      simp only [receive, hm, receiveReset]
      have hb := fun h₁ : Handler σ => orWait_beside cfg clocks.wallMs .done
        (invalidateAndClearDraft_beside cfg msg.seq h₁)
      refine .reset hm ?_ ?_ ((hb _).reader k)
      · exact ⟨rfl, rfl, rfl, rfl, rfl⟩
      · rfl
  | baseline =>
      simp only [receive, hm, receiveBaseline]
      have hb := fun (h₁ : Handler σ) (effSeq : Int) (full : PyStr) =>
        orWait_beside cfg clocks.wallMs (.schedule full effSeq)
          (invalidateAndClearDraft_beside cfg (some effSeq) h₁)
      have hkeeps := fun st : StreamState σ => nextEffectiveEnSeq_keeps msg.seq st
      refine .baseline hm ?_ ?_ ?_ ?_ ((hb _ _ _).reader k)
      · exact ⟨rfl, rfl, rfl, rfl, rfl⟩
      · exact (hkeeps _).1
      · exact (hkeeps _).2.2.2
      · exact (hkeeps _).2.1
  | stable =>
      simp only [receive, hm]
      exact hupdate (by rw [hm]; decide) (by rw [hm]; decide)
  | patch =>
      simp only [receive, hm]
      exact hupdate (by rw [hm]; decide) (by rw [hm]; decide)
  | other =>
      simp only [receive, hm]
      exact .beside (hplain (by rw [hm]; decide)) ((Beside.refl h).reader k)

end Functions

/-- Who can take which step, and what is then. -/
inductive Takes (cfg : HandlerConfig σ) (h : Handler σ) : Label → Handler σ → Prop
  | receive {msg clocks} : h.reader = none →
      Takes cfg h (.receive msg clocks)
        { (receive cfg msg clocks h).1 with reader := (receive cfg msg clocks h).2 }
  | readerResume {wallMs k} : h.reader = some k →
      Takes cfg h (.readerResume wallMs) (resume cfg wallMs k { h with reader := none })
  | release {i clocks job} : h.jobs[i]? = some job →
      Takes cfg h (.release i clocks)
        { (release cfg job clocks { h with jobs := h.jobs.eraseIdx i }).1 with
          releases :=
            (release cfg job clocks { h with jobs := h.jobs.eraseIdx i }).1.releases ++
              (release cfg job clocks { h with jobs := h.jobs.eraseIdx i }).2.toList }
  | releaseResume {i wallMs k} : h.releases[i]? = some k →
      Takes cfg h (.releaseResume i wallMs)
        (resume cfg wallMs k { h with releases := h.releases.eraseIdx i })
  | commitTake : h.commitWorker = .idle → Takes cfg h .commitTake (commitTake cfg h)
  | commitTranslated {batch vis} : h.commitWorker = .translating batch →
      Takes cfg h (.commitTranslated vis) (emitCommits (batch.zip vis) h)
  | commitFailed : Takes cfg h .commitFailed { h with commitWorker := .idle }
  | commitSent {app seg seq rest} : h.commitWorker = .commitSent app seg seq rest →
      Takes cfg h .commitResume (commitResume cfg h)
  | deltaSent {rest} : h.commitWorker = .deltaSent rest →
      Takes cfg h .commitResume (commitResume cfg h)
  | draftTake {item} : h.draftWorker = .idle → h.draftQueue = some item →
      Takes cfg h .draftTake (draftTake cfg item { h with draftQueue := none })
  | draftTranslated {item vi} : h.draftWorker = .translating item →
      Takes cfg h (.draftTranslated vi) (draftTranslated cfg item vi h)
  | draftFailed : Takes cfg h .draftFailed { h with draftWorker := .idle }
  | draftResume : Takes cfg h .draftResume { h with draftWorker := .idle }

theorem step_takes {cfg : HandlerConfig σ} {l : Label} (hstep : step cfg h l = some h') :
    Takes cfg h l h' := by
  cases l with
  | receive msg clocks =>
      simp only [step] at hstep
      split at hstep
      · next hidle => exact Option.some.inj hstep ▸ .receive hidle
      · cases hstep
  | readerResume wallMs =>
      obtain ⟨k, hk, rfl⟩ := Option.map_eq_some_iff.mp hstep
      exact .readerResume hk
  | release i clocks =>
      obtain ⟨job, hjob, rfl⟩ := Option.map_eq_some_iff.mp hstep
      exact .release hjob
  | releaseResume i wallMs =>
      obtain ⟨k, hk, rfl⟩ := Option.map_eq_some_iff.mp hstep
      exact .releaseResume hk
  | commitTake =>
      simp only [step] at hstep
      split at hstep
      · next hidle => exact Option.some.inj hstep ▸ .commitTake hidle.1
      · cases hstep
  | commitTranslated vis =>
      simp only [step] at hstep
      split at hstep
      · next hworker => exact Option.some.inj hstep ▸ .commitTranslated hworker
      · cases hstep
  | commitFailed =>
      simp only [step] at hstep
      split at hstep
      · exact Option.some.inj hstep ▸ .commitFailed
      · cases hstep
  | commitResume =>
      simp only [step] at hstep
      split at hstep
      · next hworker => exact Option.some.inj hstep ▸ .commitSent hworker
      · next hworker => exact Option.some.inj hstep ▸ .deltaSent hworker
      · cases hstep
  | draftTake =>
      simp only [step] at hstep
      split at hstep
      · next hidle hqueue => exact Option.some.inj hstep ▸ .draftTake hidle hqueue
      · cases hstep
  | draftTranslated vi =>
      simp only [step] at hstep
      split at hstep
      · next hworker => exact Option.some.inj hstep ▸ .draftTranslated hworker
      · cases hstep
  | draftFailed =>
      simp only [step] at hstep
      split at hstep
      · exact Option.some.inj hstep ▸ .draftFailed
      · cases hstep
  | draftResume =>
      simp only [step] at hstep
      split at hstep
      · exact Option.some.inj hstep ▸ .draftResume
      · cases hstep

theorem step_effect {cfg : HandlerConfig σ} {l : Label} (hstep : step cfg h l = some h') :
    Effect cfg h l h' := by
  cases step_takes hstep with
  | receive => exact receive_effect cfg _ _ h _
  | readerResume =>
      exact .beside (by rintro _ _ ⟨⟩) { resume_beside cfg _ _ { h with reader := none } with }
  | @release i clocks job _ =>
      obtain ⟨new, hb, rfl | rfl⟩ := release_beside cfg job clocks
        { h with jobs := h.jobs.eraseIdx i }
      · exact .beside (by rintro _ _ ⟨⟩) { hb with }
      · exact .released { hb with }
  | @releaseResume i =>
      exact .beside (by rintro _ _ ⟨⟩)
        { resume_beside cfg _ _ { h with releases := h.releases.eraseIdx i } with }
  | commitTake hidle => exact .commitTake hidle
  | commitTranslated hbatch => exact .commitTranslated hbatch
  | commitFailed => exact .commitFailed
  | commitSent hworker =>
      simp only [commitResume, hworker]
      split
      · next hcompat => exact .deltaSent hcompat hworker
      · next hcompat =>
          exact .commitsGoOn (.inr ⟨by simpa using hcompat, _, _, _, hworker⟩)
  | deltaSent hworker =>
      simp only [commitResume, hworker]
      exact .commitsGoOn (.inl hworker)
  | draftTake =>
      exact .beside (by rintro _ _ ⟨⟩) { draftTake_beside cfg _ { h with draftQueue := none } with }
  | draftTranslated => exact .beside (by rintro _ _ ⟨⟩) (draftTranslated_beside cfg _ _ h)
  | draftFailed | draftResume => exact .beside (by rintro _ _ ⟨⟩) { Beside.refl h with }

end Handler
end

/-- A message with the whole text. -/
def message (mtype : MsgType) (seq : Int) (text : String) : InMsg :=
  ⟨mtype, some seq, text.toList, [], none⟩

end VTranser.Translator

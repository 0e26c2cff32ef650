import VTranser.Proofs.Handler

/-!
# What the commit worker gets

In strict mode a sentence is marked as committed and put into the commit queue
in one go, and only the commit worker takes from it. The queue is bounded: a
segment that finds it full takes the place of the oldest, which is marked as
committed all the same.

So what was taken and what waits are the committed sentences in their order, less
those that were pushed out (`Delivered`). `Watched` keeps count of both.
-/

namespace VTranser.Translator

open Run

/-- A continuation of strict mode. -/
def Cont.Strict : Cont → Prop
  | .done | .schedule .. => True
  | .lagRest .. => False

section

variable {σ : Type} {h h' : Handler σ}

namespace Handler

/-- A connection and what left its queue: the segments the commit worker took,
and how many were pushed out. -/
structure Watched (σ : Type) where
  handler : Handler σ
  taken : List PyStr
  pushedOut : Nat

/-- How many segments go when so many come to a queue of this length. -/
def overflow (queued new : Nat) : Nat := queued + new - commitQueueSize

def committed (h : Handler σ) : List PyStr := h.stream.strict.committedSentences

def queued (h : Handler σ) : List PyStr := h.commitQueue.map Segment.seg

/-- A step; whatever is committed in it is enqueued. -/
def Watched.step (cfg : HandlerConfig σ) (w : Watched σ) (l : Label) : Option (Watched σ) :=
  (Handler.step cfg w.handler l).map fun h =>
    match l with
    | .commitTake =>
        ⟨h, w.taken ++ (takeBatch cfg w.handler.commitQueue).1.map Segment.seg, w.pushedOut⟩
    | _ =>
        ⟨h, w.taken, w.pushedOut + overflow w.handler.commitQueue.length
          (h.committed.length - w.handler.committed.length)⟩

def Watched.init (seg : σ) : Watched σ := ⟨.init seg, [], 0⟩

/-! ## The queue of an update -/

/-- `h'` has the queue and the committed sentences of `h`, and the same waits. -/
structure SameQueue (h h' : Handler σ) : Prop where
  queue : h'.commitQueue = h.commitQueue
  committed : h'.committed = h.committed
  reader : h'.reader = h.reader
  releases : h'.releases = h.releases

theorem SameQueue.refl (h : Handler σ) : SameQueue h h where
  queue := rfl
  committed := rfl
  reader := rfl
  releases := rfl

theorem SameQueue.trans {h'' : Handler σ} (h₁ : SameQueue h h') (h₂ : SameQueue h' h'') :
    SameQueue h h'' where
  queue := h₂.queue.trans h₁.queue
  committed := h₂.committed.trans h₁.committed
  reader := h₂.reader.trans h₁.reader
  releases := h₂.releases.trans h₁.releases

/-- From `h` to `h'` the sentences `new` are committed and enqueued. -/
structure Commits (h : Handler σ) (new : List PyStr) (h' : Handler σ) : Prop where
  committed : h'.committed = h.committed ++ new
  queued : h'.queued = (h.queued ++ new).drop (overflow h.commitQueue.length new.length)

/-- An update commits and enqueues some sentences; if it waits, it goes on in
strict mode. -/
structure Updated (h : Handler σ) (r : Handler σ × Option Cont) : Prop where
  commits : ∃ new, Commits h new r.1
  reader : r.1.reader = h.reader
  releases : r.1.releases = h.releases
  conts : ∀ k ∈ r.2, k.Strict

section Functions

variable (cfg : HandlerConfig σ)

theorem invalidateAndClearDraft_same (enSeq : Option Int) (h : Handler σ) :
    SameQueue h (invalidateAndClearDraft cfg enSeq h).1 := by
  rw [invalidateAndClearDraft, sendDraftClear]
  split <;> exact ⟨rfl, rfl, rfl, rfl⟩

theorem resume_same (wallMs : Int) {k : Cont} (hk : k.Strict) (h : Handler σ) :
    SameQueue h (resume cfg wallMs k h) := by
  cases k with
  | done => exact .refl h
  | schedule fullNorm effSeq => exact ⟨rfl, rfl, rfl, rfl⟩
  | lagRest => exact hk.elim

theorem orWait_same (wallMs : Int) {k : Cont} (hk : k.Strict) (r : Handler σ × Bool) :
    SameQueue r.1 (orWait cfg wallMs k r).1 ∧ ∀ k' ∈ (orWait cfg wallMs k r).2, k'.Strict := by
  rw [orWait]
  split
  · refine ⟨.refl _, ?_⟩
    intro k' hk'
    injection hk' with hk'
    rwa [← hk']
  · exact ⟨resume_same cfg wallMs hk r.1, fun k' hk' => absurd hk' (Option.not_mem_none k')⟩

theorem length_queued (h : Handler σ) : h.queued.length = h.commitQueue.length :=
  List.length_map ..

theorem enqueueCommitSegment_queued {item : Int × PyStr}
    (hitem : (item.2.isEmpty || isPunctOnly cfg.strict.text item.2) = false)
    (hlen : h.commitQueue.length ≤ commitQueueSize) :
    (enqueueCommitSegment cfg h item).queued =
      (h.queued ++ [item.2]).drop (overflow h.commitQueue.length 1) := by
  rw [enqueueCommitSegment, if_neg (by simp [hitem])]
  dsimp only
  by_cases hfull : h.commitQueue.length < commitQueueSize
  · have hroom : overflow h.commitQueue.length 1 = 0 := by
      rw [overflow]
      omega
    rw [if_pos hfull, hroom, List.drop_zero, queued, queued, List.map_append]
    rfl
  · -- The queue is full: its head goes.
    have hsize : h.commitQueue.length = commitQueueSize := by omega
    have hone : overflow h.commitQueue.length 1 = 1 := by
      rw [overflow]
      omega
    have hpos : 1 ≤ h.queued.length := by
      rw [length_queued, hsize]
      decide
    rw [if_neg hfull, hone, List.drop_append_of_le_length hpos, List.drop_one, queued, queued,
      List.map_append, List.map_tail]
    rfl

/-- One segment after the other into the queue: the oldest go. -/
theorem enqueueAll_queued {items : List (Int × PyStr)}
    (hitems : ∀ item ∈ items, (item.2.isEmpty || isPunctOnly cfg.strict.text item.2) = false)
    (h : Handler σ) (hlen : h.commitQueue.length ≤ commitQueueSize) :
    (items.foldl (enqueueCommitSegment cfg) h).queued = (h.queued ++ items.map Prod.snd).drop
      (overflow h.commitQueue.length items.length) := by
  induction items generalizing h with
  | nil =>
      have hnone : overflow h.commitQueue.length 0 = 0 := by
        rw [overflow]
        omega
      rw [List.foldl_nil, List.map_nil, List.append_nil, List.length_nil, hnone, List.drop_zero]
  | cons item items ih =>
      have hone := enqueueCommitSegment_queued cfg (hitems item List.mem_cons_self) hlen
      have hlen' : (enqueueCommitSegment cfg h item).commitQueue.length =
          h.commitQueue.length + 1 - overflow h.commitQueue.length 1 := by
        rw [← length_queued, hone, List.length_drop, List.length_append, length_queued,
          List.length_singleton]
      have hbound : (enqueueCommitSegment cfg h item).commitQueue.length ≤ commitQueueSize := by
        rw [hlen', overflow]
        omega
      have hfits : overflow h.commitQueue.length 1 ≤ (h.queued ++ [item.2]).length := by
        rw [List.length_append, length_queued, List.length_singleton, overflow]
        omega
      have hsum : overflow h.commitQueue.length 1 +
          overflow (enqueueCommitSegment cfg h item).commitQueue.length items.length =
            overflow h.commitQueue.length (items.length + 1) := by
        rw [hlen', overflow, overflow, overflow]
        omega
      rw [List.foldl_cons, ih (fun i hi => hitems i (List.mem_cons_of_mem _ hi)) _ hbound, hone,
        ← List.drop_append_of_le_length hfits, List.drop_drop, hsum, List.append_assoc,
        List.length_cons, List.map_cons, List.singleton_append]

theorem enqueueAll_frame (items : List (Int × PyStr)) (h : Handler σ) :
    ∃ commitQueue, items.foldl (enqueueCommitSegment cfg) h = { h with commitQueue } := by
  induction items generalizing h with
  | nil => exact ⟨_, rfl⟩
  | cons item items ih =>
      obtain ⟨queue, hone⟩ : ∃ commitQueue,
          enqueueCommitSegment cfg h item = { h with commitQueue } := by
        rw [enqueueCommitSegment]
        split
        · exact ⟨_, rfl⟩
        · dsimp only
          split <;> exact ⟨_, rfl⟩
      obtain ⟨queue', hrest⟩ := ih { h with commitQueue := queue }
      rw [List.foldl_cons, hone, hrest]
      exact ⟨_, rfl⟩

theorem released_enqueueable {effSeq : Int} {start : Nat} {sents : List PyStr} {r : Released}
    (hr : r ∈ releaseLoop cfg.strict.text effSeq start sents) :
    (r.seg.isEmpty || isPunctOnly cfg.strict.text r.seg) = false := by
  rw [releaseLoop, List.mem_filterMap] at hr
  obtain ⟨⟨s, i⟩, -, hr⟩ := hr
  dsimp only at hr
  split at hr
  · cases hr
  · next hpass =>
      injection hr with hr
      rw [← hr]
      simpa using hpass

theorem strictUpdate_commits (fullNorm : PyStr) (effSeq : Int) (force : Bool) {h : Handler σ}
    (hlen : h.commitQueue.length ≤ commitQueueSize) :
    (∃ new, Commits h new (strictUpdate cfg fullNorm effSeq force h)) ∧
      (strictUpdate cfg fullNorm effSeq force h).reader = h.reader ∧
        (strictUpdate cfg fullNorm effSeq force h).releases = h.releases := by
  rw [strictUpdate]
  generalize hr : strictCollectAndDispatch cfg.strict fullNorm effSeq force h.stream.strict = r
  obtain ⟨strict, released⟩ := r
  rw [strictCollectAndDispatch] at hr
  obtain ⟨hstrict, hloop⟩ := Prod.mk.inj hr
  have hreleased : ∀ item ∈ released.map fun r => (r.enSeq, r.seg),
      (item.2.isEmpty || isPunctOnly cfg.strict.text item.2) = false := by
    intro item hitem
    obtain ⟨r, hmem, rfl⟩ := List.mem_map.mp hitem
    rw [← hloop] at hmem
    exact released_enqueueable cfg hmem
  let h₁ : Handler σ := { h with
    stream := { h.stream with strict }
    passed := h.passed ++ released.map fun r => (fullNorm, r) }
  have hqueue := enqueueAll_queued cfg hreleased h₁ hlen
  obtain ⟨queue, hframe⟩ := enqueueAll_frame cfg (released.map fun r => (r.enSeq, r.seg)) h₁
  show (∃ new, Commits h new (List.foldl (enqueueCommitSegment cfg) h₁ _)) ∧
    (List.foldl (enqueueCommitSegment cfg) h₁ _).reader = h.reader ∧
      (List.foldl (enqueueCommitSegment cfg) h₁ _).releases = h.releases
  rw [hframe] at hqueue ⊢
  refine ⟨⟨released.map Released.seg, ?_, ?_⟩, rfl, rfl⟩
  · show strict.committedSentences = _
    rw [← hstrict, ← hloop]
    rfl
  · rw [hqueue, List.length_map, List.length_map, List.map_map]
    rfl

theorem Commits.same {new : List PyStr} {h₁ h₂ h₃ : Handler σ} (hc : Commits h₁ new h₂)
    (hs : SameQueue h₂ h₃) : Commits h₁ new h₃ where
  committed := hs.committed.trans hc.committed
  queued := by
    rw [Handler.queued, hs.queue]
    exact hc.queued

theorem commits_none (hqueue : h'.commitQueue = h.commitQueue)
    (hcommitted : h'.committed = h.committed) (hlen : h.commitQueue.length ≤ commitQueueSize) :
    Commits h [] h' where
  committed := by rw [hcommitted, List.append_nil]
  queued := by
    have hnone : overflow h.commitQueue.length 0 = 0 := by
      rw [overflow]
      omega
    rw [queued, hqueue, List.append_nil, List.length_nil, hnone, List.drop_zero]
    rfl

/-- In strict mode an update commits and enqueues some sentences. -/
theorem processEnUpdate_updated (hmode : cfg.strictStableSentenceOnly = true) (fullNorm : PyStr)
    (effSeq : Int) (tMs : Option Int) (force schedule : Bool) (wallMs : Int) {h : Handler σ}
    (hlen : h.commitQueue.length ≤ commitQueueSize) :
    Updated h (processEnUpdate cfg fullNorm effSeq tMs force schedule wallMs h) := by
  obtain ⟨⟨new, hnew⟩, hreader, hreleases⟩ := strictUpdate_commits cfg fullNorm effSeq force hlen
  have hk : (if schedule then Cont.schedule fullNorm effSeq else .done).Strict := by
    split <;> trivial
  rw [processEnUpdate, if_pos hmode]
  dsimp only
  split
  · obtain ⟨hsame, hconts⟩ := orWait_same cfg wallMs hk
      (invalidateAndClearDraft cfg (some effSeq) (strictUpdate cfg fullNorm effSeq force h))
    have hall := (invalidateAndClearDraft_same cfg (some effSeq)
      (strictUpdate cfg fullNorm effSeq force h)).trans hsame
    exact ⟨⟨new, hnew.same hall⟩, hall.reader.trans hreader, hall.releases.trans hreleases, hconts⟩
  · have hall := resume_same cfg wallMs hk (strictUpdate cfg fullNorm effSeq force h)
    exact ⟨⟨new, hnew.same hall⟩, hall.reader.trans hreader, hall.releases.trans hreleases,
      fun k' hk' => absurd hk' (Option.not_mem_none k')⟩

theorem Updated.none (hlen : h.commitQueue.length ≤ commitQueueSize) : Updated h (h, none) where
  commits := ⟨[], commits_none rfl rfl hlen⟩
  reader := rfl
  releases := rfl
  conts := nofun

theorem receiveUpdate_updated (hmode : cfg.strictStableSentenceOnly = true) (msg : InMsg)
    (clocks : Clocks) {h : Handler σ} (hlen : h.commitQueue.length ≤ commitQueueSize) :
    Updated h (receiveUpdate cfg msg clocks h) := by
  rw [receiveUpdate]
  split
  · exact .none hlen
  · obtain ⟨-, -, hstrict, -⟩ := nextEffectiveEnSeq_keeps msg.seq h.stream
    generalize nextEffectiveEnSeq msg.seq h.stream = next at hstrict
    obtain ⟨stream, effSeq⟩ := next
    let h₁ : Handler σ := { h with stream := { stream with
      rawFull := normSpaces cfg.strict.text (updateText msg stream.rawFull)
      rawEffSeq := effSeq
      lastRxMono := clocks.mono } }
    have hcommitted : h₁.committed = h.committed := congrArg StrictState.committedSentences hstrict
    have hupdate := processEnUpdate_updated cfg hmode h₁.stream.rawFull effSeq msg.tMs false true
      clocks.wallMs (h := h₁) hlen
    dsimp only
    generalize processEnUpdate cfg h₁.stream.rawFull effSeq msg.tMs false true clocks.wallMs h₁ = r
      at hupdate
    obtain ⟨new, hnew⟩ := hupdate.commits
    refine ⟨⟨new, ?_, hnew.queued⟩, hupdate.reader, hupdate.releases, hupdate.conts⟩
    rw [← hcommitted]
    exact hnew.committed

theorem release_updated (hmode : cfg.strictStableSentenceOnly = true) (job : Job)
    (clocks : Clocks) {h : Handler σ} (hlen : h.commitQueue.length ≤ commitQueueSize) :
    Updated h (release cfg job clocks h) := by
  rw [release]
  split
  · exact .none hlen
  · exact processEnUpdate_updated cfg hmode job.rawSnapshot job.effSeq none true false
      clocks.wallMs hlen

theorem receive_updated (hmode : cfg.strictStableSentenceOnly = true) {msg : InMsg}
    (hmsg : msg.mtype ≠ .reset ∧ msg.mtype ≠ .baseline) (clocks : Clocks) {h : Handler σ}
    (hlen : h.commitQueue.length ≤ commitQueueSize) : Updated h (receive cfg msg clocks h) := by
  cases hm : msg.mtype with
  | reset => exact absurd hm hmsg.1
  | baseline => exact absurd hm hmsg.2
  | stable | patch =>
      simp only [receive, hm]
      exact receiveUpdate_updated cfg hmode msg clocks hlen
  | other =>
      simp only [receive, hm]
      exact .none hlen

/-! ## Steps -/

/-- No operation of the mode that is not strict waits for a send. -/
structure StrictConts (h : Handler σ) : Prop where
  reader : ∀ k ∈ h.reader, k.Strict
  releases : ∀ k ∈ h.releases, k.Strict

/-- No message that begins an epoch. -/
def Label.Updates : Label → Prop
  | .receive msg _ => msg.mtype ≠ .reset ∧ msg.mtype ≠ .baseline
  | _ => True

theorem emitCommits_same (todo : List (Segment × PyStr)) (h : Handler σ) :
    SameQueue h (emitCommits todo h) := by
  rcases emitCommits_cases todo h with hidle | ⟨seg, vi, rest, -, hsend⟩
  · rw [hidle]
    exact ⟨rfl, rfl, rfl, rfl⟩
  · rw [hsend]
    exact ⟨rfl, rfl, rfl, rfl⟩

theorem commitResume_same (h : Handler σ) : SameQueue h (commitResume cfg h) := by
  rw [commitResume]
  split
  · split
    · exact ⟨rfl, rfl, rfl, rfl⟩
    · exact emitCommits_same _ h
  · exact emitCommits_same _ h
  · exact .refl h
  · exact .refl h

theorem sendDraftClear_same (enSeq : Option Int) (reqId : Nat) (h : Handler σ) :
    SameQueue h (sendDraftClear cfg enSeq reqId h).1 := by
  rw [sendDraftClear]
  split <;> exact ⟨rfl, rfl, rfl, rfl⟩

theorem draftTake_same (item : DraftItem) (h : Handler σ) :
    SameQueue h (draftTake cfg item h) := by
  simp only [draftTake]
  split
  · exact .refl h
  · split
    · exact { sendDraftClear_same cfg (some item.enSeq) item.reqId h with }
    · exact ⟨rfl, rfl, rfl, rfl⟩

theorem draftTranslated_same (item : DraftItem) (vi : PyStr) (h : Handler σ) :
    SameQueue h (draftTranslated cfg item vi h) := by
  simp only [draftTranslated]
  split
  · exact ⟨rfl, rfl, rfl, rfl⟩
  · split
    · exact { sendDraftClear_same cfg (some item.enSeq) item.reqId h with }
    · exact ⟨rfl, rfl, rfl, rfl⟩

end Functions

/-- What a step of strict mode does to the queue. -/
inductive QueueEffect (cfg : HandlerConfig σ) (h : Handler σ) : Label → Handler σ → Prop
  | taken (h₁ : Handler σ) : h₁.committed = h.committed →
      h₁.commitQueue = (takeBatch cfg h.commitQueue).2 → QueueEffect cfg h .commitTake h₁
  | commits (l : Label) (new : List PyStr) (h₁ : Handler σ) : l ≠ .commitTake →
      Commits h new h₁ → QueueEffect cfg h l h₁

variable {cfg : HandlerConfig σ}

theorem StrictConts.same (hconts : StrictConts h) (hs : SameQueue h h') : StrictConts h' where
  reader := by rw [hs.reader]; exact hconts.reader
  releases := by rw [hs.releases]; exact hconts.releases

/-- A step of strict mode takes the head of the queue, or commits and enqueues. -/
theorem step_queueEffect (hmode : cfg.strictStableSentenceOnly = true)
    (hlen : h.commitQueue.length ≤ commitQueueSize) (hconts : StrictConts h) {l : Label}
    (hl : l.Updates) (hstep : step cfg h l = some h') :
    StrictConts h' ∧ QueueEffect cfg h l h' := by
  have hsame : ∀ {h₁ : Handler σ}, l ≠ .commitTake → SameQueue h h₁ →
      StrictConts h₁ ∧ QueueEffect cfg h l h₁ := fun hne hs =>
    ⟨hconts.same hs, .commits _ _ _ hne (commits_none hs.queue hs.committed hlen)⟩
  cases step_takes hstep with
  | @receive msg clocks _ =>
      have hupdate := receive_updated cfg hmode hl clocks hlen
      obtain ⟨new, hnew⟩ := hupdate.commits
      refine ⟨⟨hupdate.conts, ?_⟩, .commits _ _ _ nofun ⟨hnew.committed, hnew.queued⟩⟩
      show ∀ k ∈ (receive cfg msg clocks h).1.releases, k.Strict
      rw [hupdate.releases]
      exact hconts.releases
  | @readerResume wallMs k hk =>
      have hs := resume_same cfg wallMs (hconts.reader k hk) { h with reader := none }
      refine ⟨⟨?_, ?_⟩, .commits _ _ _ nofun (commits_none hs.queue hs.committed hlen)⟩
      · rw [hs.reader]
        exact nofun
      · rw [hs.releases]
        exact hconts.releases
  | @release i clocks job _ =>
      have hupdate := release_updated cfg hmode job clocks
        (h := { h with jobs := h.jobs.eraseIdx i }) hlen
      obtain ⟨new, hnew⟩ := hupdate.commits
      refine ⟨⟨?_, fun k hk => ?_⟩, .commits _ _ _ nofun ⟨hnew.committed, hnew.queued⟩⟩
      · show ∀ k ∈ (release cfg job clocks _).1.reader, k.Strict
        rw [hupdate.reader]
        exact hconts.reader
      · rcases List.mem_append.mp hk with hk | hk
        · rw [hupdate.releases] at hk
          exact hconts.releases k hk
        · exact hupdate.conts k (Option.mem_toList.mp hk)
  | @releaseResume i wallMs k hk =>
      have hs := resume_same cfg wallMs (hconts.releases k (List.mem_of_getElem? hk))
        { h with releases := h.releases.eraseIdx i }
      refine ⟨⟨?_, ?_⟩, .commits _ _ _ nofun (commits_none hs.queue hs.committed hlen)⟩
      · rw [hs.reader]
        exact hconts.reader
      · rw [hs.releases]
        exact fun k hk => hconts.releases k (List.mem_of_mem_eraseIdx hk)
  | commitTake => exact ⟨⟨hconts.reader, hconts.releases⟩, .taken _ rfl rfl⟩
  | commitTranslated => exact hsame nofun (emitCommits_same _ h)
  | commitSent | deltaSent => exact hsame nofun (commitResume_same cfg h)
  | draftTake => exact hsame nofun { draftTake_same cfg _ { h with draftQueue := none } with }
  | draftTranslated => exact hsame nofun (draftTranslated_same cfg _ _ h)
  | commitFailed | draftFailed | draftResume => exact hsame nofun ⟨rfl, rfl, rfl, rfl⟩

/-! ## Runs -/

/-- What is taken and what waits are the committed sentences in order, less those
that were pushed out. -/
structure Delivered (w : Watched σ) : Prop where
  order : (w.taken ++ w.handler.queued).Sublist w.handler.committed
  count : w.handler.committed.length =
    w.taken.length + w.handler.commitQueue.length + w.pushedOut
  bound : w.handler.commitQueue.length ≤ commitQueueSize

theorem Delivered.step (hmode : cfg.strictStableSentenceOnly = true) {w w' : Watched σ} {l : Label}
    (hd : Delivered w) (hconts : StrictConts w.handler) (hl : l.Updates)
    (hstep : w.step cfg l = some w') : Delivered w' ∧ StrictConts w'.handler := by
  rw [Watched.step, Option.map_eq_some_iff] at hstep
  obtain ⟨h', hh, hw⟩ := hstep
  obtain ⟨hconts', heffect⟩ := step_queueEffect hmode hd.bound hconts hl hh
  cases heffect with
  | taken _ hcommitted hqueue =>
      dsimp only at hw
      subst hw
      have hsplit : (takeBatch cfg w.handler.commitQueue).1 ++ h'.commitQueue =
          w.handler.commitQueue := by
        rw [hqueue]
        exact List.take_append_drop ..
      have hlen := congrArg List.length hsplit
      rw [List.length_append] at hlen
      refine ⟨⟨?_, ?_, ?_⟩, hconts'⟩
      · show (w.taken ++ _ ++ h'.queued).Sublist h'.committed
        rw [List.append_assoc, queued, ← List.map_append, hsplit, hcommitted]
        exact hd.order
      · show h'.committed.length = (w.taken ++ _).length + h'.commitQueue.length + w.pushedOut
        rw [hcommitted, hd.count, List.length_append, List.length_map]
        omega
      · show h'.commitQueue.length ≤ commitQueueSize
        have hbound := hd.bound
        omega
  | commits _ new _ hne hcommits =>
      have hlen := congrArg List.length hcommits.queued
      have hgrown : h'.committed.length = w.handler.committed.length + new.length := by
        rw [hcommits.committed, List.length_append]
      rw [length_queued, List.length_drop, List.length_append, length_queued] at hlen
      have hwatch : w' = ⟨h', w.taken, w.pushedOut + overflow w.handler.commitQueue.length
          (h'.committed.length - w.handler.committed.length)⟩ := by
        rw [← hw]
        cases l with
        | commitTake => exact absurd rfl hne
        | _ => rfl
      subst hwatch
      have hbound := hd.bound
      have hcount := hd.count
      refine ⟨⟨?_, ?_, ?_⟩, hconts'⟩
      · show (w.taken ++ h'.queued).Sublist h'.committed
        rw [hcommits.queued, hcommits.committed]
        have hdrop : (w.taken ++ (w.handler.queued ++ new).drop _).Sublist
            (w.taken ++ (w.handler.queued ++ new)) :=
          (List.drop_sublist (overflow w.handler.commitQueue.length new.length) _).append_left _
        refine hdrop.trans ?_
        rw [← List.append_assoc]
        exact hd.order.append_right new
      · dsimp only
        rw [hgrown, Nat.add_sub_cancel_left, overflow]
        rw [overflow] at hlen
        omega
      · dsimp only
        rw [overflow] at hlen
        omega

/-- What was taken and what waits are the committed sentences, in order, but for
those pushed out: one for each commit that found the queue full. -/
theorem committed_delivered (cfg : HandlerConfig σ) (hmode : cfg.strictStableSentenceOnly = true)
    (seg : σ) (ls : List Label) (hls : ∀ l ∈ ls, l.Updates) :
    ∀ w ∈ run (Watched.step cfg) (.init seg) ls,
      (w.taken ++ w.handler.queued).Sublist w.handler.committed ∧
        w.handler.committed.length = (w.taken ++ w.handler.queued).length + w.pushedOut ∧
          (w.pushedOut = 0 → w.taken ++ w.handler.queued = w.handler.committed) := by
  intro w hrun
  have hinit : Delivered (Watched.init seg) ∧ StrictConts (Watched.init seg).handler :=
    ⟨⟨.slnil, rfl, Nat.zero_le _⟩, ⟨nofun, nofun⟩⟩
  have hstep : ∀ w l w', Delivered w ∧ StrictConts w.handler → l.Updates →
      Watched.step cfg w l = some w' → Delivered w' ∧ StrictConts w'.handler :=
    fun w l w' hd hl h => hd.1.step hmode hd.2 hl h
  have hd := (run_guarded hstep hinit (.of_labels hls) hrun).1
  have hcount : w.handler.committed.length =
      (w.taken ++ w.handler.queued).length + w.pushedOut := by
    rw [hd.count, List.length_append, length_queued]
  refine ⟨hd.order, hcount, fun hnone => hd.order.eq_of_length ?_⟩
  omega

instance : (l : Label) → Decidable l.Updates
  | .receive msg _ => inferInstanceAs (Decidable (msg.mtype ≠ .reset ∧ msg.mtype ≠ .baseline))
  | .readerResume _ | .release .. | .releaseResume .. | .commitTake | .commitTranslated _
  | .commitFailed | .commitResume | .draftTake | .draftTranslated _ | .draftFailed
  | .draftResume => isTrue trivial

/-- Two stable texts with the same three sentences. -/
def twoTexts : List Label :=
  [.receive (message .stable 1 "Hi. Yo. No.") ⟨1, 1⟩,
    .receive (message .stable 2 "Hi. Yo. No.") ⟨2, 2⟩, .commitTake]

theorem committed_delivered_default :
    ∃ w ∈ run (Watched.step defaultHandler) (.init ()) twoTexts,
      (w.taken ++ w.handler.queued).Sublist w.handler.committed ∧
        w.handler.committed.length = (w.taken ++ w.handler.queued).length + w.pushedOut ∧
          (w.pushedOut = 0 → w.taken ++ w.handler.queued = w.handler.committed) := by
  have hsome : (run (Watched.step defaultHandler) (.init ()) twoTexts).isSome := by decide
  obtain ⟨w, hw⟩ := Option.isSome_iff_exists.mp hsome
  exact ⟨w, hw, committed_delivered defaultHandler rfl () twoTexts (by decide) w hw⟩

/-- After the run, what was taken is where the committed sentences begin. -/
def TakesInOrder (cfg : HandlerConfig σ) (seg : σ) (ls : List Label) : Prop :=
  ∀ w ∈ run (Watched.step cfg) (.init seg) ls, w.taken <+: w.handler.committed

instance (seg : σ) (ls : List Label) : Decidable (TakesInOrder cfg seg ls) :=
  inferInstanceAs (Decidable (∀ w ∈ run (Watched.step cfg) (.init seg) ls, _))

/-- A text of one sentence and `n` others. -/
def crowd (seq : Int) (n : Nat) : InMsg :=
  ⟨.stable, some seq, "a.".toList ++ (List.replicate n " b.".toList).flatten, [], none⟩

/-- Sixty-six sentences come at once: one more than the queue holds is committed,
and the first is pushed out. -/
theorem committed_pushed_out : ¬ TakesInOrder defaultHandler ()
    [.receive (crowd 1 65) ⟨1, 1⟩, .receive (crowd 2 65) ⟨2, 2⟩, .commitTake] := by
  decide +kernel

end Handler
end

end VTranser.Translator

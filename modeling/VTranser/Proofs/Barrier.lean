import VTranser.Proofs.Connection

/-!
# When resets and baselines are barriers

A reset or a baseline clears the stream state and the draft queue. The commit
queue is another object and stays, and so does what the commit worker holds: a
batch that is being translated, the rest of one that is being sent, the delta of
a commit, and a message that waits for the lock. All of it is written later, in
the new epoch, and the delta takes the number that the state has by then.

So these messages are barriers exactly as far as they arrive when nothing is
queued, owed or waiting to be written. Between two of them all of this is of the
current epoch, and the commit that waits for its delta is the last one.
-/

namespace VTranser.Translator

open Run Handler

section

variable {σ : Type} (cfg : HandlerConfig σ)

/-- A commit or delta is of the current epoch, and a delta has the number of its
commit. -/
def SentOut.Current (o : SentOut) : Prop :=
  match o.out with
  | .viCommit .. => o.textEpoch = o.epoch
  | .viDelta _ seq _ => o.textEpoch = o.epoch ∧ seq = o.commitSeq
  | .viDraft .. => True

namespace Message

/-- A commit or delta may be written in the epoch of its text, a delta with the
number of its commit. -/
def Current (m : Message) (epoch : Nat) : Prop :=
  match m with
  | .out ⟨.viCommit .., textEpoch, _, _⟩ => textEpoch = epoch
  | .out ⟨.viDelta _ seq _, textEpoch, _, commitSeq⟩ => textEpoch = epoch ∧ seq = commitSeq
  | .out ⟨.viDraft .., _, _, _⟩ | .notice _ => True

def isCommit : Message → Bool
  | .out ⟨.viCommit .., _, _, _⟩ | .out ⟨.viDelta .., _, _, _⟩ => true
  | .out ⟨.viDraft .., _, _, _⟩ | .notice _ => false

instance : (m : Message) → (epoch : Nat) → Decidable (m.Current epoch)
  | .out ⟨.viCommit .., textEpoch, _, _⟩, epoch => inferInstanceAs (Decidable (textEpoch = epoch))
  | .out ⟨.viDelta _ seq _, textEpoch, _, commitSeq⟩, epoch =>
      inferInstanceAs (Decidable (textEpoch = epoch ∧ seq = commitSeq))
  | .out ⟨.viDraft .., _, _, _⟩, _ | .notice _, _ => isTrue trivial

end Message

/-- Nothing of an earlier epoch is written, however the coroutines take turns. -/
def BarriersHold (seg : σ) (ls : List Connection.Label) : Prop :=
  ∀ c ∈ run (Connection.step cfg) (.init seg) ls, ∀ m ∈ c.lock.done, m.1.Current m.2

instance (seg : σ) (ls : List Connection.Label) : Decidable (BarriersHold cfg seg ls) :=
  inferInstanceAs (Decidable (∀ c ∈ run (Connection.step cfg) (.init seg) ls,
    ∀ m ∈ c.lock.done, m.1.Current m.2))

/-- The segments of which the commit worker has still to call for a message. -/
def owed : CommitWorker → List Segment
  | .idle => []
  | .translating batch => batch
  | .commitSent _ seg _ rest =>
      if cfg.sendViDeltaCompat then seg :: rest.map Prod.fst else rest.map Prod.fst
  | .deltaSent rest => rest.map Prod.fst

/-- Nothing is queued or owed, or nothing is ever translated. -/
def Worked (h : Handler σ) : Prop :=
  cfg.mtUnavailable = true ∨ h.commitQueue = [] ∧ owed cfg h.commitWorker = []

/-- Besides, no commit and no delta waits for the lock. -/
def Drained (c : Connection σ) : Prop :=
  cfg.mtUnavailable = true ∨ c.handler.commitQueue = [] ∧ owed cfg c.handler.commitWorker = [] ∧
    ∀ p ∈ c.lock.waiting, p.2.isCommit = false

def BeginsEpoch : Handler.Label → Prop
  | .receive msg _ => msg.mtype = .reset ∨ msg.mtype = .baseline
  | _ => False

/-- A message that begins an epoch finds the commits drained. -/
def DrainedFirst (c : Connection σ) : Connection.Label → Prop
  | .go l _ => BeginsEpoch l → Drained cfg c
  | .notified _ | .grant => True

instance (c : Connection σ) : Decidable (Drained cfg c) :=
  inferInstanceAs (Decidable (_ ∨ _ = _ ∧ _ = _ ∧ ∀ p ∈ c.lock.waiting, p.2.isCommit = false))

instance : (l : Handler.Label) → Decidable (BeginsEpoch l)
  | .receive msg _ => inferInstanceAs (Decidable (msg.mtype = .reset ∨ msg.mtype = .baseline))
  | .readerResume _ | .release _ _ | .releaseResume _ _ | .commitTake | .commitTranslated _
  | .commitFailed | .commitResume | .draftTake | .draftTranslated _ | .draftFailed
  | .draftResume => isFalse id

instance (c : Connection σ) : (l : Connection.Label) → Decidable (DrainedFirst cfg c l)
  | .go l _ => inferInstanceAs (Decidable (BeginsEpoch l → Drained cfg c))
  | .notified _ | .grant => isTrue trivial

/-- Everything queued and owed is of the current epoch. -/
structure OneEpoch (h : Handler σ) : Prop where
  worker : cfg.mtUnavailable = true → h.commitWorker = .idle
  queue : cfg.mtUnavailable = false → ∀ s ∈ h.commitQueue, s.epoch = h.epoch
  owes : ∀ s ∈ owed cfg h.commitWorker, s.epoch = h.epoch
  delta : ∀ app seg seq rest, h.commitWorker = .commitSent app seg seq rest →
    cfg.sendViDeltaCompat = true → seq = h.stream.viSeq
  sent : ∀ o ∈ h.sent, o.Current

/-- A message that may be written; without a translator it is no commit. -/
def MayWrite (m : Message) (epoch : Nat) : Prop :=
  m.Current epoch ∧ (cfg.mtUnavailable = true → m.isCommit = false)

/-- And so is what waits for the lock. -/
structure InEpoch (c : Connection σ) : Prop where
  handler : OneEpoch cfg c.handler
  lock : c.lock.Stamped (MayWrite cfg) c.handler.epoch

variable {cfg}

theorem Out.IsDraft.current {o : SentOut} (h : o.out.IsDraft) : o.Current := by
  rw [SentOut.Current]
  cases ho : o.out with
  | viCommit => rw [ho] at h; exact h.elim
  | viDelta => rw [ho] at h; exact h.elim
  | viDraft => trivial

theorem OneEpoch.init (seg : σ) : OneEpoch cfg (Handler.init seg) where
  worker _ := rfl
  queue _ := by simp [Handler.init]
  owes := by simp [Handler.init, owed]
  delta := nofun
  sent := by simp [Handler.init]

theorem OneEpoch.beside {h h' : Handler σ} {new : List (PyStr × Released)} (hi : OneEpoch cfg h)
    (hb : Beside h new h') : OneEpoch cfg h' where
  worker hmt := by rw [hb.worker]; exact hi.worker hmt
  queue hmt s hs := by
    rw [hb.epoch]
    rcases hb.queue s hs with hs | hs
    · exact hi.queue hmt s hs
    · exact hs
  owes := by rw [hb.worker, hb.epoch]; exact hi.owes
  delta := by rw [hb.worker, hb.viSeq]; exact hi.delta
  sent o ho := by
    obtain ⟨drafts, hsent, hdrafts⟩ := hb.sent
    rw [hsent] at ho
    rcases List.mem_append.mp ho with ho | ho
    · exact hi.sent o ho
    · exact (hdrafts o ho).current

/-- A worker that has worked off everything stays in step when an epoch begins. -/
theorem OneEpoch.begins {h h' : Handler σ} (hi : OneEpoch cfg h) (hd : Worked cfg h)
    (hb : Begins h h') : OneEpoch cfg h' := by
  have howed : owed cfg h.commitWorker = [] := by
    rcases hd with hmt | hd
    · rw [hi.worker hmt]
      rfl
    · exact hd.2
  refine ⟨?_, ?_, ?_, ?_, ?_⟩
  · rw [hb.worker]
    exact hi.worker
  · intro hmt
    rcases hd with hmt' | hd
    · rw [hmt] at hmt'
      cases hmt'
    · rw [hb.queue, hd.1]
      simp
  · rw [hb.worker, howed]
    simp
  · intro app seg seq rest hworker hcompat
    rw [hb.worker] at hworker
    rw [hworker, owed, if_pos hcompat] at howed
    cases howed
  · rw [hb.sent]
    exact hi.sent

theorem mem_pairs_epoch {batch : List Segment} {s : Segment} (hs : s ∈ pairs cfg batch) :
    ∃ s' ∈ batch, s.epoch = s'.epoch := by
  rw [pairs] at hs
  obtain ⟨s', hmem, rfl⟩ := List.mem_map.mp (List.mem_filter.mp hs).1
  exact ⟨s', hmem, rfl⟩

theorem OneEpoch.commitTake {h : Handler σ} (hi : OneEpoch cfg h) :
    OneEpoch cfg (commitTake cfg h) := by
  have hqueue : cfg.mtUnavailable = false → ∀ s ∈ (takeBatch cfg h.commitQueue).1,
      s.epoch = h.epoch := fun hmt s hs => hi.queue hmt s (List.mem_of_mem_take hs)
  have hrest : cfg.mtUnavailable = false → ∀ s ∈ (takeBatch cfg h.commitQueue).2,
      s.epoch = h.epoch := fun hmt s hs => hi.queue hmt s (List.mem_of_mem_drop hs)
  by_cases hidle : (pairs cfg (takeBatch cfg h.commitQueue).1).isEmpty || cfg.mtUnavailable
  · have hworker : (Handler.commitTake cfg h).commitWorker = .idle := if_pos hidle
    exact ⟨fun _ => hworker, hrest, by rw [hworker]; simp [owed],
      by rw [hworker]; nofun, hi.sent⟩
  · have hworker : (Handler.commitTake cfg h).commitWorker =
        .translating (pairs cfg (takeBatch cfg h.commitQueue).1) := if_neg hidle
    have hmt : cfg.mtUnavailable = false := by
      rw [Bool.not_eq_true, Bool.or_eq_false_iff] at hidle
      exact hidle.2
    refine ⟨fun hmt' => ?_, hrest, ?_, by rw [hworker]; nofun, hi.sent⟩
    · rw [hmt] at hmt'
      cases hmt'
    · rw [hworker]
      intro s hs
      obtain ⟨s', hs', hepoch⟩ := mem_pairs_epoch hs
      exact hepoch.trans (hqueue hmt s' hs')

theorem OneEpoch.emitCommits {h : Handler σ} (hi : OneEpoch cfg h)
    (hmt : cfg.mtUnavailable = false) {todo : List (Segment × PyStr)}
    (htodo : ∀ p ∈ todo, p.1.epoch = h.epoch) : OneEpoch cfg (emitCommits todo h) := by
  rcases emitCommits_cases todo h with heq | ⟨seg, vi, rest, hsuffix, heq⟩
  · rw [heq]
    exact ⟨fun _ => rfl, hi.queue, by simp [owed], nofun, hi.sent⟩
  · have hseg : seg.epoch = h.epoch := htodo (seg, vi) (hsuffix.subset (by simp))
    have hrest : ∀ p ∈ rest, p.1.epoch = h.epoch := fun p hp =>
      htodo p (hsuffix.subset (by simp [hp]))
    rw [heq]
    refine ⟨fun hmt' => ?_, hi.queue, ?_, ?_, ?_⟩
    · rw [hmt] at hmt'
      cases hmt'
    · intro s hs
      have hs : s = seg ∨ ∃ p ∈ rest, p.1 = s := by
        simp only [sendCommit, send, owed] at hs
        split at hs <;> simp_all
      rcases hs with rfl | ⟨p, hp, rfl⟩
      · exact hseg
      · exact hrest p hp
    · intro app' seg' seq' rest' hworker _
      simp only [sendCommit, send, CommitWorker.commitSent.injEq] at hworker
      exact hworker.2.2.1.symm
    · intro o ho
      rcases List.mem_append.mp ho with ho | ho
      · exact hi.sent o ho
      · rw [List.mem_singleton.mp ho]
        exact hseg

theorem OneEpoch.step {h h' : Handler σ} {l : Handler.Label} (hi : OneEpoch cfg h)
    (hd : BeginsEpoch l → Worked cfg h) (hstep : step cfg h l = some h') : OneEpoch cfg h' := by
  -- A worker that holds something shows that there is a translator.
  have havailable : h.commitWorker ≠ .idle → cfg.mtUnavailable = false := fun hne => by
    rw [Bool.eq_false_iff]
    exact fun hmt => hne (hi.worker hmt)
  cases step_effect hstep with
  | beside _ hb => exact hi.beside hb
  | released hb => exact hi.beside hb
  | @updated msg clocks h' _ _ hb =>
      obtain ⟨hseq, -, -⟩ := updateStream_keeps cfg msg clocks h.stream
      generalize updateStream cfg msg clocks h.stream = stream at hseq hb
      have hnext : OneEpoch cfg { h with stream } :=
        ⟨hi.worker, hi.queue, hi.owes, fun app seg seq rest hworker hcompat =>
          (hi.delta app seg seq rest hworker hcompat).trans hseq.symm, hi.sent⟩
      exact hnext.beside hb
  | reset hm hbegins _ hb => exact (hi.begins (hd (.inl hm)) hbegins).beside hb
  | baseline hm hbegins _ _ _ hb => exact (hi.begins (hd (.inr hm)) hbegins).beside hb
  | commitTake => exact hi.commitTake
  | @commitTranslated batch vis hworker =>
      refine hi.emitCommits (havailable (by rw [hworker]; nofun)) fun p hp => ?_
      have howed := hi.owes
      rw [hworker] at howed
      exact howed p.1 (List.of_mem_zip hp).1
  | commitFailed =>
      exact ⟨fun _ => rfl, hi.queue, by simp [owed], nofun, hi.sent⟩
  | @deltaSent app seg seq rest hcompat hworker =>
      have howed := hi.owes
      rw [hworker, owed, if_pos hcompat] at howed
      refine ⟨fun hmt => ?_, hi.queue, fun s hs => howed s (List.mem_cons_of_mem _ hs), nofun,
        fun o ho => ?_⟩
      · rw [havailable (by rw [hworker]; nofun)] at hmt
        cases hmt
      · rcases List.mem_append.mp ho with ho | ho
        · exact hi.sent o ho
        · rw [List.mem_singleton.mp ho]
          exact ⟨howed seg (by simp), (hi.delta app seg seq rest hworker hcompat).symm⟩
  | @commitsGoOn rest hworker =>
      have howed := hi.owes
      have hne : h.commitWorker ≠ .idle := by
        rcases hworker with hworker | ⟨-, app, seg, seq, hworker⟩ <;>
          · rw [hworker]
            nofun
      refine hi.emitCommits (havailable hne) fun p hp => howed p.1 ?_
      rcases hworker with hworker | ⟨hcompat, app, seg, seq, hworker⟩
      · rw [hworker]
        exact List.mem_map_of_mem hp
      · rw [hworker, owed, hcompat]
        exact List.mem_map_of_mem hp

/-! ## The lock -/

theorem Message.current_of_isCommit {m : Message} (h : m.isCommit = false) (epoch : Nat) :
    m.Current epoch := by
  rcases m with ⟨out, _, _, _⟩ | n
  · cases out with
    | viCommit => cases h
    | viDelta => cases h
    | viDraft => trivial
  · trivial

/-- What is called for may be written now. -/
theorem SentOut.Current.message {o : SentOut} {epoch : Nat} (h : o.Current)
    (hepoch : o.out.IsDraft ∨ o.epoch = epoch) : (Message.out o).Current epoch := by
  obtain ⟨out, textEpoch, calledIn, commitSeq⟩ := o
  cases out with
  | viCommit =>
      rcases hepoch with hdraft | rfl
      · exact hdraft.elim
      · exact h
  | viDelta =>
      rcases hepoch with hdraft | rfl
      · exact hdraft.elim
      · exact h
  | viDraft => trivial

theorem Out.IsDraft.not_isCommit {o : SentOut} (h : o.out.IsDraft) :
    (Message.out o).isCommit = false := by
  obtain ⟨out, _, _, _⟩ := o
  cases out with
  | viCommit => exact h.elim
  | viDelta => exact h.elim
  | viDraft => rfl

theorem InEpoch.init (seg : σ) : InEpoch cfg (Connection.init seg) where
  handler := .init seg
  lock := by
    have hempty : (FairLock.init : FairLock Sender Message Nat).Stamped (MayWrite cfg) 0 :=
      FairLock.stamped_init
    exact hempty.call .reader ⟨trivial, fun _ => rfl⟩

theorem emitCommits_epoch (todo : List (Segment × PyStr)) (h : Handler σ) :
    (emitCommits todo h).epoch = h.epoch := by
  rcases emitCommits_cases todo h with hidle | ⟨seg, vi, rest, -, hsend⟩
  · rw [hidle]
  · rw [hsend]
    rfl

theorem epoch_step {h h' : Handler σ} {l : Handler.Label} (hl : ¬ BeginsEpoch l)
    (hstep : step cfg h l = some h') : h'.epoch = h.epoch := by
  cases step_effect hstep with
  | beside _ hb => exact hb.epoch
  | released hb => exact hb.epoch
  | updated _ _ hb => exact hb.epoch
  | reset hm => exact absurd (.inl hm) hl
  | baseline hm => exact absurd (.inr hm) hl
  | commitTake => rfl
  | commitFailed => rfl
  | deltaSent => rfl
  | commitTranslated => exact emitCommits_epoch _ h
  | commitsGoOn => exact emitCommits_epoch _ h

theorem InEpoch.step {c c' : Connection σ} {l : Connection.Label} (hi : InEpoch cfg c)
    (hd : DrainedFirst cfg c l) (hstep : c.step cfg l = some c') : InEpoch cfg c' := by
  have hnotice : ∀ n epoch, MayWrite cfg (.notice n) epoch := fun _ _ => ⟨trivial, fun _ => rfl⟩
  cases Connection.step_takes hstep with
  | @go l notices h hh =>
      have hworked : BeginsEpoch l → Worked cfg c.handler := fun hbegins =>
        (hd hbegins).imp_right fun hdrained => ⟨hdrained.1, hdrained.2.1⟩
      have hhandler : OneEpoch cfg h := hi.handler.step hworked hh
      obtain ⟨new, hsent, hnew⟩ := Handler.step_called hh
      obtain ⟨lock, hlock, hcalls⟩ := Connection.calls_goOn l notices hsent
      -- What waits for the lock does so in the new epoch too.
      have hlater : ∀ p ∈ c.lock.waiting, MayWrite cfg p.2 h.epoch := by
        intro p hp
        by_cases hbegins : BeginsEpoch l
        · have hno : p.2.isCommit = false := by
            rcases hd hbegins with hmt | hdrained
            · exact (hi.lock.waiting p hp).2 hmt
            · exact hdrained.2.2 p hp
          exact ⟨Message.current_of_isCommit hno _, fun _ => hno⟩
        · rw [epoch_step hbegins hh]
          exact hi.lock.waiting p hp
      have hstamped : lock.Stamped (MayWrite cfg) h.epoch := by
        rcases hlock with rfl | rfl
        · exact hi.lock.later hlater
        · exact hi.lock.release.later hlater
      have hmay : ∀ o ∈ new, MayWrite cfg (.out o) h.epoch := by
        intro o ho
        have hcurrent : o.Current := hhandler.sent o (hsent ▸ List.mem_append_right _ ho)
        refine ⟨hcurrent.message ((hnew o ho).imp_right And.left), fun hmt => ?_⟩
        rcases hnew o ho with hdraft | ⟨-, hbusy⟩
        · exact hdraft.not_isCommit
        · exact absurd (hi.handler.worker hmt) hbusy
      have hdone := hcalls.stamped (MayWrite cfg) hnotice hmay hstamped
      refine ⟨hcalls.handler ▸ hhandler, ?_⟩
      rw [hcalls.handler]
      exact hdone
  | @notified s n =>
      have hcalls := Connection.calls_noticeOver cfg s n c
      have hnone : ∀ o ∈ ([] : List SentOut), MayWrite cfg (.out o) c.handler.epoch :=
        fun _ ho => absurd ho List.not_mem_nil
      have hdone := hcalls.stamped (MayWrite cfg) hnotice hnone hi.lock
      refine ⟨hcalls.handler ▸ hi.handler, ?_⟩
      rw [hcalls.handler]
      exact hdone
  | grant hgrant => exact ⟨hi.handler, hi.lock.grant hgrant⟩

/-- Resets and baselines are barriers in every run in which each of them finds
nothing queued, owed or waiting for the lock. -/
theorem barriers_hold (cfg : HandlerConfig σ) (seg : σ) (ls : List Connection.Label)
    (hd : Guarded (Connection.step cfg) (DrainedFirst cfg) (.init seg) ls) :
    BarriersHold cfg seg ls := by
  intro c hrun m hm
  have hi : InEpoch cfg c := run_guarded (fun _ _ _ hi hd hs => hi.step hd hs) (.init seg) hd hrun
  exact (hi.lock.done m hm).1

/-- The `hello` is over, and an update repeats a sentence, which enqueues it. -/
def enqueuesHi : List Connection.Label :=
  [.notified .reader, .go (.receive (message .stable 1 "Hi. Yo.") ⟨1, 1⟩) false,
    .go (.receive (message .stable 2 "Hi. Yo.") ⟨2, 2⟩) false]

/-- The commit of it waits for a status of the reader. -/
def waitsForStatus : List Connection.Label :=
  enqueuesHi ++ [.go .commitTake false, .go (.receive (message .stable 3 "Hi. Yo.") ⟨3, 3⟩) true,
    .go (.commitTranslated ["Chào.".toList]) false, .notified .reader, .grant]

theorem barriers_hold_drained :
    let ls := waitsForStatus ++ [.go .commitResume false, .go .commitResume false,
      .go (.receive (message .reset 4 "") ⟨4, 4⟩) false]
    (run (Connection.step defaultHandler) (.init ()) ls).map (fun c => c.lock.done) =
        some [(.notice .hello, 0), (.notice .status, 0),
          (.out ⟨.viCommit "Chào. ".toList 1 2, 0, 0, 1⟩, 0),
          (.out ⟨.viDelta "Chào. ".toList 1 2, 0, 0, 1⟩, 0)] ∧
      BarriersHold defaultHandler () ls :=
  ⟨by decide, barriers_hold _ _ _ (by decide)⟩

/-- The segment waits in the queue during the reset and is written after it. -/
theorem reset_leaves_queue :
    ¬ BarriersHold defaultHandler () (enqueuesHi ++
      [.go (.receive (message .reset 3 "") ⟨3, 3⟩) false, .go .commitTake false,
        .go (.commitTranslated ["Chào.".toList]) false]) := by
  decide

end

end VTranser.Translator

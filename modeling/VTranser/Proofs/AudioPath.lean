import Mathlib.Data.List.Flatten
import VTranser.Proofs.FeedWorker
import VTranser.Proofs.Pcm
import VTranser.Proofs.Worklet

/-!
# From the tab to the recorder

Audio goes from the worklet to the socket, from there to the queue of the server, and
from the queue to the recorder. Each stage may leave some out, and none of them adds
anything or changes the order, but for the silence at the end; so what the recorder is
fed is what was captured, with gaps at the most, and silence. The stages are proved one
by one, and then put together.
-/

namespace VTranser.Server

open Run

variable {α : Type*} {cfg : AudioConfig α}

/-! ## From the queue to the recorder -/

/-- What an item is decoded from. -/
def AudioItem.key (item : AudioItem) : List UInt8 × Int × Option Dtype :=
  (item.buf, item.sr, item.dtype)

/-- The samples of an item, if it can be decoded. -/
def heardKey (cfg : AudioConfig α) (key : List UInt8 × Int × Option Dtype) : List α :=
  ((bytesToF32Auto cfg.lib key.1 key.2.2).bind fun f32 =>
    resampleTo16k cfg.lib cfg.tgtSr f32 key.2.1).getD []

def heard (cfg : AudioConfig α) (item : AudioItem) : List α := heardKey cfg item.key

theorem heard_of_decode {item : AudioItem} {f32 : List α}
    (h : AudioSession.decode cfg item = some f32) : heard cfg item = f32 := by
  have hheard : heard cfg item = (AudioSession.decode cfg item).getD [] := rfl
  rw [hheard, h]
  rfl

namespace AudioQueue

variable {q q' : AudioQueue}

theorem gone_getNowait (q : AudioQueue) : q.gone <+: q.getNowait.gone := by
  rw [getNowait]
  split
  · exact List.prefix_rfl
  · exact List.prefix_rfl
  · exact List.prefix_append ..

theorem gone_get (q : AudioQueue) : q.gone <+: q.get.gone := by
  rw [get]
  split
  · exact List.prefix_rfl
  · exact List.prefix_rfl
  · exact List.prefix_append ..

theorem gone_guard (q : AudioQueue) : q.gone <+: (q.guard cfg).gone := by
  rw [guard]
  split
  · exact gone_getNowait q
  · exact List.prefix_rfl

theorem gone_dropOldestLoop (cap : Int) (n : Nat) (q : AudioQueue) :
    q.gone <+: (dropOldestLoop cap n q).gone := by
  induction n generalizing q with
  | zero => exact List.prefix_rfl
  | succ n ih =>
      rw [dropOldestLoop]
      split
      · exact (gone_getNowait q).trans (ih q.getNowait)
      · exact List.prefix_rfl

theorem gone_put (q : AudioQueue) (item : AudioItem) : q.gone <+: (q.put cfg item).gone := by
  simp only [put, dropOldestUntilUnder]
  split
  · split
    · exact List.prefix_rfl
    · exact gone_dropOldestLoop _ _ { q with
        queue := q.queue ++ [some item]
        queueBytesTotal := q.queueBytesTotal + item.nbytes
        enqueued := q.enqueued ++ [item] }
  · exact List.prefix_rfl

/-- What has left the queue is not forgotten. -/
theorem gone_effect (h : QueueEffect cfg q q') : q.gone <+: q'.gone := by
  cases h with
  | keep | putEnd => exact List.prefix_rfl
  | get => exact gone_get q
  | guard => exact gone_guard q
  | guardPut item _ => exact (gone_guard q).trans (gone_put _ item)
  | put item _ => exact gone_put q item

end AudioQueue

/-- The feed is what some steps make of the samples of some items. -/
def FedWith (cfg : AudioConfig α) (taken : List AudioItem) (f : Feed α Int) : Prop :=
  ∃ ops, f = Feed.run cfg.hop ops ∧
    (ops.flatMap FeedOp.appended).map Prod.fst = taken.flatMap (heard cfg)

namespace FedWith

variable {taken : List AudioItem} {f : Feed α Int}

theorem init : FedWith cfg [] .init := ⟨[], rfl, rfl⟩

theorem step (h : FedWith cfg taken f) (op : FeedOp α Int) (items : List AudioItem)
    (hop : (FeedOp.appended op).map Prod.fst = items.flatMap (heard cfg)) :
    FedWith cfg (taken ++ items) (f.step cfg.hop op) := by
  obtain ⟨ops, rfl, hops⟩ := h
  refine ⟨ops ++ [op], ?_, ?_⟩
  · rw [Feed.run, Feed.run, List.foldl_append]
    rfl
  · rw [List.flatMap_append, List.map_append, hops, List.flatMap_append, List.flatMap_singleton,
      hop]

theorem append (h : FedWith cfg taken f) {item : AudioItem} {f32 : List α}
    (hdec : AudioSession.decode cfg item = some f32) :
    FedWith cfg (taken ++ [item]) (f.step cfg.hop (.append f32 item.enqTs)) := by
  have hmap : (f32.map fun x => (x, item.enqTs)).map Prod.fst = f32 := by
    rw [List.map_map]
    exact List.map_id f32
  exact h.step _ [item] (by rw [FeedOp.appended, hmap, List.flatMap_singleton, heard_of_decode hdec])

theorem dropOldest (h : FedWith cfg taken f) (n : Nat) :
    FedWith cfg taken (f.step cfg.hop (.dropOldest n)) :=
  List.append_nil taken ▸ h.step (.dropOldest n) [] rfl

theorem feedFrame (h : FedWith cfg taken f) : FedWith cfg taken (f.feedFrame cfg.hop) :=
  List.append_nil taken ▸ h.step .feed [] rfl

end FedWith

/-- The samples of a frame that is not silence. -/
def RecorderFrame.samples? : RecorderFrame α → Option (List (Option α))
  | .audio samples => some samples
  | .silence => none

namespace AudioSession

variable {s s' : AudioSession α}

/-- Silence aside, the recorder was given the frames of the feed. -/
def Recorded (s : AudioSession α) : Prop :=
  s.recorded.filterMap RecorderFrame.samples? = s.feed.frames

theorem Recorded.feedFrame (h : Recorded s) (hhop : cfg.hop ≤ s.feed.buf.bufSamples) :
    Recorded (s.feedFrame cfg) := by
  show (s.recorded ++ [_]).filterMap _ = (s.feed.feedFrame cfg.hop).frames
  rw [List.filterMap_append, h, Feed.feedFrame, if_pos hhop]
  rfl

theorem Recorded.nextFrame (h : Recorded s) (status : Bool) :
    Recorded (s.nextFrame cfg status) := by
  rw [AudioSession.nextFrame]
  split
  · next hhop => exact h.feedFrame hhop
  · exact h

theorem Recorded.nextSilence (h : Recorded s) (frames : Nat) :
    Recorded (s.nextSilence frames) := by
  cases frames with
  | zero => exact h
  | succ frames =>
      show (s.recorded ++ [RecorderFrame.silence]).filterMap _ = s.feed.frames
      rw [List.filterMap_append, h]
      exact List.append_nil _

theorem Recorded.nextDrain (h : Recorded s) : Recorded (s.nextDrain cfg) := by
  rw [AudioSession.nextDrain]
  split
  · next hhop => exact h.feedFrame hhop
  · exact h.nextSilence _

theorem Recorded.takeItem (h : Recorded s) (item : AudioItem) (status : Bool) :
    Recorded (s.takeItem cfg item status) := by
  rw [AudioSession.takeItem]
  split
  · exact h
  · refine Recorded.nextFrame ?_ status
    show s.recorded.filterMap _ = _
    rw [h, bufferItem]
    dsimp only
    split
    · rfl
    · rfl

theorem Recorded.step {e : AudioEvent} (h : Recorded s) (hs : s.step cfg e = some s') :
    Recorded s' := by
  by_cases he : ∀ status, e ≠ .work status
  · rw [Recorded, (step_worker he hs).1.1, (step_worker he hs).1.2]
    exact h
  · simp only [not_forall, not_not] at he
    obtain ⟨status, rfl⟩ := he
    cases step_effect hs with
    | takeEnd => exact Recorded.nextDrain h
    | takeItem => exact Recorded.takeItem (s := { s with q := s.q.get }) h _ _
    | frame => exact h.nextFrame _
    | status => exact h
    | drain => exact h.nextDrain
    | silence => exact h.nextSilence _

/-- The items that fed the recorder left the queue in this order. -/
def Heard (cfg : AudioConfig α) (s : AudioSession α) : Prop :=
  ∃ taken, FedWith cfg taken s.feed ∧ taken.Sublist s.q.gone

theorem Heard.nextFrame (h : Heard cfg s) (status : Bool) : Heard cfg (s.nextFrame cfg status) := by
  obtain ⟨taken, hfed, hsub⟩ := h
  rw [AudioSession.nextFrame]
  split
  · exact ⟨taken, hfed.feedFrame, hsub⟩
  · exact ⟨taken, hfed, hsub⟩

theorem Heard.nextSilence (h : Heard cfg s) (frames : Nat) : Heard cfg (s.nextSilence frames) := by
  cases frames <;> exact h

theorem Heard.nextDrain (h : Heard cfg s) : Heard cfg (s.nextDrain cfg) := by
  rw [AudioSession.nextDrain]
  split
  · obtain ⟨taken, hfed, hsub⟩ := h
    exact ⟨taken, hfed.feedFrame, hsub⟩
  · exact h.nextSilence _

/-- An item that leaves the queue for the worker. -/
theorem Heard.takeItem (h : Heard cfg s) {item : AudioItem} {queue : List (Option AudioItem)}
    (hq : s.q.queue = some item :: queue) (status : Bool) :
    Heard cfg ({ s with q := s.q.get }.takeItem cfg item status) := by
  obtain ⟨taken, hfed, hsub⟩ := h
  have hgone : s.q.get.gone = s.q.gone ++ [item] := by
    rw [AudioQueue.get]
    split <;> simp_all
  rw [AudioSession.takeItem]
  split
  · exact ⟨taken, hfed, hsub.trans (AudioQueue.gone_get s.q).sublist⟩
  · next f32 hdec =>
      refine Heard.nextFrame ⟨taken ++ [item], ?_, ?_⟩ status
      · rw [bufferItem]
        dsimp only
        split
        · exact (hfed.append hdec).dropOldest _
        · exact hfed.append hdec
      · show (taken ++ [item]).Sublist s.q.get.gone
        rw [hgone]
        exact hsub.append_right _

theorem Heard.step {e : AudioEvent} (h : Heard cfg s) (hs : s.step cfg e = some s') :
    Heard cfg s' := by
  by_cases he : ∀ status, e ≠ .work status
  · obtain ⟨taken, hfed, hsub⟩ := h
    refine ⟨taken, ?_, hsub.trans (AudioQueue.gone_effect (step_queueEffect hs)).sublist⟩
    rw [(step_worker he hs).1.1]
    exact hfed
  · simp only [not_forall, not_not] at he
    obtain ⟨status, rfl⟩ := he
    cases step_effect hs with
    | takeEnd =>
        obtain ⟨taken, hfed, hsub⟩ := h
        exact Heard.nextDrain ⟨taken, hfed, hsub.trans (AudioQueue.gone_get s.q).sublist⟩
    | takeItem _ hq => exact h.takeItem hq _
    | frame => exact h.nextFrame _
    | status => exact h
    | drain => exact h.nextDrain
    | silence => exact h.nextSilence _

end AudioSession

/-! ## From the socket to the queue -/

/-- `json.loads` of the text with which the client starts. -/
def startText : PyJson :=
  .dict [("event".toList, .str "start".toList), ("sample_rate".toList, .int 48000),
    ("dtype".toList, .str "i16".toList)]

/-- `json.loads` of the text with which it stops. -/
def stopText : PyJson := .dict [("event".toList, .str "stop".toList)]

/-- `json.loads` of the text with a token that may come before the start. -/
def authText (token : PyStr) : PyJson :=
  .dict [("type".toList, .str "auth".toList), ("scheme".toList, .str "bearer".toList),
    ("token".toList, .str token)]

/-- What the client sends, as it is received. -/
inductive Received
  | text (obj : Option PyJson)
  | binary (raw : List UInt8)

def AudioEvent.received : AudioEvent → Option Received
  | .binary raw _ => some (.binary raw)
  | .text obj _ => some (.text obj)
  | _ => none

/-- The item that some bytes of the client become, but for the time. -/
def itemOf (raw : List UInt8) : List UInt8 × Int × Option Dtype := (raw, 48000, some .i16)

namespace AudioQueue

variable {q : AudioQueue}

@[simp] theorem enqueued_getNowait (q : AudioQueue) : q.getNowait.enqueued = q.enqueued := by
  rw [getNowait]
  split <;> rfl

@[simp] theorem enqueued_get (q : AudioQueue) : q.get.enqueued = q.enqueued := by
  rw [get]
  split <;> rfl

@[simp] theorem enqueued_guard (q : AudioQueue) : (q.guard cfg).enqueued = q.enqueued := by
  rw [guard]
  split
  · exact enqueued_getNowait q
  · rfl

theorem enqueued_dropOldestLoop (cap : Int) (n : Nat) (q : AudioQueue) :
    (dropOldestLoop cap n q).enqueued = q.enqueued := by
  induction n generalizing q with
  | zero => rfl
  | succ n ih =>
      rw [dropOldestLoop]
      split
      · rw [ih, enqueued_getNowait]
      · rfl

@[simp] theorem enqueued_put (q : AudioQueue) (item : AudioItem) :
    (q.put cfg item).enqueued = q.enqueued ++ [item] := by
  simp only [put, dropOldestUntilUnder]
  split
  · split
    · rfl
    · exact enqueued_dropOldestLoop ..
  · rfl

end AudioQueue

/-- The item that waits for room. -/
def RecvWait.item? : RecvWait → Option AudioItem
  | .put item => some item
  | _ => none

/-- No audio waits for an acknowledgement. -/
def RecvWait.Acknowledged : RecvWait → Prop
  | .ackBinary _ | .ackAudio _ => False
  | _ => True

namespace AudioSession

variable {s s' : AudioSession α} {audio rest : List (List UInt8)}

/-- The items that were put in the queue, and one that waits for room. -/
def accepted (s : AudioSession α) : List AudioItem := s.q.enqueued ++ s.recv.item?.toList

/-- What was put in the queue, or is about to be, is some audio of the client. -/
structure Intake (audio : List (List UInt8)) (s : AudioSession α) : Prop where
  accepted : (s.accepted.map AudioItem.key).Sublist (audio.map itemOf)
  waits : s.recv.Acknowledged

/-- The session has begun as the client asks for. -/
structure Begun (s : AudioSession α) : Prop where
  rate : s.sessionSrcSr = 48000
  dtype : s.sessionForceDtype = some .i16
  started : s.sessionStarted = true

/-- What the worker does is nothing to the receive loop. -/
structure SameIntake (s s' : AudioSession α) : Prop where
  rate : s'.sessionSrcSr = s.sessionSrcSr
  dtype : s'.sessionForceDtype = s.sessionForceDtype
  started : s'.sessionStarted = s.sessionStarted
  enqueued : s'.q.enqueued = s.q.enqueued
  recv : s'.recv = s.recv

theorem SameIntake.accepted (h : SameIntake s s') : s'.accepted = s.accepted := by
  rw [AudioSession.accepted, AudioSession.accepted, h.enqueued, h.recv]

theorem SameIntake.nextFrame (status : Bool) (h : SameIntake s s') :
    SameIntake s (s'.nextFrame cfg status) := by
  rw [AudioSession.nextFrame]
  split <;> exact { h with }

theorem SameIntake.nextSilence (frames : Nat) (h : SameIntake s s') :
    SameIntake s (s'.nextSilence frames) := by
  cases frames <;> exact { h with }

theorem SameIntake.nextDrain (h : SameIntake s s') : SameIntake s (s'.nextDrain cfg) := by
  rw [AudioSession.nextDrain]
  split
  · exact { h with }
  · exact h.nextSilence _

theorem SameIntake.work {status : Bool} (h : s.step cfg (.work status) = some s') :
    SameIntake s s' := by
  cases step_effect h with
  | takeEnd => exact SameIntake.nextDrain ⟨rfl, rfl, rfl, AudioQueue.enqueued_get _, rfl⟩
  | takeItem =>
      rw [AudioSession.takeItem]
      split
      · exact ⟨rfl, rfl, rfl, AudioQueue.enqueued_get _, rfl⟩
      · exact SameIntake.nextFrame status ⟨rfl, rfl, rfl, AudioQueue.enqueued_get _, rfl⟩
  | frame => exact SameIntake.nextFrame status ⟨rfl, rfl, rfl, rfl, rfl⟩
  | status => exact ⟨rfl, rfl, rfl, rfl, rfl⟩
  | drain => exact SameIntake.nextDrain ⟨rfl, rfl, rfl, rfl, rfl⟩
  | silence => exact SameIntake.nextSilence _ ⟨rfl, rfl, rfl, rfl, rfl⟩

theorem Intake.same (h : Intake audio s) (hs : SameIntake s s') : Intake audio s' where
  accepted := hs.accepted ▸ h.accepted
  waits := hs.recv ▸ h.waits

theorem Begun.same (h : Begun s) (hs : SameIntake s s') : Begun s' :=
  ⟨hs.rate.trans h.rate, hs.dtype.trans h.dtype, hs.started.trans h.started⟩

/-- The receive loop goes on, and has no item now. -/
theorem Intake.goOn (h : Intake audio s) (henq : s'.q.enqueued = s.q.enqueued)
    (hitem : s'.recv.item? = none) (hwait : s'.recv.Acknowledged) : Intake audio s' where
  accepted := by
    refine List.Sublist.trans (List.Sublist.map _ ?_) h.accepted
    rw [AudioSession.accepted, AudioSession.accepted, henq, hitem]
    exact List.Sublist.append_left (List.nil_sublist _) _
  waits := hwait

theorem Intake.enqueue (h : Intake audio s) (hbegun : Begun s) (hrecv : s.recv = .recv)
    (raw : List UInt8) (now : Int) : Intake (audio ++ [raw]) (s.binaryAudio cfg raw now) := by
  have hsub : ((s.q.enqueued ++ [(⟨raw, s.sessionSrcSr, s.sessionForceDtype, raw.length, now⟩ :
      AudioItem)]).map AudioItem.key).Sublist ((audio ++ [raw]).map itemOf) := by
    rw [hbegun.rate, hbegun.dtype]
    have haccepted : s.accepted = s.q.enqueued := by
      rw [AudioSession.accepted, hrecv]
      exact List.append_nil _
    rw [List.map_append, List.map_append]
    exact (haccepted ▸ h.accepted).append (List.Sublist.refl _)
  rw [binaryAudio, AudioSession.enqueue, awaitPut]
  split
  · refine ⟨?_, trivial⟩
    rw [AudioSession.accepted]
    dsimp only [RecvWait.item?, Option.toList]
    rw [AudioQueue.enqueued_guard]
    exact hsub
  · refine ⟨?_, trivial⟩
    rw [AudioSession.accepted]
    dsimp only [RecvWait.item?, Option.toList]
    rw [AudioQueue.enqueued_put, AudioQueue.enqueued_guard, List.append_nil]
    exact hsub

theorem Intake.resume (h : Intake audio s) {now : Int} (hs : s.resumeRecv cfg now = some s') :
    Intake audio s' ∧ (Begun s → Begun s') := by
  have hwaits := h.waits
  rw [resumeRecv] at hs
  split at hs
  · cases hs
    exact ⟨h.goOn rfl rfl trivial, fun hb => ⟨hb.rate, hb.dtype, hb.started⟩⟩
  · next hrecv =>
      rw [hrecv] at hwaits
      exact hwaits.elim
  · next hrecv =>
      rw [hrecv] at hwaits
      exact hwaits.elim
  · next item hrecv =>
      split at hs
      · cases hs
      · cases hs
        refine ⟨⟨?_, trivial⟩, fun hb => ⟨hb.rate, hb.dtype, hb.started⟩⟩
        have haccepted := h.accepted
        rw [AudioSession.accepted, hrecv] at haccepted
        rw [AudioSession.accepted]
        dsimp only [RecvWait.item?, Option.toList] at haccepted ⊢
        rw [AudioQueue.enqueued_put, List.append_nil]
        exact haccepted
  · cases hs
    exact ⟨h.goOn rfl rfl trivial, fun hb => ⟨hb.rate, hb.dtype, hb.started⟩⟩
  · cases hs
    exact ⟨h.goOn rfl rfl trivial, fun hb => ⟨hb.rate, hb.dtype, hb.started⟩⟩
  · split at hs
    · cases hs
    · cases hs
      exact ⟨h.goOn rfl rfl trivial, fun hb => ⟨hb.rate, hb.dtype, hb.started⟩⟩
  · split at hs
    · cases hs
      exact ⟨h.goOn rfl rfl trivial, fun hb => ⟨hb.rate, hb.dtype, hb.started⟩⟩
    · cases hs
  · cases hs

/-- A step with no message. -/
theorem Intake.quiet (h : Intake audio s) {e : AudioEvent} (he : e.received = none)
    (hs : s.step cfg e = some s') : Intake audio s' ∧ (Begun s → Begun s') := by
  cases e with
  | binary | text => cases he
  | goOn now => exact h.resume hs
  | work status =>
      have hsame := SameIntake.work hs
      exact ⟨h.same hsame, fun hb => hb.same hsame⟩
  | _ =>
      cases step_effect hs
      exact ⟨h.goOn rfl rfl trivial, fun hb => ⟨hb.rate, hb.dtype, hb.started⟩⟩

theorem recv_of_binary {raw : List UInt8} {now : Int}
    (hs : s.step cfg (.binary raw now) = some s') :
    s.recv = .recv ∧ s' = s.onBinary cfg raw now := by
  rw [step] at hs
  split at hs
  · next hrecv => exact ⟨hrecv, (Option.some.inj hs).symm⟩
  · cases hs

theorem Intake.binary (h : Intake audio s) (hb : Begun s) {raw : List UInt8} {now : Int}
    (hs : s.step cfg (.binary raw now) = some s') : Intake (audio ++ [raw]) s' ∧ Begun s' := by
  obtain ⟨hrecv, rfl⟩ := recv_of_binary hs
  rw [onBinary, if_pos hb.started]
  refine ⟨h.enqueue hb hrecv raw now, ?_⟩
  rw [binaryAudio, AudioSession.enqueue, awaitPut]
  split <;> exact ⟨hb.rate, hb.dtype, hb.started⟩

theorem Intake.start (h : Intake audio s) {now : Int}
    (hs : s.step cfg (.text (some startText) now) = some s') : Intake audio s' ∧ Begun s' := by
  rw [step] at hs
  split at hs
  · cases hs
    exact ⟨h.goOn rfl rfl trivial, rfl, rfl, rfl⟩
  · cases hs

theorem Intake.stop (h : Intake audio s) (hb : Begun s) {now : Int}
    (hs : s.step cfg (.text (some stopText) now) = some s') : Intake audio s' ∧ Begun s' := by
  rw [step] at hs
  split at hs
  · cases hs
    exact ⟨h.goOn rfl rfl trivial, hb.rate, hb.dtype, hb.started⟩
  · cases hs

/-- A token tells the receive loop nothing. -/
theorem Intake.auth (h : Intake audio s) {token : PyStr} {now : Int}
    (hs : s.step cfg (.text (some (authText token)) now) = some s') : Intake audio s' := by
  rw [step] at hs
  split at hs
  · cases hs
    exact h
  · cases hs

end AudioSession

/-! ## All of it -/

end VTranser.Server

import Mathlib.Data.List.ReduceOption
import Mathlib.Data.Int.Order.Basic
import VTranser.Proofs.Receive

/-!
# The bytes in the queue

Both coroutines change the count of the bytes together with the queue, with no
suspension in between. `QueueEffect` is all that a step can do to the queue, and
the accounts are in order after each of it.
-/

namespace VTranser.Server

open Run

variable {α : Type*} {cfg : AudioConfig α}

namespace AudioQueue

/-- The items in the queue. -/
def items (q : AudioQueue) : List AudioItem := q.queue.reduceOption

/-- The bytes of the items in the queue. -/
def bytes (q : AudioQueue) : Nat := (q.items.map AudioItem.nbytes).sum

/-- The count is the bytes in the queue, and nothing is lost or out of order. -/
structure Exact (q : AudioQueue) : Prop where
  total : q.queueBytesTotal = q.bytes
  order : q.enqueued = q.gone ++ q.items

/-- No more than the settings allow. -/
structure Bounded (cfg : AudioConfig α) (q : AudioQueue) : Prop where
  room : 0 < cfg.queueMax → q.queue.length ≤ cfg.queueMax
  under : 0 < cfg.qbytesHardCap → q.queueBytesTotal < cfg.qbytesHardCap

variable {q : AudioQueue}

theorem length_getNowait (q : AudioQueue) : q.getNowait.queue.length = q.queue.length - 1 := by
  rw [getNowait]
  split <;> next h => simp [h]

theorem total_getNowait_le (h : 0 ≤ q.queueBytesTotal) :
    q.getNowait.queueBytesTotal ≤ q.queueBytesTotal := by
  rw [getNowait]
  split
  · exact Int.le_refl _
  · exact Int.le_refl _
  · show max 0 _ ≤ _
    omega

theorem Exact.nonneg (h : q.Exact) : 0 ≤ q.queueBytesTotal := by
  rw [h.total]
  omega

/-- The clamp at zero never acts. -/
theorem Exact.getNowait (h : q.Exact) : q.getNowait.Exact := by
  have htotal := h.total
  have horder := h.order
  rw [AudioQueue.getNowait]
  split
  · exact h
  · next hq => exact ⟨by simpa [bytes, items, hq] using htotal, by simpa [items, hq] using horder⟩
  · next old queue hq =>
      have hbytes : q.bytes = old.nbytes + (queue.reduceOption.map AudioItem.nbytes).sum := by
        simp [bytes, items, hq]
      constructor
      · show max 0 (q.queueBytesTotal - old.nbytes) =
          ((queue.reduceOption.map AudioItem.nbytes).sum : Nat)
        rw [htotal, hbytes]
        omega
      · show q.enqueued = (q.gone ++ [old]) ++ queue.reduceOption
        rw [horder, items, hq, List.reduceOption_cons_of_some, List.append_assoc]
        rfl

/-- What the worker does with an item of no bytes comes to the same. -/
theorem Exact.get_eq (h : q.Exact) : q.get = q.getNowait := by
  have hnonneg := h.nonneg
  rw [AudioQueue.get, AudioQueue.getNowait]
  split
  · rfl
  · rfl
  · split
    · rfl
    · next hzero =>
        congr 1
        omega

theorem Exact.dropOldestLoop (h : q.Exact) (cap : Int) (n : Nat) :
    (dropOldestLoop cap n q).Exact := by
  induction n generalizing q with
  | zero => exact h
  | succ n ih =>
      rw [AudioQueue.dropOldestLoop]
      split
      · exact ih h.getNowait
      · exact h

/-- An empty queue has no bytes, so dropping ends below the cap. -/
theorem Exact.under_dropOldestLoop (h : q.Exact) {cap : Int} (hcap : 0 < cap) {n : Nat}
    (hn : q.queue.length ≤ n) : (AudioQueue.dropOldestLoop cap n q).queueBytesTotal < cap := by
  induction n generalizing q with
  | zero =>
      have hnil : q.queue = [] := List.length_eq_zero_iff.mp (by omega)
      have hbytes : q.bytes = 0 := by simp [bytes, items, hnil]
      show q.queueBytesTotal < cap
      rw [h.total, hbytes]
      exact hcap
  | succ n ih =>
      rw [AudioQueue.dropOldestLoop]
      split
      · exact ih h.getNowait (by rw [length_getNowait]; omega)
      · omega

theorem length_dropOldestLoop_le (cap : Int) (n : Nat) (q : AudioQueue) :
    (AudioQueue.dropOldestLoop cap n q).queue.length ≤ q.queue.length := by
  induction n generalizing q with
  | zero => exact le_rfl
  | succ n ih =>
      rw [AudioQueue.dropOldestLoop]
      split
      · have h := ih q.getNowait
        rw [length_getNowait] at h
        omega
      · exact le_rfl

/-- What `put` does before it looks at the cap. -/
theorem Exact.append (h : q.Exact) (item : AudioItem) :
    Exact { q with
      queue := q.queue ++ [some item]
      queueBytesTotal := q.queueBytesTotal + item.nbytes
      enqueued := q.enqueued ++ [item] } := by
  constructor
  · show q.queueBytesTotal + item.nbytes = _
    simp [h.total, bytes, items, List.reduceOption_append]
  · show q.enqueued ++ [item] = _
    simp [h.order, items, List.reduceOption_append]

theorem Exact.put (h : q.Exact) (item : AudioItem) : (q.put cfg item).Exact := by
  simp only [AudioQueue.put]
  split
  · rw [dropOldestUntilUnder]
    split
    · exact h.append item
    · exact (h.append item).dropOldestLoop _ _
  · exact h.append item

theorem Exact.under_put (h : q.Exact) (item : AudioItem) (hcap : 0 < cfg.qbytesHardCap) :
    (q.put cfg item).queueBytesTotal < cfg.qbytesHardCap := by
  simp only [AudioQueue.put]
  split
  · rw [dropOldestUntilUnder, if_neg (by omega)]
    exact (h.append item).under_dropOldestLoop hcap le_rfl
  · next hlow =>
      show q.queueBytesTotal + item.nbytes < cfg.qbytesHardCap
      by_contra hge
      exact hlow ⟨hcap, by show cfg.qbytesHardCap ≤ q.queueBytesTotal + item.nbytes; omega⟩

theorem length_put_le (q : AudioQueue) (item : AudioItem) :
    (q.put cfg item).queue.length ≤ q.queue.length + 1 := by
  have happend : (q.queue ++ [some item]).length = q.queue.length + 1 := by simp
  simp only [AudioQueue.put]
  split
  · rw [dropOldestUntilUnder]
    split
    · exact happend.le
    · exact (length_dropOldestLoop_le _ _ _).trans happend.le
  · exact happend.le

end AudioQueue

/-! ## What a step does to the queue -/

/-- All that a step can do to the queue. -/
inductive QueueEffect (cfg : AudioConfig α) (q : AudioQueue) : AudioQueue → Prop
  | keep : QueueEffect cfg q q
  /-- The worker takes an item. -/
  | get : QueueEffect cfg q q.get
  /-- Room was made for an item, and there is none. -/
  | guard : QueueEffect cfg q (q.guard cfg)
  | guardPut (item : AudioItem) (h : ¬ (q.guard cfg).Full cfg) :
      QueueEffect cfg q ((q.guard cfg).put cfg item)
  | put (item : AudioItem) (h : ¬ q.Full cfg) : QueueEffect cfg q (q.put cfg item)
  | putEnd (h : ¬ q.Full cfg) : QueueEffect cfg q q.putEnd

namespace AudioSession

variable {s s' : AudioSession α}

theorem enqueue_effect (raw : List UInt8) (sr : Int) (dtype : Option Dtype) (now : Int) :
    QueueEffect cfg s.q (s.enqueue cfg raw sr dtype now).q := by
  rw [enqueue, awaitPut]
  split
  · exact .guard
  · next hroom => exact .guardPut _ hroom

theorem jsonAudio_effect (items : List (PyStr × PyJson)) (now : Int) :
    QueueEffect cfg s.q (s.jsonAudio cfg items now).q := by
  rw [jsonAudio]
  split
  · exact enqueue_effect ..
  · exact .keep

theorem startEvent_q (items : List (PyStr × PyJson)) : (s.startEvent items).q = s.q := by
  rw [startEvent]
  split <;> rfl

theorem text_queueEffect {obj : Option PyJson} {now : Int} (h : TextEffect cfg s now obj s') :
    QueueEffect cfg s.q s'.q := by
  cases h with
  | start hi he =>
      rw [startEvent_q]
      exact .keep
  | audio hi he hstart hstop haudio hs => exact jsonAudio_effect ..
  | notJson | noDict | noEvent | stop | autoStart | notStarted | other => exact .keep

theorem onBinary_effect (raw : List UInt8) (now : Int) :
    QueueEffect cfg s.q (s.onBinary cfg raw now).q := by
  rw [onBinary]
  split
  · exact enqueue_effect ..
  · split <;> exact .keep

@[simp] theorem nextFrame_q (status : Bool) (s : AudioSession α) :
    (s.nextFrame cfg status).q = s.q := by
  rw [nextFrame]
  split <;> rfl

@[simp] theorem nextSilence_q (frames : Nat) (s : AudioSession α) :
    (s.nextSilence frames).q = s.q := by
  cases frames <;> rfl

@[simp] theorem nextDrain_q (s : AudioSession α) : (s.nextDrain cfg).q = s.q := by
  rw [nextDrain]
  split
  · rfl
  · exact nextSilence_q ..

@[simp] theorem takeItem_q (item : AudioItem) (status : Bool) (s : AudioSession α) :
    (s.takeItem cfg item status).q = s.q := by
  rw [takeItem]
  split
  · rfl
  · exact nextFrame_q ..

theorem step_queueEffect {e : AudioEvent} (h : s.step cfg e = some s') :
    QueueEffect cfg s.q s'.q := by
  cases step_effect h with
  | binary => exact onBinary_effect ..
  | text heffect => exact text_queueEffect heffect
  | idleTimeout | closed | recvError | goOn | idleSend | joinTimeout | status => exact .keep
  | ackBinary => exact enqueue_effect ..
  | ackAudio => exact jsonAudio_effect ..
  | put item hroom => exact .put item hroom
  | putEnd hroom => exact .putEnd hroom
  | takeEnd =>
      rw [nextDrain_q]
      exact .get
  | takeItem =>
      rw [takeItem_q]
      exact .get
  | frame =>
      rw [nextFrame_q]
      exact .keep
  | drain =>
      rw [nextDrain_q]
      exact .keep
  | silence =>
      rw [nextSilence_q]
      exact .keep

end AudioSession

/-! ## The accounts -/

namespace AudioQueue

variable {q q' : AudioQueue}

theorem length_guard_le (q : AudioQueue) : (q.guard cfg).queue.length ≤ q.queue.length := by
  rw [guard]
  split
  · rw [length_getNowait]
    omega
  · exact le_rfl

theorem Exact.guard (h : q.Exact) : (q.guard cfg).Exact := by
  rw [AudioQueue.guard]
  split
  · exact h.getNowait
  · exact h

theorem Exact.total_guard_le (h : q.Exact) :
    (q.guard cfg).queueBytesTotal ≤ q.queueBytesTotal := by
  rw [AudioQueue.guard]
  split
  · exact total_getNowait_le h.nonneg
  · exact le_rfl

theorem room_put (hroom : ¬ q.Full cfg) (item : AudioItem) :
    0 < cfg.queueMax → (q.put cfg item).queue.length ≤ cfg.queueMax := by
  intro hmax
  have hlen := @length_put_le _ cfg q item
  have hlt : ¬ cfg.queueMax ≤ q.queue.length := fun hle => hroom ⟨hmax, hle⟩
  omega

theorem Exact.effect (h : q.Exact) (he : QueueEffect cfg q q') : q'.Exact := by
  cases he with
  | keep => exact h
  | get =>
      rw [h.get_eq]
      exact h.getNowait
  | guard => exact h.guard
  | guardPut item hroom => exact h.guard.put item
  | put item hroom => exact h.put item
  | putEnd hroom =>
      constructor
      · show q.queueBytesTotal = _
        simp [h.total, bytes, items, putEnd, List.reduceOption_append]
      · show q.enqueued = _
        simp [h.order, items, putEnd, List.reduceOption_append]

theorem Bounded.effect (h : q.Bounded cfg) (hexact : q.Exact) (he : QueueEffect cfg q q') :
    q'.Bounded cfg := by
  cases he with
  | keep => exact h
  | get =>
      rw [hexact.get_eq]
      have hlen := length_getNowait q
      have htotal := total_getNowait_le hexact.nonneg
      exact ⟨fun hmax => by have := h.room hmax; omega, fun hcap => htotal.trans_lt (h.under hcap)⟩
  | guard =>
      have hlen := @length_guard_le _ cfg q
      exact ⟨fun hmax => by have := h.room hmax; omega,
        fun hcap => hexact.total_guard_le.trans_lt (h.under hcap)⟩
  | guardPut item hroom => exact ⟨room_put hroom item, hexact.guard.under_put item⟩
  | put item hroom => exact ⟨room_put hroom item, hexact.under_put item⟩
  | putEnd hroom =>
      refine ⟨fun hmax => ?_, h.under⟩
      have hlt : ¬ cfg.queueMax ≤ q.queue.length := fun hle => hroom ⟨hmax, hle⟩
      simp only [AudioQueue.putEnd, List.length_append, List.length_singleton]
      omega

end AudioQueue

theorem AudioSession.step_accounts {s s' : AudioSession α} {e : AudioEvent}
    (hs : s.q.Exact ∧ s.q.Bounded cfg) (h : s.step cfg e = some s') :
    s'.q.Exact ∧ s'.q.Bounded cfg :=
  have he := step_queueEffect h
  ⟨hs.1.effect he, hs.2.effect hs.1 he⟩

theorem AudioSession.init_accounts : (init cfg).q.Exact ∧ (init cfg).q.Bounded cfg :=
  ⟨⟨rfl, rfl⟩, ⟨fun hmax => hmax.le, id⟩⟩

/-- In every run of the receive loop and the feed worker: `queue_bytes_total` is the
bytes of the items in the queue, which are the last ones that were put there; their
number is at most `QUEUE_MAX`, if that is a limit; and the bytes stay below a cap. -/
theorem queue_accounts {es : List AudioEvent} {s : AudioSession α}
    (h : run (AudioSession.step cfg) (.init cfg) es = some s) :
    s.q.queueBytesTotal = ((s.q.queue.reduceOption.map AudioItem.nbytes).sum : Nat) ∧
      s.q.enqueued = s.q.gone ++ s.q.queue.reduceOption ∧
      (0 < cfg.queueMax → s.q.queue.length ≤ cfg.queueMax) ∧
      (0 < cfg.qbytesHardCap → s.q.queueBytesTotal < cfg.qbytesHardCap) := by
  have hs : s.q.Exact ∧ s.q.Bounded cfg :=
    run_guarded (fun _ _ _ hs _ h => AudioSession.step_accounts hs h)
      AudioSession.init_accounts (Guarded.of_labels (q := fun _ => True) fun _ _ => trivial) h
  exact ⟨hs.1.total, hs.1.order, hs.2.room, hs.2.under⟩

/-- Two messages come while the worker has the first one to do. -/
theorem queue_accounts_silence :
    let es : List AudioEvent := [.binary (List.replicate 24 0) 0, .goOn 0, .work false,
      .binary [0, 0] 1, .binary [0, 0, 0, 0] 2]
    ∃ s, run (AudioSession.step silence) (.init silence) es = some s ∧
      s.worker = .frame ∧ s.q.queue.length = 2 ∧ s.q.queueBytesTotal = 6 ∧
      s.q.queueBytesTotal = ((s.q.queue.reduceOption.map AudioItem.nbytes).sum : Nat) := by
  intro es
  exact ⟨_, rfl, by decide +kernel, by decide +kernel, by decide +kernel,
    (@queue_accounts _ silence es _ rfl).1⟩

/-- With `QUEUE_MAX` zero the queue has no limit. -/
theorem queue_unlimited :
    ¬ ∀ (cfg : AudioConfig Unit) (es : List AudioEvent) (s : AudioSession Unit),
      run (AudioSession.step cfg) (.init cfg) es = some s →
        (s.q.queue.length : Int) ≤ cfg.queueMax := by
  intro h
  have hlen := h { silence with queueMax := 0 } [.binary [0, 0] 0, .goOn 0] _ rfl
  revert hlen
  decide +kernel

end VTranser.Server

import Mathlib.Data.List.ReduceOption
import VTranser.Lib.Run
import VTranser.Translator.Shutdown

/-!
# The commit worker comes to its end

There is one `None` from the time it is put until the worker takes it, wherever it goes
in between, and what is behind it in the queue came after the connection was over. So
the worker ends, and when it has, nothing of what came before is left in the queue.
-/

namespace VTranser.Translator.Shutdown

open Handler (commitQueueSize)
open Run

variable {α : Type*}

namespace State

/-! ## Queues with a `None` -/

/-- The segments in the queue. -/
def items (queue : List (Option (α × Nat))) : List (α × Nat) := queue.reduceOption

/-- The segments behind `None`. -/
def behind : List (Option (α × Nat)) → List (α × Nat)
  | [] => []
  | none :: queue => items queue
  | some _ :: queue => behind queue

def nones (queue : List (Option (α × Nat))) : Nat := queue.countP Option.isNone

section Queue

variable {queue : List (Option (α × Nat))}

@[simp] theorem items_nil : items ([] : List (Option (α × Nat))) = [] := rfl

@[simp] theorem items_none : items (none :: queue) = items queue := rfl

@[simp] theorem items_some (item : α × Nat) : items (some item :: queue) = item :: items queue :=
  rfl

@[simp] theorem items_append (queue' : List (Option (α × Nat))) :
    items (queue ++ queue') = items queue ++ items queue' := List.reduceOption_append ..

@[simp] theorem nones_nil : nones ([] : List (Option (α × Nat))) = 0 := rfl

@[simp] theorem nones_none : nones (none :: queue) = nones queue + 1 := by simp [nones]

@[simp] theorem nones_some (item : α × Nat) : nones (some item :: queue) = nones queue := by
  simp [nones]

@[simp] theorem nones_append (queue' : List (Option (α × Nat))) :
    nones (queue ++ queue') = nones queue + nones queue' := List.countP_append

theorem behind_subset : behind queue ⊆ items queue := by
  induction queue with
  | nil => exact List.Subset.refl _
  | cons item queue ih =>
      cases item with
      | none => exact List.Subset.refl _
      | some item => exact List.subset_cons_of_subset _ ih

theorem behind_eq_nil (h : nones queue = 0) : behind queue = [] := by
  induction queue with
  | nil => rfl
  | cons item queue ih =>
      cases item with
      | none => simp at h
      | some item => exact ih (by simpa using h)

theorem behind_append_none : behind (queue ++ [none]) = behind queue := by
  induction queue with
  | nil => rfl
  | cons item queue ih =>
      cases item with
      | none => simp [behind]
      | some item => exact ih

theorem behind_append_some (item : α × Nat) :
    behind (queue ++ [some item]) ⊆ item :: behind queue := by
  induction queue with
  | nil => exact List.nil_subset _
  | cons item' queue ih =>
      cases item' with
      | none =>
          simp only [List.cons_append, behind, items_append, items_some, items_nil]
          intro x hx
          simp only [List.mem_append, List.mem_singleton] at hx
          exact hx.elim (List.mem_cons_of_mem _) (fun h => h ▸ List.mem_cons_self)
      | some item' => exact ih

/-- What has filled a batch was in front, and nothing else changes place but `None`. -/
structure Fills (queue : List (Option (α × Nat)))
    (filled : List (α × Nat) × List (Option (α × Nat))) : Prop where
  items : items queue = filled.1 ++ items filled.2
  nones : nones filled.2 = nones queue
  length : filled.1.length + filled.2.length = queue.length
  behind : behind filled.2 ⊆ behind queue

theorem fills (n : Nat) : Fills queue (fill n queue) := by
  induction n generalizing queue with
  | zero => exact ⟨rfl, rfl, Nat.zero_add _, List.Subset.refl _⟩
  | succ n ih =>
      match queue with
      | [] => exact ⟨rfl, rfl, rfl, List.Subset.refl _⟩
      | none :: queue =>
          refine ⟨by simp [fill], by simp [fill], by simp [fill], ?_⟩
          rw [fill, behind_append_none]
          exact behind_subset
      | some item :: queue =>
          have h := @ih queue
          refine ⟨?_, ?_, ?_, h.behind⟩
          · simp [fill, h.items]
          · simp [fill, h.nones]
          · simp only [fill, List.length_cons]
            have := h.length
            omega

end Queue

/-! ## The invariant -/

/-- The worker has taken the `None`. -/
def ended (s : State α) : Bool :=
  match s.worker with
  | .ended => true
  | _ => false

structure Inv (s : State α) : Prop where
  room : s.queue.length ≤ commitQueueSize
  placed : (s.taken ++ s.dropped ++ items s.queue).Perm s.offered.zipIdx
  order : (s.taken ++ items s.queue).Sublist s.offered.zipIdx
  closed_of_ended : s.ended = true → s.closer = .closed
  nones : nones s.queue = if s.closer = .closed ∧ s.ended = false then 1 else 0
  serving : s.closer = .serving ↔ s.closedAt = none
  closedAt : ∀ n ∈ s.closedAt, n ≤ s.offered.length
  late : ∀ n ∈ s.closedAt,
    ∀ item ∈ (if s.ended then items s.queue else behind s.queue), n ≤ item.2

namespace Inv

variable {s s' : State α}

theorem init : Inv (init : State α) where
  room := Nat.zero_le _
  placed := .refl _
  order := .refl _
  closed_of_ended h := nomatch h
  nones := rfl
  serving := ⟨fun _ => rfl, fun _ => rfl⟩
  closedAt _ h := nomatch h
  late _ h := nomatch h

/-- The numbering goes on with the segment that is offered. -/
theorem zipIdx_offered (offered : List α) (seg : α) :
    (offered ++ [seg]).zipIdx = offered.zipIdx ++ [(seg, offered.length)] := by
  simp [List.zipIdx_append]

theorem not_ended_of_none {queue : List (Option (α × Nat))} (h : Inv s)
    (hqueue : s.queue = none :: queue) : s.closer = .closed ∧ s.ended = false := by
  have hnones := h.nones
  rw [hqueue, nones_none] at hnones
  by_contra hnot
  rw [if_neg hnot] at hnones
  omega

/-- Another queue, with one more segment or without it. -/
theorem offer (h : Inv s) (seg : α) {queue : List (Option (α × Nat))} {dropped : List (α × Nat)}
    (hroom : queue.length ≤ commitQueueSize)
    (hplaced : (dropped ++ items queue).Perm
      (s.dropped ++ items s.queue ++ [(seg, s.offered.length)]))
    (horder : (items queue).Sublist (items s.queue ++ [(seg, s.offered.length)]))
    (hnones : State.nones queue = State.nones s.queue)
    (hbehind : behind queue ⊆ (seg, s.offered.length) :: behind s.queue) :
    Inv { s with offered := s.offered ++ [seg], queue, dropped } where
  room := hroom
  placed := by
    rw [zipIdx_offered, List.append_assoc]
    refine (hplaced.append_left s.taken).trans ?_
    have := h.placed.append_right [(seg, s.offered.length)]
    simpa only [List.append_assoc] using this
  order := by
    rw [zipIdx_offered]
    refine (horder.append_left s.taken).trans ?_
    rw [← List.append_assoc]
    exact h.order.append_right _
  closed_of_ended := h.closed_of_ended
  nones := hnones.trans h.nones
  serving := h.serving
  closedAt n hn := by
    have := h.closedAt n hn
    simp only [List.length_append]
    omega
  late n hn item hitem := by
    have hlate := h.late n hn item
    change item ∈ if s.ended then items queue else behind queue at hitem
    have hcases : item = (seg, s.offered.length) ∨
        item ∈ if s.ended then items s.queue else behind s.queue := by
      cases hended : s.ended with
      | true =>
          rw [hended] at hitem
          have := horder.subset hitem
          rw [List.mem_append, List.mem_singleton] at this
          exact this.symm
      | false =>
          rw [hended] at hitem
          exact List.mem_cons.mp (hbehind hitem)
    rcases hcases with rfl | hitem
    · exact h.closedAt n hn
    · exact hlate hitem

theorem enqueueCommitSegment (h : Inv s) (seg : α) : Inv (s.enqueueCommitSegment seg) := by
  have hroom := h.room
  simp only [State.enqueueCommitSegment]
  split
  · next hfull =>
      split
      · next hqueue =>
          rw [Full, hqueue, List.length_nil] at hfull
          exact absurd hfull (by decide)
      · next queue hqueue =>
          rw [hqueue] at hroom
          refine h.offer seg (by simpa using hroom) ?_ ?_ ?_ ?_
          · simp only [hqueue, items_append, items_none, items_nil, List.append_nil,
              List.append_assoc]
            exact List.perm_append_comm.append_left _
          · simp [hqueue]
          · simp [hqueue]
          · rw [behind_append_none, hqueue]
            exact List.subset_cons_of_subset _ behind_subset
      · next old queue hqueue =>
          rw [hqueue] at hroom
          refine h.offer seg (by simpa using hroom) ?_ ?_ ?_ ?_
          · simp [hqueue]
          · simp [hqueue]
          · simp [hqueue]
          · rw [hqueue]
            exact behind_append_some _
  · next hfull =>
      rw [Full, not_le] at hfull
      refine h.offer seg (by simpa using Nat.succ_le_of_lt hfull) ?_ ?_ ?_ ?_
      · simp
      · simp
      · simp
      · exact behind_append_some _

theorem take {batchMax : Nat} (h : Inv s) (htake : s.take batchMax = some s') : Inv s' := by
  have hroom := h.room
  have hplaced := h.placed
  have horder := h.order
  have hnones := h.nones
  have hlate := h.late
  rw [State.take] at htake
  split at htake
  · next queue hworker hqueue =>
      obtain ⟨hclosed, hended⟩ := h.not_ended_of_none hqueue
      simp only [hqueue, List.length_cons, items_none] at hroom hplaced horder
      rw [hqueue, nones_none, if_pos ⟨hclosed, hended⟩] at hnones
      rw [hqueue, hended] at hlate
      injection htake with htake
      subst htake
      exact {
        room := by simp only; omega
        placed := hplaced
        order := horder
        closed_of_ended := fun _ => hclosed
        nones := by simp only; rw [if_neg (by simp [ended])]; omega
        serving := h.serving
        closedAt := h.closedAt
        late := hlate }
  · next item queue hworker hqueue =>
      have hfills := @fills _ queue (batchMax - 1)
      have hended : s.ended = false := by rw [ended, hworker]
      rw [hqueue, items_some, hfills.items] at hplaced horder
      rw [hqueue, nones_some, hended] at hnones
      rw [hqueue, hended] at hlate
      rw [hqueue, List.length_cons] at hroom
      injection htake with htake
      subst htake
      exact {
        room := by have := hfills.length; simp only; omega
        placed := by
          refine List.Perm.trans ?_ hplaced
          simp only [List.append_assoc, List.cons_append]
          refine List.Perm.append_left _ ?_
          refine List.Perm.trans ?_ (List.perm_append_comm_assoc (item :: _) _ _)
          simp
        order := by simpa using horder
        closed_of_ended := fun h => nomatch h
        nones := hfills.nones.trans hnones
        serving := h.serving
        closedAt := h.closedAt
        late := fun n hn item hitem => hlate n hn item (hfills.behind hitem) }
  · cases htake

theorem putNone (h : Inv s) (hcloser : s.closer ≠ .closed) {n : Nat} (hn : n ≤ s.offered.length) :
    Inv ({ s with closedAt := some n } : State α).putNone := by
  have hended : s.ended = false := Bool.eq_false_iff.mpr fun hended =>
    hcloser (h.closed_of_ended hended)
  have hnones : State.nones s.queue = 0 := by rw [h.nones, if_neg (fun hc => hcloser hc.1)]
  have hclosedAt : ∀ m ∈ some n, m ≤ s.offered.length := fun m hm => Option.some.inj hm ▸ hn
  have hserving (c : Closer) (hc : c ≠ .serving) : c = .serving ↔ some n = none :=
    iff_of_false hc (by simp)
  -- Nothing is behind the `None` yet.
  have hlate (queue : List (Option (α × Nat))) (hbehind : behind queue = []) (item : α × Nat)
      (hitem : item ∈ if s.ended then items queue else behind queue) : n ≤ item.2 := by
    rw [hended, if_neg (by simp), hbehind] at hitem
    cases hitem
  rw [State.putNone]
  split
  · exact { h with
      closed_of_ended := fun hended' => absurd (hended.symm.trans hended') (by decide)
      nones := by simpa using hnones
      serving := hserving _ (by simp)
      closedAt := hclosedAt
      late := fun m hm item hitem =>
        Option.some.inj hm ▸ hlate s.queue (behind_eq_nil hnones) item hitem }
  · next hfull =>
      rw [Full, not_le] at hfull
      exact { h with
        room := by simpa using Nat.succ_le_of_lt hfull
        placed := by simpa using h.placed
        order := by simpa using h.order
        closed_of_ended := fun _ => rfl
        nones := by
          rw [if_pos ⟨rfl, hended⟩]
          simp [hnones]
        serving := hserving _ (by simp)
        closedAt := hclosedAt
        late := fun m hm item hitem => Option.some.inj hm ▸ hlate (s.queue ++ [none])
          (behind_append_none.trans (behind_eq_nil hnones)) item hitem }

theorem step {batchMax : Nat} {l : Label α} (h : Inv s) (hstep : s.step batchMax l = some s') :
    Inv s' := by
  cases l with
  | enqueue seg => exact Option.some.inj hstep ▸ h.enqueueCommitSegment seg
  | take => exact h.take hstep
  | done =>
      simp only [State.step] at hstep
      split at hstep
      · next segs hworker =>
          have hended : s.ended = false := by rw [ended, hworker]
          have hnones := h.nones
          have hlate := h.late
          rw [hended] at hnones hlate
          injection hstep with hstep
          subst hstep
          exact { h with closed_of_ended := (nomatch ·), nones := hnones, late := hlate }
      · cases hstep
  | close =>
      simp only [State.step] at hstep
      split at hstep
      · next hserving =>
          injection hstep with hstep
          rw [← hstep]
          exact h.putNone (by simp [hserving]) (Nat.le_refl _)
      · cases hstep
  | goOn =>
      simp only [State.step] at hstep
      split at hstep
      · next hwaiting =>
          split at hstep
          · cases hstep
          · injection hstep with hstep
            rw [← hstep]
            have hsome : s.closedAt ≠ none := fun hnone => by
              rw [h.serving.mpr hnone] at hwaiting
              cases hwaiting
            obtain ⟨n, hn⟩ := Option.ne_none_iff_exists'.mp hsome
            have := h.putNone (by simp [hwaiting]) (h.closedAt n hn)
            rwa [← hn] at this
      · cases hstep
  | cancel =>
      simp only [State.step] at hstep
      have hkeep (hworker : s.ended = false) :
          Inv { s with worker := .cancelled } := by
        have hnones := h.nones
        have hlate := h.late
        rw [hworker] at hnones hlate
        exact { h with closed_of_ended := (nomatch ·), nones := hnones, late := hlate }
      split at hstep
      · next hworker =>
          exact Option.some.inj hstep ▸ hkeep (by rw [ended, hworker])
      · next hworker =>
          exact Option.some.inj hstep ▸ hkeep (by rw [ended, hworker])
      · cases hstep

/-- The invariant holds in every state that is reached. -/
theorem run {batchMax : Nat} {labels : List (Label α)}
    (h : Run.run (State.step batchMax) State.init labels = some s) : Inv s := by
  have hguard : Guarded (State.step batchMax) (fun _ _ => True) State.init labels :=
    Guarded.of_labels fun _ _ => trivial
  exact run_guarded (fun _ _ _ h _ hstep => h.step hstep) .init hguard h

end Inv

/-! ## The worker comes to the `None` -/

end State

/-- A batch that the worker has in hand. -/
def Worker.inHand : Worker α → Nat
  | .batch _ => 1
  | _ => 0

/-- The `None` that is not put yet: it goes into the queue, and it has to be taken. -/
def Closer.toPut : Closer → Nat
  | .closed => 0
  | _ => 3

/-- What is left to do until the worker has ended. -/
def State.rank (s : State α) : Nat := 2 * s.queue.length + s.worker.inHand + s.closer.toPut

/-- A step of the worker, or of the `put` that waits. -/
def Label.isWork : Label α → Bool
  | .take | .done | .goOn => true
  | _ => false

def Label.isEnqueue : Label α → Bool
  | .enqueue _ => true
  | _ => false

namespace State

variable {s s' : State α} {batchMax : Nat}

theorem rank_enqueueCommitSegment (seg : α) : (s.enqueueCommitSegment seg).rank ≤ s.rank + 2 := by
  simp only [enqueueCommitSegment]
  split
  · split
    · simp only [rank]
      omega
    · next hqueue =>
        simp only [rank, hqueue, List.length_append, List.length_cons, List.length_nil]
        omega
    · next hqueue =>
        simp only [rank, hqueue, List.length_append, List.length_cons, List.length_nil]
        omega
  · simp only [rank, List.length_append, List.length_cons, List.length_nil]
    omega

theorem rank_take (h : s.take batchMax = some s') : s'.rank + 1 ≤ s.rank := by
  rw [take] at h
  split at h
  · next hworker hqueue =>
      injection h with h
      rw [← h]
      simp only [rank, hworker, hqueue, List.length_cons, Worker.inHand]
      omega
  · next item queue hworker hqueue =>
      have := (@fills _ queue (batchMax - 1)).length
      injection h with h
      rw [← h]
      simp only [rank, hworker, hqueue, List.length_cons, Worker.inHand]
      omega
  · cases h

theorem rank_putNone (h : s.closer ≠ .closed) :
    s.putNone.rank + (if s.Full then 0 else 1) ≤ s.rank := by
  rw [putNone]
  split
  · simp [rank, Closer.toPut]
  · simp only [rank, List.length_append, List.length_cons, List.length_nil, Closer.toPut]
    omega

theorem rank_step {l : Label α} (h : s.step batchMax l = some s') :
    s'.rank + l.isWork.toNat ≤ s.rank + 2 * l.isEnqueue.toNat := by
  cases l with
  | enqueue seg => exact Option.some.inj h ▸ rank_enqueueCommitSegment seg
  | take => exact rank_take h
  | done =>
      simp only [step] at h
      split at h
      · next hworker =>
          rw [← Option.some.inj h]
          simp only [rank, hworker, Worker.inHand, Label.isWork, Label.isEnqueue, Bool.toNat_true,
            Bool.toNat_false]
          omega
      · cases h
  | close =>
      simp only [step] at h
      split at h
      · next hcloser =>
          have := @rank_putNone _ { s with closedAt := some s.offered.length }
            (by simp [hcloser])
          rw [← Option.some.inj h]
          exact (Nat.le_add_right _ _).trans this
      · cases h
  | goOn =>
      simp only [step] at h
      split at h
      · next hcloser =>
          split at h
          · cases h
          · next hfull =>
              have := @rank_putNone _ s (by simp [hcloser])
              rw [if_neg hfull] at this
              rw [← Option.some.inj h]
              exact this
      · cases h
  | cancel =>
      simp only [step] at h
      split at h
      · next hworker =>
          rw [← Option.some.inj h]
          simp [rank, hworker, Worker.inHand, Label.isWork]
      · next hworker =>
          rw [← Option.some.inj h]
          simp only [rank, hworker, Worker.inHand, Label.isWork, Bool.toNat_false]
          omega
      · cases h

/-- When nothing is left to do for the worker and the `put`, the worker has ended. -/
theorem Inv.ended_of_stuck (h : Inv s) (hcloser : s.closer ≠ .serving)
    (hworker : s.worker ≠ .cancelled)
    (hstuck : ∀ l : Label α, l.isWork = true → s.step batchMax l = none) : s.worker = .ended := by
  have htake := hstuck .take rfl
  have hdone := hstuck .done rfl
  have hgoOn := hstuck .goOn rfl
  cases hw : s.worker with
  | ended => rfl
  | cancelled => exact absurd hw hworker
  | batch segs => simp [State.step, hw] at hdone
  | get =>
      simp only [State.step, State.take, hw] at htake
      have hempty : s.queue = [] := by
        cases hqueue : s.queue with
        | nil => rfl
        | cons item queue => cases item <;> simp [hqueue] at htake
      cases hc : s.closer with
      | serving => exact absurd hc hcloser
      | waiting =>
          have hroom : ¬ s.Full := by
            rw [Full, hempty, List.length_nil]
            decide
          simp [State.step, hc, hroom] at hgoOn
      | closed =>
          have hnones := h.nones
          rw [if_pos ⟨hc, by rw [ended, hw]⟩, hempty] at hnones
          cases hnones

/-- What came before the end has been taken or dropped when the worker has ended. -/
theorem Inv.done_of_ended (h : Inv s) (hworker : s.worker = .ended) :
    ∃ n, s.closedAt = some n ∧
      ∀ item ∈ s.offered.zipIdx.take n, item ∈ s.taken ∨ item ∈ s.dropped := by
  have hended : s.ended = true := by rw [ended, hworker]
  have hsome : s.closedAt ≠ none := fun hnone => by
    have hclosed := h.closed_of_ended hended
    rw [h.serving.mpr hnone] at hclosed
    cases hclosed
  obtain ⟨n, hn⟩ := Option.ne_none_iff_exists'.mp hsome
  refine ⟨n, hn, fun item hitem => ?_⟩
  have hplaced := h.placed.mem_iff.mpr (List.mem_of_mem_take hitem)
  rw [List.mem_append, List.mem_append] at hplaced
  rcases hplaced with hplaced | hleft
  · exact hplaced
  · have hlate := h.late n hn item
    rw [hended] at hlate
    have hindex : item.2 < n := by
      obtain ⟨i, hi, rfl⟩ := List.getElem_of_mem hitem
      simp only [List.length_take] at hi
      simp only [List.getElem_take, List.getElem_zipIdx]
      omega
    exact absurd (hlate hleft) (Nat.not_le.mpr hindex)

end State

/-! ## The handler's own queue -/

section

variable {σ : Type} {cfg : HandlerConfig σ} {h : Handler σ} {s s' : State Segment}

/-- The queue is that of the handler, which is not over yet. -/
def Shows (h : Handler σ) (s : State Segment) : Prop :=
  s.queue.map (Option.map Prod.fst) = h.commitQueue.map some

theorem Shows.enqueueCommitSegment (hshows : Shows h s) {item : Int × PyStr}
    (hitem : (item.2.isEmpty || isPunctOnly cfg.strict.text item.2) = false) :
    Shows (h.enqueueCommitSegment cfg item)
      (s.enqueueCommitSegment ⟨item.1, item.2, h.epoch⟩) := by
  have hlength : s.queue.length = h.commitQueue.length := by
    simpa using congrArg List.length hshows
  have hfull : s.Full ↔ ¬ h.commitQueue.length < commitQueueSize := by
    rw [State.Full, hlength, not_lt]
  rw [Shows] at hshows ⊢
  simp only [State.enqueueCommitSegment, Handler.enqueueCommitSegment, hitem, hfull]
  by_cases hroom : h.commitQueue.length < commitQueueSize
  · simp [hroom, hshows]
  · rw [if_pos hroom, if_neg (by simp), if_neg hroom]
    cases hqueue : s.queue with
    | nil =>
        rw [← hlength, hqueue] at hroom
        exact absurd (by decide) hroom
    | cons first queue =>
        rw [hqueue] at hshows
        cases hcommit : h.commitQueue with
        | nil => simp [hcommit] at hshows
        | cons segment rest =>
            rw [hcommit] at hshows
            cases first <;> simp_all

theorem fill_shows {queue : List (Option (Segment × Nat))} {segs : List Segment}
    (hshows : queue.map (Option.map Prod.fst) = segs.map some) (n : Nat) :
    (State.fill n queue).1.map Prod.fst = segs.take n ∧
      (State.fill n queue).2.map (Option.map Prod.fst) = (segs.drop n).map some := by
  induction n generalizing queue segs with
  | zero => exact ⟨rfl, hshows⟩
  | succ n ih =>
      match queue, segs with
      | [], [] => exact ⟨rfl, rfl⟩
      | [], _ :: _ | _ :: _, [] | none :: _, _ :: _ => simp at hshows
      | some item :: queue, seg :: segs =>
          simp only [List.map_cons, Option.map_some, List.cons.injEq, Option.some.injEq] at hshows
          obtain ⟨htaken, hleft⟩ := ih hshows.2
          exact ⟨by simp [State.fill, hshows.1, htaken], hleft⟩

/-- The batch is what `takeBatch` takes, and the queue is what it leaves. -/
theorem Shows.take (hshows : Shows h s)
    (htake : s.take (if cfg.strictStableSentenceOnly then 1 else 4) = some s') :
    ∃ batch, s'.worker = .batch batch ∧
      batch.map Prod.fst = (Handler.takeBatch cfg h.commitQueue).1 ∧
      Shows (h.commitTake cfg) s' := by
  rw [Shows] at hshows
  rw [State.take] at htake
  split at htake
  · next queue hworker hqueue =>
      rw [hqueue] at hshows
      cases hcommit : h.commitQueue <;> simp [hcommit] at hshows
  · next item queue hworker hqueue =>
      rw [hqueue] at hshows
      cases hcommit : h.commitQueue with
      | nil => simp [hcommit] at hshows
      | cons seg rest =>
          simp only [hcommit, List.map_cons, Option.map_some, List.cons.injEq,
            Option.some.injEq] at hshows
          have hbatch : (if cfg.strictStableSentenceOnly then 1 else 4) =
              (if cfg.strictStableSentenceOnly then 1 else 4) - 1 + 1 := by split <;> rfl
          obtain ⟨htaken, hleft⟩ :=
            fill_shows hshows.2 ((if cfg.strictStableSentenceOnly then 1 else 4) - 1)
          injection htake with htake
          rw [← htake, Shows]
          simp only [Handler.commitTake, Handler.takeBatch, hcommit]
          rw [hbatch, List.take_succ_cons, List.drop_succ_cons]
          refine ⟨_, rfl, ?_, ?_⟩
          · simpa [hshows.1] using htaken
          · simpa using hleft
  · cases htake

end

namespace State

variable {s s' : State α} {batchMax : Nat}

/-- Whatever comes when, the queue keeps its bound, every segment is in one place and
none overtakes another. From the end of the connection the worker and the `put` take so
many steps at most, and where they cannot go on the worker has ended, unless it was
cancelled; and then of what was offered before the end all is taken or dropped. -/
theorem shutdown {labels : List (Label α)} (h : run (step batchMax) init labels = some s) :
    s.queue.length ≤ commitQueueSize ∧
      (s.taken ++ s.dropped ++ items s.queue).Perm s.offered.zipIdx ∧
      (s.taken ++ items s.queue).Sublist s.offered.zipIdx ∧
      (s.worker = .ended → ∃ n, s.closedAt = some n ∧
        ∀ item ∈ s.offered.zipIdx.take n, item ∈ s.taken ∨ item ∈ s.dropped) ∧
      (s.closer ≠ .serving → s.worker ≠ .cancelled →
        (∀ l : Label α, l.isWork = true → s.step batchMax l = none) → s.worker = .ended) ∧
      ∀ more s', run (step batchMax) s more = some s' →
        more.countP Label.isWork + s'.rank ≤ s.rank + 2 * more.countP Label.isEnqueue := by
  have hinv := Inv.run h
  exact ⟨hinv.room, hinv.placed, hinv.order, hinv.done_of_ended, hinv.ended_of_stuck,
    fun _ _ => countP_add_le fun _ _ _ => rank_step⟩

/-- The first batch comes upon the `None`, and puts it behind a segment that came late. -/
theorem shutdown_moved :
    let s : State Nat := ⟨[], .closed, .ended, [7, 8], [(7, 0), (8, 1)], [], some 1⟩
    run (step 4) init [.enqueue 7, .close, .enqueue 8, .take, .done, .take, .done, .take] = some s ∧
      ∃ n, s.closedAt = some n ∧
        ∀ item ∈ s.offered.zipIdx.take n, item ∈ s.taken ∨ item ∈ s.dropped := by
  intro s
  have hrun : run (step 4) init
      [.enqueue 7, .close, .enqueue 8, .take, .done, .take, .done, .take] = some s := rfl
  exact ⟨hrun, (shutdown hrun).2.2.2.1 rfl⟩

end State

end VTranser.Translator.Shutdown

import VTranser.Translator.Handler

/-!
# The end of a connection of the translator

When the connection is over, `None` is put on the commit queue, and the commit worker
ends when it takes it. The queue may be full then, so that the `put` has to wait; tail
releases that still sleep may wake up and enqueue; a segment that finds the queue full
takes the place of the oldest, which may be the `None`; and a worker that fills a batch
may come upon the `None` and put it back.

A segment is with its place among those that were offered to the queue. What a batch is
for is not here: the worker has it, and then it has not.
-/

namespace VTranser.Translator.Shutdown

open Handler (commitQueueSize)

/-- The `finally` of the handler: it is not there yet, it waits, `None` is put. -/
inductive Closer
  | serving | waiting | closed
  deriving DecidableEq, Repr

/-- `commit_worker`; it is cancelled when the `finally` has waited too long. -/
inductive Worker (α : Type*)
  | get
  | batch (segs : List (α × Nat))
  | ended
  | cancelled
  deriving DecidableEq, Repr

structure State (α : Type*) where
  queue : List (Option (α × Nat))
  closer : Closer
  worker : Worker α
  offered : List α
  taken : List (α × Nat)
  dropped : List (α × Nat)
  /-- How many were offered when the `finally` was reached. -/
  closedAt : Option Nat

inductive Label (α : Type*)
  | enqueue (seg : α)
  | take
  | done
  | close
  /-- The `put` of `None` goes on. -/
  | goOn
  | cancel
  deriving DecidableEq, Repr

namespace State

variable {α : Type*}

def init : State α := ⟨[], .serving, .get, [], [], [], none⟩

/-- `commit_queue.full()` -/
def Full (s : State α) : Prop := commitQueueSize ≤ s.queue.length

instance (s : State α) : Decidable s.Full :=
  inferInstanceAs (Decidable (commitQueueSize ≤ s.queue.length))

/-- `_enqueue_commit_segment`, for a segment that is worth translating. -/
def enqueueCommitSegment (seg : α) (s : State α) : State α :=
  let item := (seg, s.offered.length)
  let offered := s.offered ++ [seg]
  if s.Full then
    match s.queue with
    | [] => s
    -- `None` is put back, and there is no room for the segment.
    | none :: queue => { s with offered, queue := queue ++ [none], dropped := s.dropped ++ [item] }
    | some old :: queue =>
        { s with offered, queue := queue ++ [some item], dropped := s.dropped ++ [old] }
  else { s with offered, queue := s.queue ++ [some item] }

/-- The loop that fills a batch, for so many more. -/
def fill : Nat → List (Option (α × Nat)) → List (α × Nat) × List (Option (α × Nat))
  | 0, queue => ([], queue)
  | _, [] => ([], [])
  | _ + 1, none :: queue => ([], queue ++ [none])
  | n + 1, some item :: queue =>
      let filled := fill n queue
      (item :: filled.1, filled.2)

/-- `commit_worker` has an item. -/
def take (batchMax : Nat) (s : State α) : Option (State α) :=
  match s.worker, s.queue with
  | .get, none :: queue => some { s with queue := queue, worker := .ended }
  | .get, some item :: queue =>
      let filled := fill (batchMax - 1) queue
      some { s with
        queue := filled.2
        worker := .batch (item :: filled.1)
        taken := s.taken ++ item :: filled.1 }
  | _, _ => none

/-- `commit_queue.put(None)`, as far as it comes. -/
def putNone (s : State α) : State α :=
  if s.Full then { s with closer := .waiting }
  else { s with closer := .closed, queue := s.queue ++ [none] }

def step (batchMax : Nat) (s : State α) : Label α → Option (State α)
  | .enqueue seg => some (s.enqueueCommitSegment seg)
  | .take => s.take batchMax
  | .done => match s.worker with
      | .batch _ => some { s with worker := .get }
      | _ => none
  | .close => match s.closer with
      | .serving => some { s with closedAt := some s.offered.length }.putNone
      | _ => none
  | .goOn => match s.closer with
      | .waiting => if s.Full then none else some s.putNone
      | _ => none
  | .cancel => match s.closer, s.worker with
      | .closed, .get | .closed, .batch _ => some { s with worker := .cancelled }
      | _, _ => none

end State

end VTranser.Translator.Shutdown

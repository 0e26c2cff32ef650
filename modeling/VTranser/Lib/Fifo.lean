import Mathlib.Algebra.Order.Ring.Nat
import Mathlib.Data.List.Basic
import Mathlib.Tactic.Common

/-!
# A queue with marks

Elements go into a queue in batches, each batch with a mark, and leave it in the
order in which they came, some because they are used and some because they are
dropped. A program may hold the marks of its queue as runs, a number of elements
with one mark, and cut the runs where elements leave.
-/

namespace VTranser

/-- Why an element has left its queue. -/
inductive Fate
  | used | dropped
  deriving DecidableEq, Repr

/-- The elements that wait, and those that have left. -/
structure Fifo (α β : Type*) where
  waiting : List (α × β)
  gone : List (Fate × α × β)

namespace Fifo

variable {α β : Type*}

def empty : Fifo α β := ⟨[], []⟩

def append (q : Fifo α β) (xs : List α) (mark : β) : Fifo α β :=
  { q with waiting := q.waiting ++ xs.map fun x => (x, mark) }

/-- The `n` oldest elements leave. -/
def take (q : Fifo α β) (fate : Fate) (n : Nat) : Fifo α β :=
  { waiting := q.waiting.drop n
    gone := q.gone ++ (q.waiting.take n).map fun x => (fate, x) }

/-- The elements that were used. -/
def used (q : Fifo α β) : List α :=
  (q.gone.filter fun x => x.1 = .used).map fun x => x.2.1

/-- The mark of the element that left last. -/
def lastMark (q : Fifo α β) : Option β := q.gone.getLast?.map fun x => x.2.2

/-- Everything that was put into the queue. -/
def all (q : Fifo α β) : List (α × β) := q.gone.map Prod.snd ++ q.waiting

@[simp] theorem all_append (q : Fifo α β) (xs : List α) (mark : β) :
    (q.append xs mark).all = q.all ++ xs.map fun x => (x, mark) := by
  simp [all, append]

@[simp] theorem all_take (q : Fifo α β) (fate : Fate) (n : Nat) : (q.take fate n).all = q.all := by
  have hsnd : (Prod.snd ∘ fun x : α × β => (fate, x)) = id := rfl
  simp [all, take, List.append_assoc, hsnd]

@[simp] theorem used_take_used (q : Fifo α β) (n : Nat) :
    (q.take .used n).used = q.used ++ (q.waiting.take n).map Prod.fst := by
  have hkept : ∀ l : List (α × β),
      (l.map fun x => (Fate.used, x)).filter (fun x => x.1 = .used) = l.map fun x => (.used, x) :=
    fun l => List.filter_eq_self.mpr fun x hx => by
      obtain ⟨y, -, rfl⟩ := List.mem_map.mp hx
      rfl
  rw [used, take, List.filter_append, hkept, List.map_append, List.map_map]
  rfl

@[simp] theorem used_take_dropped (q : Fifo α β) (n : Nat) :
    (q.take .dropped n).used = q.used := by
  have hnone : ∀ l : List (α × β),
      (l.map fun x => (Fate.dropped, x)).filter (fun x => x.1 = .used) = [] :=
    fun l => List.filter_eq_nil_iff.mpr fun x hx => by
      obtain ⟨y, -, rfl⟩ := List.mem_map.mp hx
      simp
  rw [used, take, List.filter_append, hnone, List.append_nil]
  rfl

theorem lastMark_take (q : Fifo α β) (fate : Fate) (n : Nat) :
    (q.take fate n).lastMark =
      (((q.waiting.map Prod.snd).take n).getLast?).or q.lastMark := by
  rw [lastMark, lastMark, take, List.getLast?_append, ← List.map_take, List.getLast?_map,
    List.getLast?_map]
  cases (q.waiting.take n).getLast? <;> rfl

theorem take_take (q : Fifo α β) (fate : Fate) (m n : Nat) :
    (q.take fate m).take fate n = q.take fate (m + n) := by
  simp [take, List.take_add, List.append_assoc]

end Fifo

/-! ## Runs of marks -/

section Runs

variable {β : Type*}

/-- The marks of the elements, run by run. -/
def marks (runs : List (Nat × β)) : List β := runs.flatMap fun r => List.replicate r.1 r.2

@[simp] theorem marks_nil : marks ([] : List (Nat × β)) = [] := rfl

@[simp] theorem marks_cons (n : Nat) (b : β) (runs : List (Nat × β)) :
    marks ((n, b) :: runs) = List.replicate n b ++ marks runs := rfl

@[simp] theorem marks_append (runs runs' : List (Nat × β)) :
    marks (runs ++ runs') = marks runs ++ marks runs' := by
  simp [marks]

theorem length_marks (runs : List (Nat × β)) : (marks runs).length = (runs.map Prod.fst).sum := by
  induction runs with
  | nil => rfl
  | cons r runs ih => rw [marks_cons, List.length_append, List.length_replicate, ih]; rfl

/-- A run that is cut, and the marks that are left. -/
theorem marks_cut {n m : Nat} (h : n ≤ m) (b : β) (runs : List (Nat × β)) :
    marks ((m - n, b) :: runs) = (marks ((m, b) :: runs)).drop n := by
  rw [marks_cons, marks_cons, List.drop_append_of_le_length (by simpa using h), List.drop_replicate]

/-- A run that is all taken. -/
theorem marks_drop_cons {n m : Nat} (h : m ≤ n) (b : β) (runs : List (Nat × β)) :
    (marks ((m, b) :: runs)).drop n = (marks runs).drop (n - m) := by
  rw [marks_cons, List.drop_append, List.length_replicate,
    List.drop_eq_nil_of_le (by simpa using h), List.nil_append]

theorem getLast?_take_run {n m : Nat} (hn : 0 < n) (hm : n ≤ m) (b : β)
    (runs : List (Nat × β)) : ((marks ((m, b) :: runs)).take n).getLast? = some b := by
  rw [marks_cons, List.take_append_of_le_length (by simpa using hm), List.take_replicate,
    Nat.min_eq_left hm, List.getLast?_replicate, if_neg (by omega)]

theorem getLast?_take_runs {n m : Nat} (hm : 0 < m) (h : m ≤ n) (b : β)
    (runs : List (Nat × β)) :
    ((marks ((m, b) :: runs)).take n).getLast? =
      some ((((marks runs).take (n - m)).getLast?).getD b) := by
  have hall : (List.replicate m b).take n = List.replicate m b :=
    List.take_of_length_le (by simpa using h)
  rw [marks_cons, List.take_append, List.length_replicate, List.getLast?_append, hall,
    List.getLast?_replicate, if_neg (by omega)]
  cases ((marks runs).take (n - m)).getLast? <;> rfl

end Runs

end VTranser

import Mathlib.Data.List.Induction
import Mathlib.Order.MinMax
import Mathlib.Tactic.Common

/-!
# A trigger with two thresholds

It goes on with a reading that reaches `high`, and stays on until a reading is no
higher than `low`. So it is on after some readings when one of them reached `high` and
none from there on was as low as `low`.
-/

namespace VTranser

structure Trigger (α : Type*) where
  low : α
  high : α

namespace Trigger

variable {α : Type*} [LinearOrder α] (t : Trigger α)

/-- Whether it is on after one more reading. -/
def next (on : Bool) (x : α) : Bool := (on || decide (t.high ≤ x)) && decide (t.low < x)

/-- Whether it is on after some readings, when it was off before. -/
def after (readings : List α) : Bool := readings.foldl t.next false

variable {t}

theorem next_iff {on : Bool} {x : α} : t.next on x = true ↔ (on = true ∨ t.high ≤ x) ∧ t.low < x := by
  simp only [next, Bool.and_eq_true, Bool.or_eq_true, decide_eq_true_eq]

theorem after_concat (readings : List α) (x : α) :
    t.after (readings ++ [x]) = t.next (t.after readings) x := by
  rw [after, after, List.foldl_append]
  rfl

end Trigger

end VTranser

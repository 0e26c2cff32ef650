import Mathlib.Data.List.DropRight
import Mathlib.Data.List.Induction

/-!
# Sliding windows

The last elements of a list that grows at its end. Keeping only a window and adding to
it comes to the same as adding to all of it; and a window on batches of one size is a
window on what they are made of.
-/

namespace VTranser.Window

variable {α β : Type*}

theorem rtake_append_rtake (l r : List α) (n : Nat) : (l.rtake n ++ r).rtake n = (l ++ r).rtake n := by
  have htake : ∀ a b : List α, (a ++ b.take n).take n = (a ++ b).take n := fun a b => by
    rw [List.take_append, List.take_append, List.take_take, Nat.min_eq_left (Nat.sub_le ..)]
  rw [List.rtake_eq_reverse_take_reverse, List.reverse_append, List.rtake_eq_reverse_take_reverse l,
    List.reverse_reverse, htake, ← List.reverse_append, ← List.rtake_eq_reverse_take_reverse]

theorem rtake_append_length (l r : List α) (n : Nat) :
    (l ++ r).rtake (n + r.length) = l.rtake n ++ r := by
  have hlen : (l ++ r).length - (n + r.length) = l.length - n := by
    rw [List.length_append]
    omega
  rw [List.rtake, hlen, List.drop_append_of_le_length (Nat.sub_le ..), List.rtake]

/-- Batches of `m` elements. -/
theorem rtake_flatMap {f : α → List β} {m : Nat} (hf : ∀ x, (f x).length = m) (l : List α)
    (n : Nat) : (l.flatMap f).rtake (m * n) = (l.rtake n).flatMap f := by
  induction l using List.reverseRecOn generalizing n with
  | nil => simp
  | append_singleton l x ih =>
      cases n with
      | zero => simp
      | succ n =>
          rw [List.flatMap_append, List.flatMap_singleton, List.rtake_concat_succ,
            List.flatMap_append, List.flatMap_singleton, ← ih n, Nat.mul_succ, ← hf x,
            rtake_append_length]

end VTranser.Window

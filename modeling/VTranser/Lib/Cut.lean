import Mathlib.Data.List.Infix
import Mathlib.Tactic.Common

/-!
# The first place of a separator

A text is cut where a separator is first found in it: `cutAt_none` says when it is
found nowhere, and `cutAt_append` that nothing before it is taken for it that does not
begin like it.
-/

namespace VTranser.Cut

variable {α : Type*} [DecidableEq α]

/-- What is before the first `sep` and what is behind it. -/
def cutAt (sep : List α) : List α → Option (List α × List α)
  | [] => if sep.isEmpty then some ([], []) else none
  | u :: s =>
      if sep.isPrefixOf (u :: s) then some ([], (u :: s).drop sep.length)
      else (cutAt sep s).map fun (before, after) => (u :: before, after)

/-- A text is what is before the separator, the separator, and what is behind it. -/
theorem cutAt_eq {sep s before after : List α} (h : cutAt sep s = some (before, after)) :
    s = before ++ sep ++ after := by
  induction s generalizing before with
  | nil =>
      simp only [cutAt] at h
      split at h
      · next hempty =>
        cases h
        simpa using hempty.symm
      · cases h
  | cons u s ih =>
      simp only [cutAt] at h
      split at h
      · next hpre =>
        obtain ⟨t, ht⟩ := List.isPrefixOf_iff_prefix.mp hpre
        cases h
        rw [← ht]
        simp
      · obtain ⟨⟨before', after'⟩, hcut, hpair⟩ := Option.map_eq_some_iff.mp h
        cases hpair
        rw [ih hcut]
        simp

theorem cutAt_none {sep s : List α} (h : ¬ sep <:+: s) : cutAt sep s = none := by
  cases hcut : cutAt sep s with
  | none => rfl
  | some r => exact absurd ⟨r.1, r.2, (cutAt_eq hcut).symm⟩ h

theorem cutAt_append {a : α} {sep before : List α} (h : a ∉ before) (after : List α) :
    cutAt (a :: sep) (before ++ a :: (sep ++ after)) = some (before, after) := by
  induction before with
  | nil =>
      have hpre : (a :: sep).isPrefixOf (a :: (sep ++ after)) = true :=
        List.isPrefixOf_iff_prefix.mpr ⟨after, rfl⟩
      simp only [List.nil_append, cutAt, hpre, if_true, List.length_cons, List.drop_succ_cons,
        List.drop_left]
  | cons u before ih =>
      obtain ⟨hu, hbefore⟩ := not_or.mp (mt List.mem_cons.mpr h)
      have hpre : (a :: sep).isPrefixOf (u :: (before ++ a :: (sep ++ after))) = false := by
        simp [List.isPrefixOf_cons_cons, hu]
      simp only [List.cons_append, cutAt, hpre, ih hbefore, Option.map_some]
      simp

end VTranser.Cut

import Mathlib.Data.List.DropRight
import Mathlib.Data.List.Infix

/-!
# Texts kept in step by end patches

An end patch deletes a number of symbols from the end of a text and appends
others. `lcpLen` finds how much of an old text a new one keeps, and the patch
that deletes the rest and appends the new part turns the one into the other.

The receiver need not hold the whole text. If what it holds is a suffix of the
sender's text, a patch leaves it a suffix (`applyEnd_suffix`), because a delete
that runs past its own beginning only empties it. It may also count in other
units than the sender: `applyEnd_flatMap` is the step for a receiver that
stores every symbol as a block of units, and it needs the deleted symbols to be
as many units as the sender counted symbols.
-/

namespace VTranser.EndPatch

variable {α β : Type*}

/-- Delete `d` symbols from the end, then append `ins`. -/
def applyEnd (text : List α) (d : Nat) (ins : List α) : List α :=
  text.rdrop d ++ ins

theorem rdrop_append_length (a b : List α) : (a ++ b).rdrop b.length = a := by
  simp [List.rdrop]

theorem rdrop_of_length_le {l : List α} {n : Nat} (h : l.length ≤ n) : l.rdrop n = [] := by
  simp [List.rdrop, Nat.sub_eq_zero_of_le h]

theorem applyEnd_append_length (kept removed ins : List α) :
    applyEnd (kept ++ removed) removed.length ins = kept ++ ins := by
  rw [applyEnd, rdrop_append_length]

/-- A list of patches, oldest first. -/
def applyAll (text : List α) (ps : List (Nat × List α)) : List α :=
  ps.foldl (fun t p => applyEnd t p.1 p.2) text

@[simp] theorem applyAll_nil (text : List α) : applyAll text [] = text := rfl

theorem applyAll_cons (text : List α) (p : Nat × List α) (ps : List (Nat × List α)) :
    applyAll text (p :: ps) = applyAll (applyEnd text p.1 p.2) ps := rfl

/-- Patches that delete nothing only append. -/
theorem applyAll_appends {ps : List (Nat × List α)} (h : ∀ p ∈ ps, p.1 = 0) :
    ∀ text : List α, applyAll text ps = text ++ ps.flatMap Prod.snd := by
  induction ps with
  | nil => intro text; simp
  | cons p ps ih =>
      intro text
      rw [applyAll_cons, ih (fun q hq => h q (by simp [hq])), h p (by simp)]
      simp [applyEnd, List.rdrop]

section Lcp

variable [DecidableEq α]

/-- The length of the longest common prefix. -/
def lcpLen : List α → List α → Nat
  | a :: as, b :: bs => if a = b then lcpLen as bs + 1 else 0
  | _, _ => 0

theorem lcpLen_split (old new : List α) :
    old.take (lcpLen old new) = new.take (lcpLen old new) ∧
      lcpLen old new ≤ old.length ∧ lcpLen old new ≤ new.length := by
  induction old generalizing new with
  | nil => simp [lcpLen]
  | cons a as ih =>
      cases new with
      | nil => simp [lcpLen]
      | cons b bs =>
          obtain ⟨htake, hold, hnew⟩ := ih bs
          rw [lcpLen]
          split
          · next heq =>
              subst heq
              refine ⟨?_, by simpa using hold, by simpa using hnew⟩
              rw [List.take_succ_cons, List.take_succ_cons, htake]
          · simp

/-- No common prefix is longer. -/
theorem length_le_lcpLen {common old new : List α} (hold : common <+: old)
    (hnew : common <+: new) : common.length ≤ lcpLen old new := by
  induction common generalizing old new with
  | nil => exact Nat.zero_le _
  | cons a as ih =>
      obtain ⟨old, rfl⟩ := hold
      obtain ⟨new, rfl⟩ := hnew
      have hrec := ih (List.prefix_append as old) (List.prefix_append as new)
      simp only [List.cons_append, lcpLen, if_true, List.length_cons]
      omega

/-- The patch computed from the longest common prefix: what both texts keep,
what the old one loses and what the new one gains. -/
theorem lcp_patch (old new : List α) : ∃ kept removed,
    old = kept ++ removed ∧ new = kept ++ new.drop (lcpLen old new) ∧
      kept.length = lcpLen old new ∧ removed.length = old.length - lcpLen old new := by
  obtain ⟨htake, hold, -⟩ := lcpLen_split old new
  refine ⟨old.take (lcpLen old new), old.drop (lcpLen old new),
    (List.take_append_drop _ _).symm, ?_, ?_, ?_⟩
  · rw [htake, List.take_append_drop]
  · rw [List.length_take, Nat.min_eq_left hold]
  · rw [List.length_drop]

end Lcp

/-! ## A receiver that holds only the end of the text -/

theorem rdrop_suffix {a b : List α} (h : a <:+ b) (n : Nat) : a.rdrop n <:+ b.rdrop n := by
  obtain ⟨u, rfl⟩ := h
  rcases Nat.le_total a.length n with hn | hn
  · rw [rdrop_of_length_le hn]
    exact List.nil_suffix
  · refine ⟨u, ?_⟩
    simp only [List.rdrop, List.length_append]
    rw [Nat.add_sub_assoc hn, List.take_length_add_append]

theorem applyEnd_suffix {a b : List α} (h : a <:+ b) (d : Nat) (ins : List α) :
    applyEnd a d ins <:+ applyEnd b d ins := by
  obtain ⟨u, hu⟩ := rdrop_suffix h d
  exact ⟨u, by rw [applyEnd, applyEnd, ← hu, List.append_assoc]⟩

/-- A receiver whose held end was cut off the whole text is made whole again by
a patch that deletes everything. -/
theorem applyEnd_all {a : List α} {d : Nat} (h : a.length ≤ d) (ins : List α) :
    applyEnd a d ins = ins := by
  rw [applyEnd, rdrop_of_length_le h, List.nil_append]

/-! ## A receiver that counts in other units -/

theorem applyEnd_flatMap (enc : α → List β) {kept removed : List α}
    (h : (removed.flatMap enc).length = removed.length) (ins : List α) :
    applyEnd ((kept ++ removed).flatMap enc) removed.length (ins.flatMap enc) =
      (kept ++ ins).flatMap enc := by
  rw [List.flatMap_append, List.flatMap_append, ← h]
  exact applyEnd_append_length _ _ _

end VTranser.EndPatch

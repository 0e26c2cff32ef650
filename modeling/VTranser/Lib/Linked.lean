import Mathlib.Data.List.Induction
import Mathlib.Data.List.Nodup
import Mathlib.Data.Option.Basic

/-!
# Records that name the one before

Every record has an id, and may name another as its parent. A list of them is linked
when the first names none and each of the others names the one before it. If no two
have the same id, no two have the same parent.
-/

namespace VTranser

variable {α ι : Type*} {idOf : α → ι} {parent : α → Option ι} {l : List α}

/-- The parents are the ids, one place further. -/
def Linked (idOf : α → ι) (parent : α → Option ι) (l : List α) : Prop :=
  l.map parent = (none :: l.map fun a => some (idOf a)).dropLast

namespace Linked

theorem nil : Linked idOf parent [] := rfl

theorem concat (h : Linked idOf parent l) {a : α} (ha : parent a = l.getLast?.map idOf) :
    Linked idOf parent (l ++ [a]) := by
  have hlast : (none :: l.map fun a => some (idOf a)) =
      (none :: l.map fun a => some (idOf a)).dropLast ++ [l.getLast?.map idOf] := by
    cases l using List.reverseRecOn with
    | nil => rfl
    | append_singleton l b =>
        rw [List.map_append, List.getLast?_concat, ← List.cons_append]
        exact (congrArg (· ++ _) List.dropLast_concat).symm
  rw [Linked, List.map_append, h, List.map_append, ← List.cons_append]
  show _ ++ [parent a] = List.dropLast (_ ++ [some (idOf a)])
  rw [List.dropLast_concat, ha, ← hlast]

theorem exists_parent (h : Linked idOf parent l) {a : α} (ha : a ∈ l) {p : ι}
    (hp : parent a = some p) : ∃ b ∈ l, idOf b = p := by
  have hmem : some p ∈ l.map parent := List.mem_map.mpr ⟨a, ha, hp⟩
  rw [h] at hmem
  rcases List.mem_cons.mp ((List.dropLast_sublist _).subset hmem) with hnone | hsome
  · cases hnone
  · obtain ⟨b, hb, hid⟩ := List.mem_map.mp hsome
    exact ⟨b, hb, Option.some.inj hid⟩

theorem nodup_parents (h : Linked idOf parent l) (hids : (l.map idOf).Nodup) :
    (l.map parent).Nodup := by
  rw [h]
  refine List.Nodup.sublist (List.dropLast_sublist _) (List.nodup_cons.mpr ⟨?_, ?_⟩)
  · simp
  · have hsome := hids.map (Option.some_injective ι)
    rwa [List.map_map] at hsome

end Linked

end VTranser

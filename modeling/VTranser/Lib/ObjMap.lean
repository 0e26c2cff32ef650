import Mathlib.Data.List.Nodup

/-!
# Objects used as maps

An object that maps keys to values remembers the order in which its keys were
first set. Setting a key that is there changes its value and not its place;
a key that is deleted and set again comes last.
-/

namespace VTranser

/-- Entries in the order of their keys, no key twice. -/
structure ObjMap (κ ν : Type*) where
  entries : List (κ × ν)
  nodup : (entries.map Prod.fst).Nodup

namespace ObjMap

variable {κ ν : Type*} [DecidableEq κ]

def empty : ObjMap κ ν := ⟨[], List.nodup_nil⟩

def keys (m : ObjMap κ ν) : List κ := m.entries.map Prod.fst

def get? (m : ObjMap κ ν) (k : κ) : Option ν := m.entries.lookup k

/-- The entry of `k` with a new value, all others as they are. -/
def replaceVal (k : κ) (v : ν) (e : κ × ν) : κ × ν := (e.1, if e.1 = k then v else e.2)

theorem map_fst_replaceVal (k : κ) (v : ν) (es : List (κ × ν)) :
    (es.map (replaceVal k v)).map Prod.fst = es.map Prod.fst := by
  rw [List.map_map]
  rfl

def set (m : ObjMap κ ν) (k : κ) (v : ν) : ObjMap κ ν :=
  if h : k ∈ m.keys then
    ⟨m.entries.map (replaceVal k v), by rw [map_fst_replaceVal]; exact m.nodup⟩
  else
    ⟨m.entries ++ [(k, v)], by
      rw [List.map_append]
      exact List.nodup_append.mpr ⟨m.nodup, List.nodup_singleton _, fun a ha b hb hab => by
        rw [List.map_singleton, List.mem_singleton] at hb
        subst hb hab
        exact h ha⟩⟩

/-- The map without the keys that `p` picks. -/
def deleteIf (m : ObjMap κ ν) (p : κ → Bool) : ObjMap κ ν :=
  ⟨m.entries.filter fun e => !p e.1, m.nodup.sublist (List.Sublist.map _ List.filter_sublist)⟩

def delete (m : ObjMap κ ν) (k : κ) : ObjMap κ ν := m.deleteIf (· == k)

def mapVal {μ : Type*} (f : ν → μ) (m : ObjMap κ ν) : ObjMap κ μ :=
  ⟨m.entries.map fun e => (e.1, f e.2), by rw [List.map_map]; exact m.nodup⟩

/-! ## Reading back -/

@[simp] theorem get?_empty (k : κ) : (empty : ObjMap κ ν).get? k = none := rfl

theorem lookup_replaceVal (k k' : κ) (v : ν) (es : List (κ × ν)) :
    (es.map (replaceVal k v)).lookup k' =
      if k' = k ∧ k ∈ es.map Prod.fst then some v else es.lookup k' := by
  induction es with
  | nil => simp
  | cons e es ih =>
      obtain ⟨k₀, v₀⟩ := e
      simp only [List.map_cons, List.lookup_cons, ih, replaceVal, List.mem_cons]
      by_cases he : k' = k₀
      · have heq : (k' == k₀) = true := by simpa using he
        rw [heq]
        by_cases hk : k' = k
        · simp [← hk, ← he]
        · have hek : k₀ ≠ k := fun h => hk (he.trans h)
          simp [hk, hek]
      · have hne : (k' == k₀) = false := by simpa using he
        rw [hne]
        by_cases hk : k' = k
        · subst hk
          exact if_congr (by simp [he]) rfl rfl
        · simp [hk]

theorem get?_set (m : ObjMap κ ν) (k k' : κ) (v : ν) :
    (m.set k v).get? k' = if k' = k then some v else m.get? k' := by
  rw [set]
  split
  · next hmem =>
      rw [get?, lookup_replaceVal, get?]
      simp only [show k ∈ m.entries.map Prod.fst from hmem, and_true]
  · next hmem =>
      rw [get?, get?, List.lookup_append]
      by_cases hk : k' = k
      · have hnone : m.entries.lookup k = none := by
          rw [List.lookup_eq_none_iff]
          intro e he
          rw [bne_iff_ne]
          exact fun h => hmem (by rw [h]; exact List.mem_map_of_mem he)
        simp [hk, hnone]
      · have hne : (k' == k) = false := by simpa using hk
        simp [List.lookup_cons, hne, hk]

@[simp] theorem get?_set_self (m : ObjMap κ ν) (k : κ) (v : ν) : (m.set k v).get? k = some v := by
  rw [get?_set, if_pos rfl]

theorem lookup_filter (p : κ → Bool) (k : κ) (es : List (κ × ν)) :
    (es.filter fun e => !p e.1).lookup k = if p k then none else es.lookup k := by
  induction es with
  | nil => simp
  | cons e es ih =>
      obtain ⟨k₀, v₀⟩ := e
      by_cases hp : p k₀ = true
      · rw [List.filter_cons_of_neg (by simp [hp]), ih, List.lookup_cons]
        by_cases hk : k = k₀
        · rw [hk, if_pos hp, if_pos hp]
        · have hne : (k == k₀) = false := by simpa using hk
          rw [hne]
      · rw [List.filter_cons_of_pos (by simpa using hp), List.lookup_cons, List.lookup_cons, ih]
        by_cases hk : k = k₀
        · simp [hk, hp]
        · have hne : (k == k₀) = false := by simpa using hk
          rw [hne]

theorem get?_deleteIf (m : ObjMap κ ν) (p : κ → Bool) (k : κ) :
    (m.deleteIf p).get? k = if p k then none else m.get? k :=
  lookup_filter p k m.entries

theorem get?_delete (m : ObjMap κ ν) (k k' : κ) :
    (m.delete k).get? k' = if k' = k then none else m.get? k' := by
  rw [delete, get?_deleteIf]
  simp

theorem keys_set (m : ObjMap κ ν) (k : κ) (v : ν) :
    (m.set k v).keys = if k ∈ m.keys then m.keys else m.keys ++ [k] := by
  rw [set]
  split
  · exact map_fst_replaceVal k v m.entries
  · rw [keys, List.map_append]
    rfl

omit [DecidableEq κ] in
theorem length_keys_deleteIf_le (m : ObjMap κ ν) (p : κ → Bool) :
    (m.deleteIf p).keys.length ≤ m.keys.length :=
  (List.Sublist.map _ List.filter_sublist).length_le

omit [DecidableEq κ] in
theorem deleteIf_of_none {m : ObjMap κ ν} {p : κ → Bool} (h : ∀ k, p k = false) :
    m.deleteIf p = m := by
  simp [deleteIf, h]

theorem mem_keys_of_get? {m : ObjMap κ ν} {k : κ} {v : ν} (h : m.get? k = some v) :
    k ∈ m.keys := by
  rw [get?, List.lookup_eq_some_iff] at h
  obtain ⟨l₁, l₂, heq, -⟩ := h
  rw [keys, heq]
  simp

theorem mem_entries_of_get? {m : ObjMap κ ν} {k : κ} {v : ν} (h : m.get? k = some v) :
    (k, v) ∈ m.entries := by
  obtain ⟨l₁, l₂, heq, -⟩ := List.lookup_eq_some_iff.mp h
  rw [heq]
  simp

theorem mem_keys_iff {m : ObjMap κ ν} {k : κ} : k ∈ m.keys ↔ ∃ v, m.get? k = some v := by
  refine ⟨fun h => ?_, fun ⟨_, h⟩ => mem_keys_of_get? h⟩
  obtain ⟨e, he, rfl⟩ := List.mem_map.mp h
  rw [← Option.isSome_iff_exists, get?, List.lookup_isSome_iff]
  exact ⟨e, he, beq_self_eq_true _⟩

omit [DecidableEq κ] in
theorem keys_mapVal {μ : Type*} (f : ν → μ) (m : ObjMap κ ν) : (m.mapVal f).keys = m.keys := by
  rw [keys, mapVal, List.map_map]
  rfl

theorem get?_mapVal {μ : Type*} (f : ν → μ) (m : ObjMap κ ν) (k : κ) :
    (m.mapVal f).get? k = (m.get? k).map f := by
  have hlookup : ∀ es : List (κ × ν),
      (es.map fun e => (e.1, f e.2)).lookup k = (es.lookup k).map f := by
    intro es
    induction es with
    | nil => rfl
    | cons e es ih =>
        obtain ⟨k₀, v₀⟩ := e
        simp only [List.map_cons, List.lookup_cons, ih]
        split <;> rfl
  exact hlookup m.entries

end ObjMap

end VTranser

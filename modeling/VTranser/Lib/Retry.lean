import VTranser.Lib.ObjMap

/-!
# Making a request smaller until it is taken

A table that is asked to take a row with a column it does not know names such a
column, and the row is sent again without it. When the table knows what it says, what
arrives in the end is the row without the columns that the table does not know, if
there are fewer of them than attempts.
-/

namespace VTranser.Retry

variable {κ ν ρ ε σ : Type*} [DecidableEq κ]

inductive Answer (κ ρ ε : Type*)
  | taken (r : ρ)
  | unknown (k : κ)
  | refused (e : ε)
  deriving DecidableEq, Repr

/-- The last answer, or there were too many attempts. -/
inductive Outcome (κ ρ ε : Type*)
  | answer (a : Answer κ ρ ε)
  | exceeded
  deriving DecidableEq, Repr

def shrink (post : σ → ObjMap κ ν → Answer κ ρ ε × σ) :
    Nat → σ → ObjMap κ ν → Outcome κ ρ ε × σ
  | 0, s, _ => (.exceeded, s)
  | n + 1, s, body =>
      match post s body with
      | (.unknown k, s') =>
          if k ∈ body.keys then shrink post n s' (body.delete k) else (.answer (.unknown k), s')
      | (a, s') => (.answer a, s')

/-- The table knows some columns, and says of a row with others that it does not know
one of them. -/
structure Knows (post : σ → ObjMap κ ν → Answer κ ρ ε × σ) (known : κ → Bool) : Prop where
  names : ∀ s body, (∃ k ∈ body.keys, known k = false) →
    ∃ k ∈ body.keys, known k = false ∧ post s body = (.unknown k, s)
  decides : ∀ s body k, (∀ k ∈ body.keys, known k = true) → (post s body).1 ≠ .unknown k

/-- The columns that are not known. -/
def strangers (known : κ → Bool) (body : ObjMap κ ν) : List κ :=
  body.keys.filter fun k => !known k

/-- The row without them. -/
def restrict (known : κ → Bool) (body : ObjMap κ ν) : ObjMap κ ν :=
  body.deleteIf fun k => !known k

variable {post : σ → ObjMap κ ν → Answer κ ρ ε × σ} {known : κ → Bool} {body : ObjMap κ ν}

omit [DecidableEq κ] in
theorem keys_deleteIf (p : κ → Bool) (body : ObjMap κ ν) :
    (body.deleteIf p).keys = body.keys.filter fun k => !p k := by
  rw [ObjMap.keys, ObjMap.keys, ObjMap.deleteIf, List.filter_map]
  rfl

omit [DecidableEq κ] in
theorem strangers_eq_nil_iff : strangers known body = [] ↔ ∀ k ∈ body.keys, known k = true := by
  simp [strangers, List.filter_eq_nil_iff]

omit [DecidableEq κ] in
/-- A row that the table knows is sent as it is. -/
theorem restrict_of_strangers_eq_nil (h : strangers known body = []) :
    restrict known body = body := by
  have hall := strangers_eq_nil_iff.mp h
  have hentries : body.entries.filter (fun e => !!known e.1) = body.entries :=
    List.filter_eq_self.mpr fun e he => by simp [hall e.1 (List.mem_map_of_mem he)]
  cases body
  simpa only [restrict, ObjMap.deleteIf, ObjMap.mk.injEq] using hentries

theorem strangers_delete {k : κ} (hk : k ∈ strangers known body) :
    (strangers known (body.delete k)).length + 1 = (strangers known body).length := by
  have hnodup : (strangers known body).Nodup := List.Nodup.filter _ body.nodup
  have heq : strangers known (body.delete k) = (strangers known body).erase k := by
    rw [hnodup.erase_eq_filter, strangers, strangers, ObjMap.delete, keys_deleteIf,
      List.filter_filter, List.filter_filter]
    refine List.filter_congr fun x _ => ?_
    rw [Bool.and_comm, bne]
  rw [heq, List.length_erase_of_mem hk]
  have := List.length_pos_of_mem hk
  omega

theorem restrict_delete {k : κ} (hk : known k = false) :
    restrict known (body.delete k) = restrict known body := by
  rw [restrict, restrict, ObjMap.delete]
  simp only [ObjMap.deleteIf, List.filter_filter, ObjMap.mk.injEq]
  refine List.filter_congr fun e _ => ?_
  by_cases he : e.1 = k <;> simp [he, hk]

/-- What the attempts come to. -/
theorem shrink_eq (h : Knows post known) (n : Nat) (s : σ) (body : ObjMap κ ν) :
    shrink post n s body =
      if (strangers known body).length < n then
        (.answer (post s (restrict known body)).1, (post s (restrict known body)).2)
      else (.exceeded, s) := by
  induction n generalizing body with
  | zero => rw [shrink, if_neg (Nat.not_lt_zero _)]
  | succ n ih =>
      rw [shrink]
      by_cases hstrangers : strangers known body = []
      · have hall := strangers_eq_nil_iff.mp hstrangers
        rw [restrict_of_strangers_eq_nil hstrangers, hstrangers, List.length_nil,
          if_pos (Nat.succ_pos n)]
        have hdecides := fun k => h.decides s body k hall
        generalize post s body = answer at hdecides ⊢
        obtain ⟨a, s'⟩ := answer
        cases a with
        | unknown k => exact absurd rfl (hdecides k)
        | taken r => rfl
        | refused e => rfl
      · obtain ⟨x, hx⟩ := List.exists_mem_of_ne_nil _ hstrangers
        obtain ⟨k, hmem, hk, hpost⟩ := h.names s body ⟨x, by simpa [strangers] using hx⟩
        have hlen := strangers_delete (List.mem_filter.mpr ⟨hmem, by simp [hk]⟩ :
          k ∈ strangers known body)
        rw [hpost]
        dsimp only
        rw [if_pos hmem, ih (body.delete k), restrict_delete hk]
        by_cases hless : (strangers known (body.delete k)).length < n
        · rw [if_pos hless, if_pos (by omega)]
        · rw [if_neg hless, if_neg (by omega)]

end VTranser.Retry

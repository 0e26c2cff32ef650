import Mathlib.Data.List.Basic

/-!
# A fair lock

Whoever comes when the lock is free and nobody waits gets it at once; the others wait, and get
it in the order in which they came. What one has come for is done on getting the lock, and
`done` lists it with what is the case at that time.
-/

namespace VTranser

structure FairLock (σ μ τ : Type*) where
  holder : Option σ
  waiting : List (σ × μ)
  done : List (μ × τ)

namespace FairLock

variable {σ μ τ : Type*}

def init : FairLock σ μ τ := ⟨none, [], []⟩

/-- `s` comes for `m`, at a time when `t` is the case. -/
def call (s : σ) (m : μ) (t : τ) (l : FairLock σ μ τ) : FairLock σ μ τ :=
  if l.holder.isNone && l.waiting.isEmpty then
    { l with holder := some s, done := l.done ++ [(m, t)] }
  else { l with waiting := l.waiting ++ [(s, m)] }

def release (l : FairLock σ μ τ) : FairLock σ μ τ := { l with holder := none }

/-- The one that has waited longest gets the lock. -/
def grant (t : τ) (l : FairLock σ μ τ) : Option (FairLock σ μ τ) :=
  match l.holder, l.waiting with
  | none, (s, m) :: rest => some ⟨some s, rest, l.done ++ [(m, t)]⟩
  | _, _ => none

/-- All that was come for, in this order. -/
def calls (l : FairLock σ μ τ) : List μ := l.done.map Prod.fst ++ l.waiting.map Prod.snd

/-- `P` is so of all that was done, with what was the case then, and of all that waits, with
what is the case now. -/
structure Stamped (P : μ → τ → Prop) (now : τ) (l : FairLock σ μ τ) : Prop where
  waiting : ∀ p ∈ l.waiting, P p.2 now
  done : ∀ x ∈ l.done, P x.1 x.2

section

variable {l l' : FairLock σ μ τ} {s : σ} {m : μ} {t : τ}

theorem call_cases (l : FairLock σ μ τ) (s : σ) (m : μ) (t : τ) :
    (l.waiting = [] ∧ l.call s m t = { l with holder := some s, done := l.done ++ [(m, t)] }) ∨
      l.call s m t = { l with waiting := l.waiting ++ [(s, m)] } := by
  rw [call]
  split
  · next hfree =>
      rw [Bool.and_eq_true, List.isEmpty_iff] at hfree
      exact .inl ⟨hfree.2, rfl⟩
  · exact .inr rfl

theorem grant_cases (h : l.grant t = some l') :
    ∃ s m rest, l.waiting = (s, m) :: rest ∧ l' = ⟨some s, rest, l.done ++ [(m, t)]⟩ := by
  rw [grant] at h
  split at h
  · next s m rest _ hwaiting => exact ⟨s, m, rest, hwaiting, (Option.some.inj h).symm⟩
  · cases h

theorem calls_call : (l.call s m t).calls = l.calls ++ [m] := by
  rcases call_cases l s m t with ⟨hnone, heq⟩ | heq
  · simp [heq, calls, hnone]
  · simp [heq, calls]

@[simp] theorem calls_release : l.release.calls = l.calls := rfl

theorem calls_grant (h : l.grant t = some l') : l'.calls = l.calls := by
  obtain ⟨s, m, rest, hwaiting, rfl⟩ := grant_cases h
  simp [calls, hwaiting]

/-! ## What is done when its turn comes -/

variable {P : μ → τ → Prop} {now now' : τ}

theorem stamped_init : Stamped P now (init : FairLock σ μ τ) :=
  ⟨fun _ h => absurd h List.not_mem_nil, fun _ h => absurd h List.not_mem_nil⟩

namespace Stamped

/-- Time goes by, and what waits does not mind. -/
theorem later (h : Stamped P now l) (hwaiting : ∀ p ∈ l.waiting, P p.2 now') : Stamped P now' l :=
  ⟨hwaiting, h.done⟩

theorem release (h : Stamped P now l) : Stamped P now l.release := ⟨h.waiting, h.done⟩

theorem call (h : Stamped P now l) (s : σ) (hm : P m now) : Stamped P now (l.call s m now) := by
  rcases call_cases l s m now with ⟨-, heq⟩ | heq
  · rw [heq]
    refine ⟨h.waiting, fun x hx => ?_⟩
    rcases List.mem_append.mp hx with hx | hx
    · exact h.done x hx
    · rw [List.mem_singleton.mp hx]
      exact hm
  · rw [heq]
    refine ⟨fun p hp => ?_, h.done⟩
    rcases List.mem_append.mp hp with hp | hp
    · exact h.waiting p hp
    · rw [List.mem_singleton.mp hp]
      exact hm

theorem grant (h : Stamped P now l) (hgrant : l.grant now = some l') : Stamped P now l' := by
  obtain ⟨s, m, rest, hwaiting, rfl⟩ := grant_cases hgrant
  have hfirst := h.waiting
  rw [hwaiting] at hfirst
  refine ⟨fun p hp => hfirst p (List.mem_cons_of_mem _ hp), fun x hx => ?_⟩
  rcases List.mem_append.mp hx with hx | hx
  · exact h.done x hx
  · rw [List.mem_singleton.mp hx]
    exact hfirst (s, m) List.mem_cons_self

end Stamped

end

end FairLock

end VTranser

import Mathlib.Data.Option.Basic

/-!
# Loops that come to an end

A loop is a round that says of a state whether another round follows. It runs on
fuel, and a run that is out of fuel has no result. `Ends x Q` says that `x` has a
result, and that it meets `Q`; `loop_ends` is the rule for a loop, with an
invariant and a bound that each round lowers.
-/

namespace VTranser.Loop

variable {σ ρ τ : Type*}

/-- A computation with a result that meets `Q`. -/
def Ends (x : Option ρ) (Q : ρ → Prop) : Prop := ∃ r, x = some r ∧ Q r

theorem Ends.of_some {Q : ρ → Prop} {r : ρ} (h : Q r) : Ends (some r) Q := ⟨r, rfl, h⟩

theorem Ends.mono {x : Option ρ} {P Q : ρ → Prop} (h : Ends x P) (hPQ : ∀ r, P r → Q r) :
    Ends x Q := by
  obtain ⟨r, hr, hP⟩ := h
  exact ⟨r, hr, hPQ r hP⟩

theorem Ends.bind {x : Option ρ} {f : ρ → Option τ} {P : ρ → Prop} {Q : τ → Prop}
    (h : Ends x P) (hf : ∀ r, P r → Ends (f r) Q) : Ends (x.bind f) Q := by
  obtain ⟨r, hr, hP⟩ := h
  rw [hr]
  exact hf r hP

theorem Ends.map {x : Option ρ} {f : ρ → τ} {Q : τ → Prop} (h : Ends x fun r => Q (f r)) :
    Ends (x.map f) Q := by
  obtain ⟨r, hr, hQ⟩ := h
  exact ⟨f r, by rw [hr]; rfl, hQ⟩

/-- What a computation that ends is known to give. -/
theorem Ends.of_eq {x : Option ρ} {Q : ρ → Prop} (h : Ends x Q) {r : ρ} (hr : x = some r) : Q r := by
  obtain ⟨r', hr', hQ⟩ := h
  rw [hr'] at hr
  injection hr with hr
  rwa [← hr]

/-- What a round comes to. -/
inductive Round (σ : Type*)
  | again (s : σ)
  | done (s : σ)

/-- What holds after a round that is not the last, and after the last. -/
def After (again done : σ → Prop) : Round σ → Prop
  | .again s => again s
  | .done s => done s

/-- Rounds until one is the last. -/
def loop (round : σ → Option (Round σ)) : Nat → σ → Option σ
  | 0, _ => none
  | fuel + 1, s => (round s).bind fun
      | .again s' => loop round fuel s'
      | .done s' => some s'

/-- The invariant holds before each round, and each but the last lowers the bound. -/
theorem loop_ends {round : σ → Option (Round σ)} {I Q : σ → Prop} (bound : σ → Nat)
    (hround : ∀ s, I s → Ends (round s) (After (fun s' => I s' ∧ bound s' < bound s) Q)) :
    ∀ {fuel : Nat} {s : σ}, I s → bound s < fuel → Ends (loop round fuel s) Q := by
  intro fuel
  induction fuel with
  | zero =>
      intro s _ hfuel
      exact absurd hfuel (Nat.not_lt_zero _)
  | succ fuel ih =>
      intro s hI hfuel
      refine (hround s hI).bind fun r hr => ?_
      cases r with
      | again s' => exact ih hr.1 (by have := hr.2; omega)
      | done s' => exact .of_some hr

end VTranser.Loop

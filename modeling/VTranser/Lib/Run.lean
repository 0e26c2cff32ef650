import Mathlib.Data.Option.Basic

/-!
# Runs of a step function

A system whose choices are all in its labels is a partial step function: the
label says which party moves and what its environment answers, and `none` says
the move is not enabled. A run is a list of labels that are enabled one after
the other.

`Guarded` says of a run that each of its steps meets some condition in the state the
step is taken from. `run_guarded` is the induction over runs: a property that the steps
meeting the condition preserve holds in the state such a run reaches.
-/

namespace VTranser.Run

variable {σ ι : Type*} (step : σ → ι → Option σ)

/-- The state after a list of labels, if each is enabled in its turn. -/
def run : σ → List ι → Option σ
  | s, [] => some s
  | s, i :: is => (step s i).bind fun s' => run s' is

/-- Every step of the run meets `ok` where it is taken. -/
def Guarded (ok : σ → ι → Prop) : σ → List ι → Prop
  | _, [] => True
  | s, i :: is => ok s i ∧ ∀ s' ∈ step s i, Guarded ok s' is

instance {ok : σ → ι → Prop} [∀ s i, Decidable (ok s i)] :
    ∀ s is, Decidable (Guarded step ok s is)
  | _, [] => isTrue trivial
  | s, i :: is =>
      have : ∀ s', Decidable (Guarded step ok s' is) := fun s' => instDecidableGuarded s' is
      inferInstanceAs (Decidable (ok s i ∧ ∀ s' ∈ step s i, Guarded step ok s' is))

/-- Every state of the run has the property, the first and the last one included. -/
def Always (I : σ → Prop) : σ → List ι → Prop
  | s, [] => I s
  | s, i :: is => I s ∧ ∀ s' ∈ step s i, Always I s' is

variable {step}

theorem run_cons_some {s s'' : σ} {i : ι} {is : List ι} :
    run step s (i :: is) = some s'' ↔
      ∃ s', step s i = some s' ∧ run step s' is = some s'' := by
  simp only [run, Option.bind_eq_some_iff]

theorem run_append {s s'' : σ} {is js : List ι} :
    run step s (is ++ js) = some s'' ↔
      ∃ s', run step s is = some s' ∧ run step s' js = some s'' := by
  induction is generalizing s with
  | nil => simp [run]
  | cons i is ih =>
      rw [List.cons_append, run_cons_some]
      constructor
      · rintro ⟨s₁, h₁, h⟩
        obtain ⟨s₂, h₂, h₃⟩ := ih.mp h
        exact ⟨s₂, run_cons_some.mpr ⟨s₁, h₁, h₂⟩, h₃⟩
      · rintro ⟨s₂, h, h₃⟩
        obtain ⟨s₁, h₁, h₂⟩ := run_cons_some.mp h
        exact ⟨s₁, h₁, ih.mpr ⟨s₂, h₂, h₃⟩⟩

theorem Guarded.and {ok ok' : σ → ι → Prop} :
    ∀ {is : List ι} {s : σ}, Guarded step ok s is → Guarded step ok' s is →
      Guarded step (fun s i => ok s i ∧ ok' s i) s is
  | [], _, _, _ => trivial
  | _ :: _, _, h, h' => ⟨⟨h.1, h'.1⟩, fun s' hs => (h.2 s' hs).and (h'.2 s' hs)⟩

theorem Guarded.mono {ok ok' : σ → ι → Prop} (himp : ∀ s i, ok s i → ok' s i) :
    ∀ {is : List ι} {s : σ}, Guarded step ok s is → Guarded step ok' s is
  | [], _, _ => trivial
  | _ :: _, _, h => ⟨himp _ _ h.1, fun s' hs => (h.2 s' hs).mono himp⟩

theorem guarded_append {ok : σ → ι → Prop} {is js : List ι} {s : σ} :
    Guarded step ok s (is ++ js) ↔
      Guarded step ok s is ∧ ∀ s' ∈ run step s is, Guarded step ok s' js := by
  induction is generalizing s with
  | nil => simp [run, Guarded]
  | cons i is ih =>
      rw [List.cons_append]
      constructor
      · rintro ⟨hok, hrest⟩
        refine ⟨⟨hok, fun s' hs => (ih.mp (hrest s' hs)).1⟩, fun s'' hs => ?_⟩
        obtain ⟨s', h₁, h₂⟩ := run_cons_some.mp hs
        exact (ih.mp (hrest s' h₁)).2 s'' h₂
      · rintro ⟨⟨hok, hrest⟩, hjs⟩
        refine ⟨hok, fun s' hs => ih.mpr ⟨hrest s' hs, fun s'' hs'' => ?_⟩⟩
        exact hjs s'' (run_cons_some.mpr ⟨s', hs, hs''⟩)

/-- A condition on the labels alone. -/
theorem Guarded.of_labels {q : ι → Prop} :
    ∀ {is : List ι} {s : σ}, (∀ i ∈ is, q i) → Guarded step (fun _ i => q i) s is
  | [], _, _ => trivial
  | i :: _, _, h => ⟨h i (by simp), fun _ _ => of_labels fun j hj => h j (by simp [hj])⟩

/-- What every conforming step preserves holds at the end of a run of them. -/
theorem run_guarded {ok : σ → ι → Prop} {I : σ → Prop}
    (hstep : ∀ s i s', I s → ok s i → step s i = some s' → I s') :
    ∀ {is : List ι} {s s' : σ}, I s → Guarded step ok s is →
      run step s is = some s' → I s' := by
  intro is
  induction is with
  | nil =>
      intro s s' hI _ h
      injection h with h
      rwa [← h]
  | cons i is ih =>
      intro s s' hI hg h
      obtain ⟨s₁, h₁, h₂⟩ := run_cons_some.mp h
      exact ih (hstep s i s₁ hI hg.1 h₁) (hg.2 s₁ h₁) h₂

/-- Steps that use something up are no more than there was of it and than the steps that
add to it have added, `c` at a time. -/
theorem countP_add_le {rank : σ → Nat} {c : Nat} {work more : ι → Bool}
    (hstep : ∀ s i s', step s i = some s' →
      rank s' + (work i).toNat ≤ rank s + c * (more i).toNat) :
    ∀ {is : List ι} {s s' : σ}, run step s is = some s' →
      is.countP work + rank s' ≤ rank s + c * is.countP more := by
  intro is
  induction is with
  | nil =>
      intro s s' h
      injection h with h
      simp [h]
  | cons i is ih =>
      intro s s' h
      obtain ⟨s₁, h₁, h₂⟩ := run_cons_some.mp h
      have hfirst := hstep s i s₁ h₁
      have hrest := ih h₂
      have hwork : (i :: is).countP work = is.countP work + (work i).toNat := by
        rw [List.countP_cons]
        cases work i <;> rfl
      have hmore : (i :: is).countP more = is.countP more + (more i).toNat := by
        rw [List.countP_cons]
        cases more i <;> rfl
      rw [hwork, hmore, Nat.mul_add]
      omega

/-- A property that the steps meeting `ok` keep, and the others lose for good, says at
the end of a run whether all its steps met `ok`. Both may rely on what every step
keeps, `J`. -/
theorem holds_iff_guarded_of {ok : σ → ι → Prop} {I J : σ → Prop}
    (hinv : ∀ s i s', J s → step s i = some s' → J s')
    (hkeep : ∀ s i s', J s → I s → step s i = some s' → (I s' ↔ ok s i))
    (hlost : ∀ s i s', J s → ¬ I s → step s i = some s' → ¬ I s') :
    ∀ {is : List ι} {s s' : σ}, J s → I s → run step s is = some s' →
      (I s' ↔ Guarded step ok s is) := by
  have hgone : ∀ (is : List ι) {s s' : σ}, J s → ¬ I s → run step s is = some s' → ¬ I s' := by
    intro is
    induction is with
    | nil =>
        intro s s' _ hI h
        injection h with h
        rwa [← h]
    | cons i is ih =>
        intro s s' hJ hI h
        obtain ⟨s₁, h₁, h₂⟩ := run_cons_some.mp h
        exact ih (hinv s i s₁ hJ h₁) (hlost s i s₁ hJ hI h₁) h₂
  intro is
  induction is with
  | nil =>
      intro s s' _ hI h
      injection h with h
      exact ⟨fun _ => trivial, fun _ => h ▸ hI⟩
  | cons i is ih =>
      intro s s' hJ hI h
      obtain ⟨s₁, h₁, h₂⟩ := run_cons_some.mp h
      have hJ₁ := hinv s i s₁ hJ h₁
      by_cases hok : ok s i
      · have hrest := ih hJ₁ ((hkeep s i s₁ hJ hI h₁).mpr hok) h₂
        refine ⟨fun hI' => ⟨hok, fun s₂ hs₂ => ?_⟩, fun hg => hrest.mpr (hg.2 s₁ h₁)⟩
        rw [Option.mem_def, h₁] at hs₂
        injection hs₂ with hs₂
        exact hs₂ ▸ hrest.mp hI'
      · have hbad : ¬ I s₁ := fun hI₁ => hok ((hkeep s i s₁ hJ hI h₁).mp hI₁)
        exact ⟨fun hI' => absurd hI' (hgone is hJ₁ hbad h₂), fun hg => absurd hg.1 hok⟩

theorem holds_iff_guarded {ok : σ → ι → Prop} {I : σ → Prop}
    (hkeep : ∀ s i s', I s → step s i = some s' → (I s' ↔ ok s i))
    (hlost : ∀ s i s', ¬ I s → step s i = some s' → ¬ I s') {is : List ι} {s s' : σ} (hI : I s)
    (h : run step s is = some s') : I s' ↔ Guarded step ok s is :=
  holds_iff_guarded_of (J := fun _ => True) (fun _ _ _ _ _ => trivial)
    (fun s i s' _ => hkeep s i s') (fun s i s' _ => hlost s i s') trivial hI h

/-- A property that a step keeps if and only if it meets `ok` holds in every state of a
run if and only if all its steps met `ok`. What else is needed of the states, `J`, may
rely on the property. -/
theorem always_iff_guarded {ok : σ → ι → Prop} {I J : σ → Prop}
    (hkeep : ∀ s i s', J s → I s → step s i = some s' → (I s' ↔ ok s i))
    (hinv : ∀ s i s', J s → I s → I s' → step s i = some s' → J s') :
    ∀ {is : List ι} {s s' : σ}, J s → I s → run step s is = some s' →
      (Always step I s is ↔ Guarded step ok s is) := by
  intro is
  induction is with
  | nil => exact fun _ hI _ => iff_of_true hI trivial
  | cons i is ih =>
      intro s s' hJ hI h
      obtain ⟨s₁, h₁, h₂⟩ := run_cons_some.mp h
      have hfirst : Always step I s₁ is → I s₁ := by
        cases is with
        | nil => exact id
        | cons _ _ => exact And.left
      simp only [Always, Guarded, Option.mem_def, h₁, Option.some.injEq, forall_eq']
      constructor
      · rintro ⟨-, halways⟩
        have hI₁ := hfirst halways
        exact ⟨(hkeep s i s₁ hJ hI h₁).mp hI₁,
          (ih (hinv s i s₁ hJ hI hI₁ h₁) hI₁ h₂).mp halways⟩
      · rintro ⟨hok, hguard⟩
        have hI₁ := (hkeep s i s₁ hJ hI h₁).mpr hok
        exact ⟨hI, (ih (hinv s i s₁ hJ hI hI₁ h₁) hI₁ h₂).mpr hguard⟩

/-- Two conditions on steps that agree as long as one of them keeps `I`. -/
theorem guarded_congr {ok ok' : σ → ι → Prop} {I : σ → Prop}
    (hiff : ∀ s i s', I s → step s i = some s' → (ok s i ↔ ok' s i))
    (hkeep : ∀ s i s', I s → ok s i → step s i = some s' → I s') :
    ∀ {is : List ι} {s s' : σ}, I s → run step s is = some s' →
      (Guarded step ok s is ↔ Guarded step ok' s is) := by
  intro is
  induction is with
  | nil => exact fun _ _ => Iff.rfl
  | cons i is ih =>
      intro s s' hI h
      obtain ⟨s₁, h₁, h₂⟩ := run_cons_some.mp h
      have hhere := hiff s i s₁ hI h₁
      have hnext : ok s i → (Guarded step ok s₁ is ↔ Guarded step ok' s₁ is) :=
        fun hok => ih (hkeep s i s₁ hI hok h₁) h₂
      simp only [Guarded, Option.mem_def, h₁, Option.some.injEq, forall_eq']
      rw [← hhere]
      exact and_congr_right hnext

end VTranser.Run

import Mathlib.Data.List.Basic
import Mathlib.Data.List.Perm.Basic

/-!
# Operations that wait

The operations that wait for something are a list. The `i`-th goes on: it waits
again, for something else, or it has ended and is no longer in the list.
-/

namespace VTranser.Tasks

variable {τ : Type*}

/-- The list after the `i`-th operation has gone on to `next`. -/
def goOn (tasks : List τ) (i : Nat) (next : Option τ) : List τ :=
  match next with
  | some task => tasks.set i task
  | none => tasks.eraseIdx i

theorem mem_goOn {tasks : List τ} {i : Nat} {next : Option τ} {task : τ}
    (h : task ∈ goOn tasks i next) : task ∈ tasks ∨ task ∈ next := by
  cases next with
  | none => exact .inl (List.mem_of_mem_eraseIdx h)
  | some t =>
      rcases List.mem_or_eq_of_mem_set h with h | h
      · exact .inl h
      · exact .inr (congrArg some h.symm)

/-- What holds of all operations and of the one that waits anew holds of all. -/
theorem forall_goOn {tasks : List τ} {i : Nat} {next : Option τ} {P : τ → Prop}
    (htasks : ∀ t ∈ tasks, P t) (hnext : ∀ t ∈ next, P t) : ∀ t ∈ goOn tasks i next, P t := by
  intro t ht
  rcases mem_goOn ht with h | h
  · exact htasks t h
  · exact hnext t h

theorem mem_goOn_of_ne {tasks : List τ} {i : Nat} {task task' : τ} (hi : tasks[i]? = some task)
    (hmem : task' ∈ tasks) (hne : task' ≠ task) (next : Option τ) :
    task' ∈ goOn tasks i next := by
  obtain ⟨j, hj⟩ := List.mem_iff_getElem?.mp hmem
  have hij : i ≠ j := by
    rintro rfl
    rw [hi] at hj
    exact hne (Option.some.inj hj).symm
  cases next with
  | none => exact List.mem_eraseIdx_iff_getElem?.mpr ⟨j, hij.symm, hj⟩
  | some t =>
      refine List.mem_iff_getElem?.mpr ⟨j, ?_⟩
      rw [goOn, List.getElem?_set_ne hij, hj]

theorem mem_goOn_next {tasks : List τ} {i : Nat} {task next : τ} (hi : tasks[i]? = some task) :
    next ∈ goOn tasks i (some next) := by
  have hlt : i < tasks.length := (List.getElem?_eq_some_iff.mp hi).1
  exact List.mem_of_getElem? (List.getElem?_set_self hlt)

theorem perm_cons_eraseIdx {tasks : List τ} {i : Nat} {task : τ} (hi : tasks[i]? = some task) :
    tasks.Perm (task :: tasks.eraseIdx i) := by
  obtain ⟨hlt, rfl⟩ := List.getElem?_eq_some_iff.mp hi
  exact (List.getElem_cons_eraseIdx_perm hlt).symm

theorem goOn_perm {tasks : List τ} {i : Nat} {task : τ} (hi : tasks[i]? = some task)
    (next : Option τ) : (goOn tasks i next).Perm (next.toList ++ tasks.eraseIdx i) := by
  cases next with
  | none => exact List.Perm.refl _
  | some t => exact List.set_perm_cons_eraseIdx (List.getElem?_eq_some_iff.mp hi).1 t

/-! ## One that is unlike the others -/

/-- `P` holds of all operations, but for one at most. -/
def AllButOne (P : τ → Prop) (tasks : List τ) : Prop := tasks.Pairwise fun t t' => P t ∨ P t'

namespace AllButOne

variable {P : τ → Prop} {tasks : List τ}

theorem of_forall (h : ∀ t ∈ tasks, P t) : AllButOne P tasks :=
  List.pairwise_of_forall_mem_list fun t ht _ _ => .inl (h t ht)

theorem rest (h : AllButOne P tasks) {i : Nat} {task : τ} (hi : tasks[i]? = some task)
    (hnot : ¬ P task) : ∀ t ∈ tasks.eraseIdx i, P t := by
  intro t ht
  have hpair : (task :: tasks.eraseIdx i).Pairwise fun t t' => P t ∨ P t' :=
    h.perm (perm_cons_eraseIdx hi) Or.symm
  exact ((List.pairwise_cons.mp hpair).1 t ht).resolve_left hnot

/-- The one that goes on is the odd one, or `P` holds of what it is afterwards. -/
theorem goOn (h : AllButOne P tasks) {i : Nat} {task : τ} (hi : tasks[i]? = some task)
    {next : Option τ} (hnext : P task → ∀ t ∈ next, P t) : AllButOne P (goOn tasks i next) := by
  have hpair : (task :: tasks.eraseIdx i).Pairwise fun t t' => P t ∨ P t' :=
    h.perm (perm_cons_eraseIdx hi) Or.symm
  refine List.Pairwise.perm ?_ (goOn_perm hi next).symm Or.symm
  obtain ⟨hone, hrest⟩ := List.pairwise_cons.mp hpair
  cases next with
  | none => exact hrest
  | some t =>
      refine List.pairwise_cons.mpr ⟨fun t' ht' => ?_, hrest⟩
      rcases hone t' ht' with htask | htask
      · exact .inl (hnext htask t rfl)
      · exact .inr htask

/-- Among operations for which `P` holds, one goes on to whatever it will. -/
theorem goOn_of_rest {i : Nat} {task : τ} (hi : tasks[i]? = some task)
    (hrest : ∀ t ∈ tasks.eraseIdx i, P t) (next : Option τ) : AllButOne P (Tasks.goOn tasks i next) := by
  refine List.Pairwise.perm ?_ (goOn_perm hi next).symm Or.symm
  cases next with
  | none => exact of_forall hrest
  | some t => exact List.pairwise_cons.mpr ⟨fun u hu => .inr (hrest u hu), of_forall hrest⟩

theorem append (h : AllButOne P tasks) {more : List τ} (hmore : ∀ t ∈ more, P t) :
    AllButOne P (tasks ++ more) :=
  List.pairwise_append.mpr ⟨h, of_forall hmore, fun _ _ t ht => .inr (hmore t ht)⟩

theorem append_of_forall (h : ∀ t ∈ tasks, P t) (task : τ) : AllButOne P (tasks ++ [task]) :=
  List.pairwise_append.mpr ⟨of_forall h, List.pairwise_singleton .., fun t ht _ _ => .inl (h t ht)⟩

end AllButOne

theorem mem_goOn_erase {tasks : List τ} {i : Nat} {task : τ} (hi : tasks[i]? = some task)
    {next : Option τ} {t : τ} (h : t ∈ goOn tasks i next) : t ∈ next ∨ t ∈ tasks.eraseIdx i := by
  rcases List.mem_append.mp ((goOn_perm hi next).subset h) with h | h
  · exact .inl (Option.mem_toList.mp h)
  · exact .inr h

/-! ## What the operations carry -/

section

variable {β : Type*} {f : τ → Option β} {tasks : List τ} {i : Nat}

/-- What goes on carries nothing any more. -/
theorem filterMap_goOn_sublist {next : Option τ} (hnext : ∀ t ∈ next, f t = none) :
    ((goOn tasks i next).filterMap f).Sublist (tasks.filterMap f) := by
  cases next with
  | none => exact (List.eraseIdx_sublist tasks i).filterMap f
  | some t =>
      have ht : f t = none := hnext t rfl
      show ((tasks.set i t).filterMap f).Sublist _
      induction tasks generalizing i with
      | nil => exact List.Sublist.refl _
      | cons task tasks ih =>
          cases i with
          | zero =>
              rw [List.set_cons_zero, List.filterMap_cons_none ht]
              exact (List.sublist_cons_self task tasks).filterMap f
          | succ i =>
              rw [List.set_cons_succ, List.filterMap_cons, List.filterMap_cons]
              cases f task with
              | none => exact ih
              | some b => exact ih.cons_cons b

/-- The first that carries something ends. -/
theorem filterMap_eraseIdx {task : τ} {b : β} (hi : tasks[i]? = some task) (hf : f task = some b)
    (hfirst : ∀ t ∈ tasks.take i, f t = none) :
    tasks.filterMap f = b :: (tasks.eraseIdx i).filterMap f := by
  have hnil : (tasks.take i).filterMap f = [] := List.filterMap_eq_nil_iff.mpr hfirst
  obtain ⟨hlt, rfl⟩ := List.getElem?_eq_some_iff.mp hi
  have hdrop : tasks.drop i = tasks[i] :: tasks.drop (i + 1) := List.drop_eq_getElem_cons hlt
  calc tasks.filterMap f
      = (tasks.take i ++ tasks[i] :: tasks.drop (i + 1)).filterMap f := by
        rw [← hdrop, List.take_append_drop]
    _ = b :: (tasks.drop (i + 1)).filterMap f := by
        rw [List.filterMap_append, hnil, List.nil_append, List.filterMap_cons_some hf]
    _ = b :: (tasks.eraseIdx i).filterMap f := by
        rw [List.eraseIdx_eq_take_drop_succ, List.filterMap_append, hnil, List.nil_append]

end

end VTranser.Tasks

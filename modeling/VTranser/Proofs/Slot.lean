import VTranser.Server.Slot

/-!
# One handler has the slot

A handler that has taken the slot and not given it back is the only one, and
`_active_client` is its address: only a free slot is taken, and a handler that
found it taken ends without the `finally` that gives it back. So the addresses
need not even differ.
-/

namespace VTranser.Server

open Tasks

/-- The handler is between taking the slot and giving it back. -/
def HandlerTask.HasSlot (t : HandlerTask) : Prop :=
  match t.wait with
  | .body _ | .release => True
  | .take | .busySend | .busyClose => False

namespace SlotState

/-- At most one handler has the slot, and the slot says which. -/
structure Single (s : SlotState) : Prop where
  one : AllButOne (fun t => ¬ t.HasSlot) s.handlers
  active : ∀ t ∈ s.handlers, t.HasSlot → s.activeClient = some t.sessId
  taken : s.activeClient.isSome → ∃ t ∈ s.handlers, t.HasSlot

theorem single_init : Single init where
  one := .nil
  active := nofun
  taken := nofun

variable {s : SlotState} {i : Nat} {t : HandlerTask}

/-- A handler without the slot goes on without it. -/
theorem Single.bystander (h : s.Single) (hi : s.handlers[i]? = some t) (hno : ¬ t.HasSlot)
    {next : Option HandlerTask} (hnext : ∀ t' ∈ next, ¬ t'.HasSlot) (lock : Bool) :
    Single ⟨lock, s.activeClient, goOn s.handlers i next⟩ where
  one := h.one.goOn hi fun _ => hnext
  active t' ht' hslot := by
    rcases mem_goOn ht' with hmem | hmem
    · exact h.active t' hmem hslot
    · exact absurd hslot (hnext t' hmem)
  taken hsome := by
    obtain ⟨t', ht', hslot⟩ := h.taken hsome
    refine ⟨t', mem_goOn_of_ne hi ht' ?_ next, hslot⟩
    rintro rfl
    exact hno hslot

/-- The slot is the `i`-th handler's, and no other handler thinks it has it. -/
structure Owner (s : SlotState) (i : Nat) (t : HandlerTask) : Prop where
  at_i : s.handlers[i]? = some t
  active : s.activeClient = some t.sessId
  others : ∀ u ∈ s.handlers.eraseIdx i, ¬ u.HasSlot

theorem Single.owner (h : s.Single) (hi : s.handlers[i]? = some t) (hslot : t.HasSlot) :
    Owner s i t where
  at_i := hi
  active := h.active t (List.mem_of_getElem? hi) hslot
  others := h.one.rest hi (not_not_intro hslot)

/-- When no handler has the slot, any may take it. -/
theorem Single.take (h : s.Single) (hi : s.handlers[i]? = some t) (hfree : s.activeClient = none) :
    Owner { s with activeClient := some t.sessId } i t where
  at_i := hi
  active := rfl
  others u hu hslot := by
    have hactive := h.active u (List.mem_of_mem_eraseIdx hu) hslot
    rw [hfree] at hactive
    cases hactive

/-- The handler that has the slot waits again. -/
theorem Owner.keep (h : Owner s i t) {t' : HandlerTask} (hid : t'.sessId = t.sessId)
    (hslot : t'.HasSlot) : Single { s with handlers := goOn s.handlers i (some t') } where
  one := AllButOne.goOn_of_rest h.at_i h.others (some t')
  active u hu huslot := by
    have hmem : u ∈ goOn s.handlers i (some t') := hu
    rcases mem_goOn_erase h.at_i hmem with hmem | hmem
    · obtain rfl := Option.some.inj hmem
      rw [hid]
      exact h.active
    · exact absurd huslot (h.others u hmem)
  taken _ := ⟨t', mem_goOn_next h.at_i, hslot⟩

theorem Owner.leave (h : Owner s i t) : Single (s.leave i t) := by
  rw [SlotState.leave]
  split
  · exact h.keep rfl trivial
  · -- The address is its own, and nobody else has the slot.
    refine ⟨AllButOne.goOn_of_rest h.at_i h.others none, ?_, ?_⟩
    · intro u hu huslot
      have hmem : u ∈ goOn s.handlers i none := hu
      rcases mem_goOn_erase h.at_i hmem with hmem | hmem
      · cases hmem
      · exact absurd huslot (h.others u hmem)
    · intro hsome
      rw [if_pos h.active] at hsome
      cases hsome

theorem Owner.goBody (h : Owner s i t) (next : Option BodyWait) : Single (s.goBody i t next) := by
  cases next with
  | some wait => exact h.keep rfl trivial
  | none => exact h.leave

theorem Single.handler (h : s.Single) (hi : s.handlers[i]? = some t) (way : Nat) :
    Single (s.handler i t way) := by
  rw [SlotState.handler]
  cases hwait : t.wait with
  | take =>
      have hno : ¬ t.HasSlot := by simp [HandlerTask.HasSlot, hwait]
      simp only
      split
      · exact h
      · split
        · refine h.bystander hi hno ?_ true
          intro t' ht'
          obtain rfl := Option.some.inj ht'
          exact id
        · next hfree =>
            split
            · exact (h.take hi (by simpa using hfree)).goBody _
            · exact h
  | busySend =>
      have hno : ¬ t.HasSlot := by simp [HandlerTask.HasSlot, hwait]
      refine h.bystander hi hno ?_ s.clientLock
      intro t' ht'
      obtain rfl := Option.some.inj ht'
      exact id
  | busyClose =>
      have hno : ¬ t.HasSlot := by simp [HandlerTask.HasSlot, hwait]
      have hnext : ∀ t' ∈ (none : Option HandlerTask), ¬ t'.HasSlot := by simp
      exact h.bystander hi hno hnext false
  | body wait =>
      have hslot : t.HasSlot := by simp [HandlerTask.HasSlot, hwait]
      simp only
      split
      · exact (h.owner hi hslot).goBody _
      · exact h
  | release =>
      have hslot : t.HasSlot := by simp [HandlerTask.HasSlot, hwait]
      exact (h.owner hi hslot).leave

theorem Single.step (h : s.Single) (e : SlotEvent) : Single (s.step e) := by
  cases e with
  | connect sessId =>
      refine ⟨h.one.append ?_, ?_, ?_⟩
      · intro u hu
        rw [List.mem_singleton.mp hu]
        exact id
      · intro u hu huslot
        rcases List.mem_append.mp hu with hmem | hmem
        · exact h.active u hmem huslot
        · rw [List.mem_singleton.mp hmem] at huslot
          exact huslot.elim
      · intro hsome
        obtain ⟨u, hu, huslot⟩ := h.taken hsome
        exact ⟨u, List.mem_append_left _ hu, huslot⟩
  | goOn i way =>
      rw [SlotState.step]
      split
      · next hi => exact h.handler hi way
      · exact h

theorem single_run (es : List SlotEvent) : Single (run es) := by
  induction es using List.reverseRecOn with
  | nil => exact single_init
  | append_singleton es e ih =>
      rw [run, List.foldl_append]
      exact ih.step e

/-! ## What another handler does -/

/-- A handler without the slot does not touch it while it is taken. -/
theorem handler_active (h : s.Single) {j : Nat} {u : HandlerTask} (hi : s.handlers[i]? = some t)
    (hslot : t.HasSlot) (hj : s.handlers[j]? = some u) (hne : j ≠ i) (way : Nat) :
    (s.handler j u way).activeClient = s.activeClient := by
  have hother : ¬ u.HasSlot := by
    refine (h.owner hi hslot).others u ?_
    exact List.mem_eraseIdx_iff_getElem?.mpr ⟨j, hne, hj⟩
  have hactive := (h.owner hi hslot).active
  rw [SlotState.handler]
  cases hwait : u.wait with
  | take =>
      simp only
      split
      · rfl
      · rw [if_pos (by simp [hactive])]
  | busySend => rfl
  | busyClose => rfl
  | body wait => exact absurd (by simp [HandlerTask.HasSlot, hwait]) hother
  | release => exact absurd (by simp [HandlerTask.HasSlot, hwait]) hother

/-- In every run of handlers: no two of them have the slot; a handler that has it
keeps it whatever else happens; and when no handler runs, it is free. -/
theorem single_active_session (es : List SlotEvent) :
    (∀ (i j : Nat) (t u : HandlerTask), (run es).handlers[i]? = some t → (run es).handlers[j]? = some u →
      t.HasSlot → u.HasSlot → i = j) ∧
    (∀ (i : Nat) (t : HandlerTask), (run es).handlers[i]? = some t → t.HasSlot →
      (run es).activeClient = some t.sessId ∧
        ∀ e, (∀ way, e ≠ .goOn i way) → ((run es).step e).activeClient = some t.sessId) ∧
    ((run es).handlers = [] → (run es).activeClient = none) := by
  have h := single_run es
  refine ⟨?_, ?_, ?_⟩
  · intro i j t u hi hj ht hu
    by_contra hne
    have hother := (h.owner hi ht).others u
      (List.mem_eraseIdx_iff_getElem?.mpr ⟨j, fun heq => hne heq.symm, hj⟩)
    exact hother hu
  · intro i t hi ht
    have hactive := (h.owner hi ht).active
    refine ⟨hactive, ?_⟩
    intro e he
    cases e with
    | connect sessId => exact hactive
    | goOn j way =>
        rw [SlotState.step]
        split
        · next u hj =>
            have hne : j ≠ i := by
              rintro rfl
              exact he way rfl
            rw [handler_active h hi ht hj hne way, hactive]
        · exact hactive
  · intro hnone
    by_contra hsome
    obtain ⟨u, hu, -⟩ := h.taken (Option.isSome_iff_ne_none.mpr hsome)
    rw [hnone] at hu
    cases hu

end SlotState

end VTranser.Server

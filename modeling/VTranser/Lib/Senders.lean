import VTranser.Lib.Tasks

/-!
# Coroutines that send

Every coroutine has a list of messages to send over one connection, and may be
suspended after each. They begin in the order in which they were submitted, with
their first message, but what is left of them goes on in any order.

All is in order as long as none begins, with something to send, while another is
suspended with something left (`Calm`). When one does, and no two coroutines have
a message in common, it is not.
-/

namespace VTranser

open Tasks

/-- Coroutines that have not begun, what is left of those that are suspended, what
all of them have to send, and what was sent. -/
structure Senders (μ : Type*) where
  submitted : List (List μ)
  suspended : List (List μ)
  own : List (List μ)
  wire : List μ

namespace Senders

variable {μ : Type*}

def init : Senders μ := ⟨[], [], [], []⟩

def submit (s : Senders μ) (ms : List μ) : Senders μ :=
  { s with submitted := s.submitted ++ [ms], own := s.own ++ [ms] }

/-- The first of those that have not begun begins. -/
def start (s : Senders μ) : Senders μ :=
  match s.submitted with
  | [] => s
  | [] :: rest => { s with submitted := rest }
  | (m :: ms) :: rest =>
      { s with submitted := rest, suspended := s.suspended ++ [ms], wire := s.wire ++ [m] }

/-- The `i`-th of those that are suspended goes on. -/
def resume (s : Senders μ) (i : Nat) : Senders μ :=
  match s.suspended[i]? with
  | none => s
  | some [] => { s with suspended := goOn s.suspended i none }
  | some (m :: ms) =>
      { s with suspended := goOn s.suspended i (some ms), wire := s.wire ++ [m] }

@[simp] theorem own_start (s : Senders μ) : s.start.own = s.own := by
  rw [start]
  split <;> rfl

@[simp] theorem own_resume (s : Senders μ) (i : Nat) : (s.resume i).own = s.own := by
  rw [resume]
  split <;> rfl

/-- What was sent is the beginning of what the coroutines have to send, one after
the other, and all of it when nothing is left. -/
def InOrder (s : Senders μ) : Prop :=
  s.wire <+: s.own.flatten ∧
    (s.submitted.flatten = [] → s.suspended.flatten = [] → s.wire = s.own.flatten)

/-- Nothing is left of those that are suspended when the next one has something to
send. -/
def Calm (s : Senders μ) : Prop :=
  ∀ c ∈ s.submitted.head?, c ≠ [] → ∀ d ∈ s.suspended, d = []

/-- One coroutine is sending, and what is left comes after what was sent. -/
structure Sequential (s : Senders μ) : Prop where
  one : AllButOne (· = []) s.suspended
  left : s.wire ++ (s.suspended.flatten ++ s.submitted.flatten) = s.own.flatten

variable {s : Senders μ}

theorem sequential_init : Sequential (init : Senders μ) := ⟨.nil, rfl⟩

theorem Sequential.inOrder (h : s.Sequential) : s.InOrder := by
  refine ⟨⟨_, h.left⟩, ?_⟩
  intro hsub hsus
  have hleft := h.left
  rwa [hsub, hsus, List.append_nil, List.append_nil] at hleft

theorem Sequential.submit (h : s.Sequential) (ms : List μ) : (s.submit ms).Sequential where
  one := h.one
  left := by
    simp only [Senders.submit, List.flatten_append, List.flatten_singleton]
    rw [← List.append_assoc s.suspended.flatten, ← List.append_assoc s.wire, h.left]

/-- One list among empty ones, and another in its place. -/
theorem flatten_of_rest {ls : List (List μ)} {i : Nat} {l : List μ} (hi : ls[i]? = some l)
    (hrest : ∀ l' ∈ ls.eraseIdx i, l' = []) (l' : List μ) :
    ls.flatten = l ∧ (goOn ls i (some l')).flatten = l' := by
  induction ls generalizing i with
  | nil => cases hi
  | cons x xs ih =>
      cases i with
      | zero =>
          obtain rfl := Option.some.inj hi
          have hnil : xs.flatten = [] := List.flatten_eq_nil_iff.mpr hrest
          simp [goOn, hnil]
      | succ i =>
          have hx : x = [] := hrest x (by simp)
          have htail := ih hi fun u hu => hrest u (by simp [hu])
          rw [goOn] at htail ⊢
          rw [List.set_cons_succ, List.flatten_cons, List.flatten_cons, hx]
          exact htail

theorem flatten_eraseIdx_nil {ls : List (List μ)} {i : Nat} (hi : ls[i]? = some []) :
    (goOn ls i none).flatten = ls.flatten := by
  induction ls generalizing i with
  | nil => cases hi
  | cons x xs ih =>
      cases i with
      | zero =>
          obtain rfl := Option.some.inj hi
          rfl
      | succ i =>
          have htail := ih hi
          rw [goOn] at htail ⊢
          rw [List.eraseIdx_cons_succ, List.flatten_cons, List.flatten_cons, htail]

theorem Sequential.start (h : s.Sequential) (hcalm : s.Calm) : s.start.Sequential := by
  rw [Senders.start]
  split
  · exact h
  · next rest hsub => exact ⟨h.one, by simpa [hsub] using h.left⟩
  · next m ms rest hsub =>
      have hnil : ∀ d ∈ s.suspended, d = [] := hcalm (m :: ms) (by simp [hsub]) (by simp)
      have hflat : s.suspended.flatten = [] := List.flatten_eq_nil_iff.mpr hnil
      refine ⟨AllButOne.append_of_forall hnil ms, ?_⟩
      have hleft := h.left
      rw [hsub, hflat] at hleft
      simpa [hflat] using hleft

theorem Sequential.resume (h : s.Sequential) (i : Nat) : (s.resume i).Sequential := by
  rw [Senders.resume]
  split
  · exact h
  · next hi =>
      have hone : AllButOne (· = []) (goOn s.suspended i none) := h.one.goOn hi fun _ => by simp
      refine ⟨hone, ?_⟩
      show s.wire ++ ((goOn s.suspended i none).flatten ++ _) = _
      rw [flatten_eraseIdx_nil hi]
      exact h.left
  · next m ms hi =>
      have hrest := h.one.rest hi (by simp)
      obtain ⟨hflat, hset⟩ := flatten_of_rest hi hrest ms
      refine ⟨AllButOne.goOn_of_rest hi hrest (some ms), ?_⟩
      have hleft := h.left
      rw [hflat] at hleft
      show s.wire ++ [m] ++ ((goOn s.suspended i (some ms)).flatten ++ _) = _
      rw [hset]
      simpa using hleft

/-! ## Coroutines without a message in common -/

/-- What is left of different coroutines has no message in common, and is what
they have to send. -/
structure Apart (s : Senders μ) : Prop where
  apart : (s.suspended ++ s.submitted).Pairwise List.Disjoint
  own : ∀ c ∈ s.suspended ++ s.submitted, ∀ m ∈ c, m ∈ s.own.flatten

theorem apart_init : Apart (init : Senders μ) := ⟨.nil, nofun⟩

theorem Apart.submit (h : s.Apart) {ms : List μ} (hfresh : List.Disjoint s.own.flatten ms) :
    (s.submit ms).Apart where
  apart := by
    rw [Senders.submit, ← List.append_assoc]
    refine List.pairwise_append.mpr ⟨h.apart, List.pairwise_singleton _ _, ?_⟩
    intro c hc d hd
    rw [List.mem_singleton.mp hd]
    exact fun m hm => hfresh (h.own c hc m hm)
  own c hc m hm := by
    rw [Senders.submit, List.flatten_append, List.flatten_singleton, List.mem_append]
    rw [Senders.submit, ← List.append_assoc] at hc
    rcases List.mem_append.mp hc with hc | hc
    · exact .inl (h.own c hc m hm)
    · rw [List.mem_singleton.mp hc] at hm
      exact .inr hm

/-- A coroutine that ends leaves the others apart. -/
theorem Apart.erase (h : s.Apart) {s' : Senders μ} (hown : s'.own = s.own)
    (hle : (s'.suspended ++ s'.submitted).Sublist (s.suspended ++ s.submitted)) : s'.Apart where
  apart := h.apart.sublist hle
  own c hc m hm := by
    rw [hown]
    exact h.own c (hle.subset hc) m hm

/-- A coroutine that has sent a message has fewer left. -/
theorem Apart.shrink (h : s.Apart) {s' : Senders μ} (hown : s'.own = s.own)
    {before after : List (List μ)} {m : μ} {ms : List μ}
    (hs : s.suspended ++ s.submitted = before ++ (m :: ms) :: after)
    (hs' : s'.suspended ++ s'.submitted = before ++ ms :: after) : s'.Apart where
  apart := by
    have hapart := h.apart
    rw [hs] at hapart
    rw [hs']
    obtain ⟨hbefore, hcons, hcross⟩ := List.pairwise_append.mp hapart
    obtain ⟨hhead, hafter⟩ := List.pairwise_cons.mp hcons
    refine List.pairwise_append.mpr ⟨hbefore, List.pairwise_cons.mpr ⟨?_, hafter⟩, ?_⟩
    · intro c hc x hx
      exact hhead c hc (List.mem_cons_of_mem m hx)
    · intro c hc d hd
      rcases List.mem_cons.mp hd with rfl | hd
      · exact fun x hx hms => hcross c hc (m :: d) (by simp) hx (List.mem_cons_of_mem m hms)
      · exact hcross c hc d (by simp [hd])
  own c hc x hx := by
    rw [hs'] at hc
    rw [hown]
    rcases List.mem_append.mp hc with hc | hc
    · exact h.own c (by simp [hs, hc]) x hx
    · rcases List.mem_cons.mp hc with rfl | hc
      · exact h.own (m :: c) (by simp [hs]) x (List.mem_cons_of_mem m hx)
      · exact h.own c (by simp [hs, hc]) x hx

theorem Apart.start (h : s.Apart) : s.start.Apart := by
  rw [Senders.start]
  split
  · exact h
  · next rest hsub =>
      refine h.erase rfl ?_
      rw [hsub]
      exact (List.sublist_cons_self _ _).append_left _
  · next m ms rest hsub =>
      refine h.shrink rfl (by rw [hsub]) ?_
      simp

theorem Apart.resume (h : s.Apart) (i : Nat) : (s.resume i).Apart := by
  rw [Senders.resume]
  split
  · exact h
  · exact h.erase rfl ((List.eraseIdx_sublist _ _).append_right _)
  · next m ms hi =>
      obtain ⟨hlt, hget⟩ := List.getElem?_eq_some_iff.mp hi
      have hsplit : s.suspended = s.suspended.take i ++ (m :: ms) :: s.suspended.drop (i + 1) := by
        rw [← hget, ← List.drop_eq_getElem_cons hlt, List.take_append_drop]
      have hset : goOn s.suspended i (some ms) =
          s.suspended.take i ++ ms :: s.suspended.drop (i + 1) :=
        List.set_eq_take_append_cons_drop.trans (if_pos hlt)
      have hs : s.suspended ++ s.submitted =
          s.suspended.take i ++ (m :: ms) :: (s.suspended.drop (i + 1) ++ s.submitted) := by
        rw [← List.cons_append, ← List.append_assoc, ← hsplit]
      have hs' : goOn s.suspended i (some ms) ++ s.submitted =
          s.suspended.take i ++ ms :: (s.suspended.drop (i + 1) ++ s.submitted) := by
        rw [hset, List.append_assoc, List.cons_append]
      exact h.shrink rfl hs hs'

/-- A coroutine that begins in between is out of order. -/
theorem not_inOrder_start (h : s.Sequential) (hapart : s.Apart) (hcalm : ¬ s.Calm) :
    ¬ s.start.InOrder := by
  simp only [Calm, not_forall] at hcalm
  obtain ⟨c, hc, hne, d, hd, hdne⟩ := hcalm
  obtain ⟨m, ms, rfl⟩ := List.exists_cons_of_ne_nil hne
  obtain ⟨rest, hsub⟩ := List.head?_eq_some_iff.mp hc
  intro horder
  have hflat : s.suspended.flatten ≠ [] := fun hnil => hdne (List.flatten_eq_nil_iff.mp hnil d hd)
  obtain ⟨x, xs, hx⟩ := List.exists_cons_of_ne_nil hflat
  have hpre : s.wire ++ [m] <+: s.own.flatten := by
    have hwire := horder.1
    rwa [Senders.start, hsub] at hwire
  rw [← h.left, List.prefix_append_right_inj, hx, List.cons_append, List.cons_prefix_cons] at hpre
  -- What comes next is another coroutine's, and no message of this one.
  obtain ⟨e, he, hxe⟩ := List.mem_flatten.mp (show x ∈ s.suspended.flatten by rw [hx]; simp)
  have hdisjoint := (List.pairwise_append.mp hapart.apart).2.2 e he (m :: ms) (by simp [hsub])
  rw [← hpre.1] at hxe
  exact hdisjoint hxe (by simp)

/-! ## One message each -/

/-- No coroutine has more than one message to send. -/
structure Single (s : Senders μ) : Prop where
  submitted : ∀ c ∈ s.submitted, c.length ≤ 1
  suspended : ∀ c ∈ s.suspended, c = []

theorem single_init : Single (init : Senders μ) := ⟨nofun, nofun⟩

theorem Single.calm (h : s.Single) : s.Calm := fun _ _ _ => h.suspended

theorem Single.submit (h : s.Single) {ms : List μ} (hms : ms.length ≤ 1) : (s.submit ms).Single where
  submitted c hc := by
    rcases List.mem_append.mp hc with hc | hc
    · exact h.submitted c hc
    · rwa [List.mem_singleton.mp hc]
  suspended := h.suspended

theorem Single.start (h : s.Single) : s.start.Single := by
  rw [Senders.start]
  split
  · exact h
  · next rest hsub => exact ⟨fun c hc => h.submitted c (by simp [hsub, hc]), h.suspended⟩
  · next m ms rest hsub =>
      have hms : ms = [] := by
        have hle := h.submitted (m :: ms) (by simp [hsub])
        rw [List.length_cons] at hle
        exact List.length_eq_zero_iff.mp (by omega)
      refine ⟨fun c hc => h.submitted c (by simp [hsub, hc]), ?_⟩
      intro c hc
      rcases List.mem_append.mp hc with hc | hc
      · exact h.suspended c hc
      · rw [List.mem_singleton.mp hc, hms]

theorem Single.resume (h : s.Single) (i : Nat) : (s.resume i).Single := by
  rw [Senders.resume]
  split
  · exact h
  · exact ⟨h.submitted, fun c hc => h.suspended c (List.mem_of_mem_eraseIdx hc)⟩
  · next hi => cases h.suspended _ (List.mem_of_getElem? hi)

end Senders

end VTranser

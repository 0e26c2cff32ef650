import Mathlib.Data.List.Nodup

/-!
# What comes first in a stable sort

A sort that is stable moves nothing past its equals. So what goes before `a` in the
sorted list is what must, and what is `a`'s equal and went before it already; and as
many as these are decide whether `a` is among the first of the sorted list.
-/

namespace VTranser.StableSort

variable {α : Type*} [DecidableEq α]

/-- Whether `b` goes before `a` when `l` is sorted: it may, and if it need not, it does
so in `l`. -/
def ahead (le : α → α → Bool) (l : List α) (a b : α) : Bool :=
  le b a && (!le a b || decide (b ∈ l.takeWhile fun x => x ≠ a))

omit [DecidableEq α] in
/-- Of two entries of a list without repetitions, the other one is on the side it is
on. -/
theorem mem_of_pair_sublist {a x : α} {as bs : List α} (hnd : (as ++ a :: bs).Nodup) :
    ([x, a].Sublist (as ++ a :: bs) → x ∈ as) ∧ ([a, x].Sublist (as ++ a :: bs) → x ∈ bs) := by
  obtain ⟨-, hcons, hdisj⟩ := List.nodup_append.mp hnd
  obtain ⟨hbs, -⟩ := List.nodup_cons.mp hcons
  have has : a ∉ as := fun h => hdisj a h a (by simp) rfl
  constructor
  · intro hsub
    have hpair : (as ++ a :: bs).Pairwise fun x y => y = a → x ∈ as := by
      refine List.pairwise_append.mpr ⟨?_, ?_, fun x hx _ _ _ => hx⟩
      · exact List.pairwise_of_forall_mem_list fun x hx y hy h => absurd (h ▸ hy) has
      · refine List.pairwise_cons.mpr ⟨fun y hy h => absurd (h ▸ hy) hbs, ?_⟩
        exact List.pairwise_of_forall_mem_list fun x hx y hy h => absurd (h ▸ hy) hbs
    exact List.pairwise_pair.mp (hpair.sublist hsub) rfl
  · intro hsub
    have hpair : (as ++ a :: bs).Pairwise fun x y => x = a → y ∈ bs := by
      refine List.pairwise_append.mpr ⟨?_, ?_, fun x hx _ _ h => absurd (h ▸ hx) has⟩
      · exact List.pairwise_of_forall_mem_list fun x hx y hy h => absurd (h ▸ hx) has
      · refine List.pairwise_cons.mpr ⟨fun y hy _ => hy, ?_⟩
        exact List.pairwise_of_forall_mem_list fun x hx y hy _ => hy
    exact List.pairwise_pair.mp (hpair.sublist hsub) rfl

section

variable {le : α → α → Bool} {l : List α} {a : α}

omit le in
theorem takeWhile_ne {pre post : List α} (h : a ∉ pre) :
    ((pre ++ a :: post).takeWhile fun x => x ≠ a) = pre := by
  rw [List.takeWhile_append_of_pos, List.takeWhile_cons_of_neg (by simp), List.append_nil]
  intro b hb
  rw [decide_eq_true_eq]
  exact fun heq => h (heq ▸ hb)

/-- Where an entry is in the sorted list says how many go before it. -/
theorem countP_ahead (trans : ∀ a b c, le a b → le b c → le a c)
    (total : ∀ a b, le a b || le b a) (hnd : l.Nodup) {as bs : List α}
    (hsorted : l.mergeSort le = as ++ a :: bs) : l.countP (ahead le l a) = as.length := by
  have hperm := List.mergeSort_perm l le
  have hpair := List.pairwise_mergeSort trans total l
  rw [hsorted] at hperm hpair
  have hnd' : (as ++ a :: bs).Nodup := hperm.nodup_iff.mpr hnd
  obtain ⟨-, hpair, hle⟩ := List.pairwise_append.mp hpair
  obtain ⟨hge, -⟩ := List.pairwise_cons.mp hpair
  have hside := fun x => @mem_of_pair_sublist α a x as bs hnd'
  obtain ⟨pre, post, rfl⟩ := List.append_of_mem (hperm.mem_iff.mp (by simp : a ∈ as ++ a :: bs))
  have hpre : a ∉ pre := fun h => (List.nodup_append.mp hnd).2.2 a h a (by simp) rfl
  have hstable : ∀ x y, le x y → [x, y].Sublist (pre ++ a :: post) →
      [x, y].Sublist (as ++ a :: bs) := fun x y hxy hsub =>
    hsorted ▸ List.pair_sublist_mergeSort trans total hxy hsub
  have has : ∀ b ∈ as, ahead le (pre ++ a :: post) a b = true := by
    intro b hb
    have hba := hle b hb a (by simp)
    simp only [ahead, takeWhile_ne hpre, hba, Bool.true_and, Bool.or_eq_true,
      Bool.not_eq_true', decide_eq_true_eq]
    by_contra hnot
    obtain ⟨hab, hb'⟩ := not_or.mp hnot
    have hmem := hperm.mem_iff.mp (List.mem_append_left _ hb)
    have hne : b ≠ a := fun h => (List.nodup_append.mp hnd').2.2 b hb a (by simp) h
    have hpost : b ∈ post := by simpa [hb', hne] using hmem
    have hsub : [a, b].Sublist (pre ++ a :: post) :=
      ((List.singleton_sublist.mpr hpost).cons_cons a).trans (List.sublist_append_right _ _)
    have hbs := (hside b).2 (hstable a b (by simpa using hab) hsub)
    exact (List.nodup_append.mp hnd').2.2 b hb b (List.mem_cons_of_mem _ hbs) rfl
  have hbs : ∀ b ∈ a :: bs, ahead le (pre ++ a :: post) a b ≠ true := by
    intro b hb hahead
    simp only [ahead, takeWhile_ne hpre, Bool.and_eq_true, Bool.or_eq_true, Bool.not_eq_true',
      decide_eq_true_eq] at hahead
    obtain ⟨hba, hab | hb'⟩ := hahead
    · rcases List.mem_cons.mp hb with rfl | hb
      · simp [hba] at hab
      · simp [hge b hb] at hab
    · have hne : b ≠ a := fun h => hpre (h ▸ hb')
      have hsub : [b, a].Sublist (pre ++ a :: post) :=
        (List.singleton_sublist.mpr hb').append ((List.nil_sublist post).cons_cons a)
      have has := (hside b).1 (hstable b a hba hsub)
      exact (List.nodup_append.mp hnd').2.2 b has b hb rfl
  rw [← hperm.countP_eq, List.countP_append, List.countP_eq_length.mpr has,
    List.countP_eq_zero.mpr hbs, Nat.add_zero]

theorem mem_take_mergeSort_iff (trans : ∀ a b c, le a b → le b c → le a c)
    (total : ∀ a b, le a b || le b a) (hnd : l.Nodup) (ha : a ∈ l) (n : Nat) :
    a ∈ (l.mergeSort le).take n ↔ l.countP (ahead le l a) < n := by
  obtain ⟨as, bs, hsorted⟩ := List.append_of_mem (List.mem_mergeSort.mpr ha : a ∈ l.mergeSort le)
  have hnd' : (as ++ a :: bs).Nodup :=
    hsorted ▸ (List.mergeSort_perm l le).nodup_iff.mpr hnd
  have has : a ∉ as := fun h => (List.nodup_append.mp hnd').2.2 a h a (by simp) rfl
  rw [countP_ahead trans total hnd hsorted, hsorted, List.take_append, List.mem_append]
  constructor
  · rintro (h | h)
    · exact absurd (List.mem_of_mem_take h) has
    · by_contra hle
      rw [Nat.sub_eq_zero_of_le (by omega)] at h
      cases h
  · intro hlt
    obtain ⟨k, hk⟩ : ∃ k, n - as.length = k + 1 := ⟨n - as.length - 1, by omega⟩
    rw [hk, List.take_succ_cons]
    exact Or.inr List.mem_cons_self

omit [DecidableEq α] in
/-- What is taken from the sorted list goes before what is left. -/
theorem le_of_mem_take_drop (trans : ∀ a b c, le a b → le b c → le a c)
    (total : ∀ a b, le a b || le b a) {n : Nat} {b : α}
    (ha : a ∈ (l.mergeSort le).take n) (hb : b ∈ (l.mergeSort le).drop n) : le a b = true := by
  have hpair := List.pairwise_mergeSort trans total l
  rw [← List.take_append_drop n (l.mergeSort le)] at hpair
  exact (List.pairwise_append.mp hpair).2.2 a ha b hb

end

end VTranser.StableSort

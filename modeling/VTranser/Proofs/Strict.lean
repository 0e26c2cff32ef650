import Mathlib.Data.List.Chain
import VTranser.Translator.Strict
import VTranser.Proofs.SplitComplete

/-!
# When strict mode commits every sentence once

The cursor of strict mode is the number of sentences it committed, but it is
compared with places in the list of all sentences, and a sentence without a
letter or digit has a place and is never committed. Past such a sentence the
cursor falls behind, and what was committed is committed again.

Where no sentence of punctuation comes before a committed one, the committed
sentences are the first ones of the text. They are closed, since strict mode
keeps at least the last sentence back, so they are the first ones of every
longer text too, and the cursor is right.
-/

namespace VTranser.Translator

/-! ## One call -/

section Call

variable {cfg : StrictConfig}

/-- The sentences that strict mode may commit, in order. -/
def commitList (cfg : TextConfig) (t : PyStr) : List PyStr :=
  (sentences cfg t).filter fun s => !isPunctOnly cfg s

theorem length_newCounts (cfg : TextConfig) (old : List PyStr) (counts : List Nat)
    (sents : List PyStr) : (newCounts cfg old counts sents).length = sents.length := by
  induction sents generalizing old counts with
  | nil => cases old <;> rfl
  | cons s ss ih => cases old <;> simp [newCounts, ih]

theorem releaseLoop_segs {cfg : TextConfig} {sents : List PyStr}
    (h : ∀ s ∈ sents, normSpaces cfg s = s ∧ s ≠ []) (effSeq : Int) (start : Nat) :
    (releaseLoop cfg effSeq start sents).map Released.seg =
      sents.filter fun s => !isPunctOnly cfg s := by
  induction sents generalizing start with
  | nil => rfl
  | cons s ss ih =>
      have hs := h s (by simp)
      have hrec := ih (fun u hu => h u (by simp [hu])) (start + 1)
      rw [releaseLoop] at hrec ⊢
      rw [List.zipIdx_cons, List.filterMap_cons, List.filter_cons]
      simp only [hs.1]
      cases hp : isPunctOnly cfg s with
      | true => simpa using hrec
      | false => simpa [hs.2] using hrec

/-- What the loop hands on stands behind its cursor. -/
theorem mem_releaseLoop {cfg : TextConfig} {effSeq : Int} {start : Nat} {sents : List PyStr}
    {r : Released} (hr : r ∈ releaseLoop cfg effSeq start sents) :
    ∃ s, start ≤ r.index ∧ sents[r.index - start]? = some s ∧ r.seg = normSpaces cfg s ∧
      isPunctOnly cfg r.seg = false := by
  rw [releaseLoop, List.mem_filterMap] at hr
  obtain ⟨⟨s, i⟩, hmem, hr⟩ := hr
  dsimp only at hr
  split at hr
  · cases hr
  · next hpass =>
      injection hr with hr
      subst hr
      rw [Bool.not_eq_true, Bool.or_eq_false_iff] at hpass
      rw [List.mem_zipIdx_iff_le_and_getElem?_sub] at hmem
      exact ⟨s, hmem.1, hmem.2, rfl, hpass.2⟩

/-- With nothing to flush, at least one sentence is kept back. -/
theorem target_le (hflush : cfg.releaseFlushAll = false) (t : PyStr) (effSeq : Int) (force : Bool)
    (st : StrictState) :
    (strictCollectAndDispatch cfg t effSeq force st).1.targetN + cfg.lagKeep ≤
        (sentences cfg.text t).length ∨
      (strictCollectAndDispatch cfg t effSeq force st).1.targetN = 0 := by
  have hlen := length_newCounts cfg.text st.seenSentences st.seenCounts (sentences cfg.text t)
  have hle := (List.takeWhile_prefix (cfg.sentStableCount ≤ ·)
    (l := newCounts cfg.text st.seenSentences st.seenCounts (sentences cfg.text t))).length_le
  simp only [strictCollectAndDispatch, hflush, Bool.and_false, Bool.false_eq_true, if_false]
  rw [sentences] at hlen hle ⊢
  omega

/-- What one call hands on: the sentences with a letter or digit between the
cursor and the target. -/
theorem collect_released (cfg : StrictConfig) (t : PyStr) (effSeq : Int) (force : Bool) (st : StrictState) :
    let r := strictCollectAndDispatch cfg t effSeq force st
    r.2.map Released.seg =
        (((sentences cfg.text t).take r.1.targetN).drop st.committedSentences.length).filter
          (fun s => !isPunctOnly cfg.text s) ∧
      r.1.committedSentences = st.committedSentences ++ r.2.map Released.seg := by
  refine ⟨?_, rfl⟩
  have htake : ∀ n : Nat, (sentences cfg.text t).take (min n (sentences cfg.text t).length) =
      (sentences cfg.text t).take n := by
    intro n
    rcases Nat.le_total n (sentences cfg.text t).length with h | h
    · rw [Nat.min_eq_left h]
    · rw [Nat.min_eq_right h, List.take_length, List.take_of_length_le h]
  simp only [strictCollectAndDispatch]
  rw [releaseLoop_segs]
  · rw [← sentences, htake]
  · intro s hs
    exact mem_sentences ((List.take_sublist _ _).subset ((List.drop_sublist _ _).subset hs))

end Call

/-! ## Runs -/

section Runs

variable (cfg : StrictConfig)

/-- The arguments of a call. -/
structure Call where
  fullNorm : PyStr
  effSeq : Int
  forceRelease : Bool

/-- The state after a call, and everything handed on so far. -/
def strictStep (r : StrictState × List PyStr) (c : Call) : StrictState × List PyStr :=
  let r' := strictCollectAndDispatch cfg c.fullNorm c.effSeq c.forceRelease r.1
  (r'.1, r.2 ++ r'.2.map Released.seg)

def strictRun (cs : List Call) : StrictState × List PyStr :=
  cs.foldl (strictStep cfg) (.init, [])

/-- Calls on normalized texts that only grow, with nothing to flush. -/
structure Growing (cs : List Call) : Prop where
  noFlush : cfg.releaseFlushAll = false
  normalized : ∀ c ∈ cs, normSpaces cfg.text c.fullNorm = c.fullNorm
  grows : cs.IsChain fun c c' => c.fullNorm <+: c'.fullNorm

/-- After every call, what was handed on is the beginning of what the text has
to commit. -/
def CommitsOnce (cs : List Call) : Prop :=
  Growing cfg cs → ∀ pre c post, cs = pre ++ c :: post →
    (strictRun cfg (pre ++ [c])).2 <+: commitList cfg.text c.fullNorm

/-- Among the sentences that have enough sentences after them, none of
punctuation comes before one with a letter or digit. -/
def PunctLast (t : PyStr) : Prop :=
  ((sentences cfg.text t).take ((sentences cfg.text t).length - cfg.lagKeep)).Pairwise fun s s' =>
    isPunctOnly cfg.text s = true → isPunctOnly cfg.text s' = true

/-- Committed are the first closed sentences of the text, and they are what was
handed on. -/
structure CommittedFirst (t : PyStr) (r : StrictState × List PyStr) : Prop where
  handed : r.2 = r.1.committedSentences
  closed : r.1.committedSentences <+: closedSentences cfg.text t
  alnum : ∀ s ∈ r.1.committedSentences, isPunctOnly cfg.text s = false

variable {cfg}

theorem filter_eq_takeWhile {l : List PyStr} (h : l.Pairwise fun s s' =>
    isPunctOnly cfg.text s = true → isPunctOnly cfg.text s' = true) :
    l.filter (fun s => !isPunctOnly cfg.text s) =
      l.takeWhile fun s => !isPunctOnly cfg.text s := by
  induction l with
  | nil => rfl
  | cons s ss ih =>
      obtain ⟨hs, hss⟩ := List.pairwise_cons.mp h
      rw [List.filter_cons, List.takeWhile_cons]
      cases hp : isPunctOnly cfg.text s with
      | false => simp [ih hss]
      | true =>
          have hnone : ∀ u ∈ ss, isPunctOnly cfg.text u = true := fun u hu => hs u hu hp
          simpa [List.filter_eq_nil_iff] using hnone

/-- The sentences between the cursor and the target, cut off at the first one
of punctuation, prolong what was committed within the closed sentences. -/
theorem commit_prefix {t : PyStr} (hnorm : normSpaces cfg.text t = t) {committed : List PyStr}
    (hclosed : committed <+: closedSentences cfg.text t) {target : Nat}
    (htarget : target + cfg.lagKeep ≤ (sentences cfg.text t).length ∨ target = 0)
    {fresh : List PyStr}
    (hfresh : fresh <+: ((sentences cfg.text t).take target).drop committed.length) :
    committed ++ fresh <+: closedSentences cfg.text t := by
  rcases Nat.lt_or_ge committed.length target with hlt | hle
  · -- The target is within the closed sentences, because the last one is kept back.
    have hlag : 1 ≤ cfg.lagKeep := Nat.le_max_left _ _
    have hlen := length_closedSentences hnorm
    have hsents := closedSentences_isPrefix hnorm
    have htake : (sentences cfg.text t).take target = (closedSentences cfg.text t).take target := by
      rw [List.prefix_iff_eq_take.mp hsents, List.take_take]
      congr 1
      omega
    have hwhole : committed ++ ((sentences cfg.text t).take target).drop committed.length =
        (closedSentences cfg.text t).take target := by
      rw [htake]
      conv_rhs => rw [← List.take_append_drop committed.length (List.take target _)]
      rw [List.take_take, Nat.min_eq_left hlt.le, ← List.prefix_iff_eq_take.mp hclosed]
    exact ((List.prefix_append_right_inj _).mpr hfresh).trans
      (hwhole ▸ List.take_prefix _ _)
  · have hnil : ((sentences cfg.text t).take target).drop committed.length = [] := by
      rw [List.drop_eq_nil_iff, List.length_take]
      omega
    rw [hnil, List.prefix_nil] at hfresh
    rwa [hfresh, List.append_nil]

theorem committedFirst_step (hflush : cfg.releaseFlushAll = false) {t : PyStr} {c : Call}
    (hnorm : normSpaces cfg.text c.fullNorm = c.fullNorm) (hgrow : t <+: c.fullNorm)
    (hlast : PunctLast cfg c.fullNorm) {r : StrictState × List PyStr}
    (h : CommittedFirst cfg t r) : CommittedFirst cfg c.fullNorm (strictStep cfg r c) := by
  obtain ⟨hreleased, hcommitted⟩ := collect_released cfg c.fullNorm c.effSeq
    c.forceRelease r.1
  have htarget := target_le hflush c.fullNorm c.effSeq c.forceRelease r.1
  have hclosed := h.closed.trans (closedSentences_grow hnorm hgrow)
  have hordered : (((sentences cfg.text c.fullNorm).take
      (strictCollectAndDispatch cfg c.fullNorm c.effSeq c.forceRelease r.1).1.targetN).drop
        r.1.committedSentences.length).Pairwise fun s s' =>
          isPunctOnly cfg.text s = true → isPunctOnly cfg.text s' = true := by
    refine List.Pairwise.sublist ((List.drop_sublist _ _).trans ?_) hlast
    rcases htarget with hle | hzero
    · exact (List.take_prefix_take_left (by omega)).sublist
    · rw [hzero, List.take_zero]
      exact List.nil_sublist _
  rw [filter_eq_takeWhile hordered] at hreleased
  refine ⟨?_, ?_, ?_⟩
  · rw [strictStep, hcommitted, h.handed]
  · rw [strictStep, hcommitted, hreleased]
    exact commit_prefix hnorm hclosed htarget (List.takeWhile_prefix _)
  · rw [strictStep, hcommitted, hreleased]
    intro s hs
    rcases List.mem_append.mp hs with hs | hs
    · exact h.alnum s hs
    · simpa using List.mem_takeWhile_imp hs

/-- What was committed first is the beginning of what there is to commit. -/
theorem CommittedFirst.handed_prefix {t : PyStr} (hnorm : normSpaces cfg.text t = t)
    {r : StrictState × List PyStr} (h : CommittedFirst cfg t r) :
    r.2 <+: commitList cfg.text t := by
  have hfilter := (h.closed.trans (closedSentences_isPrefix hnorm)).filter
    fun s => !isPunctOnly cfg.text s
  rwa [List.filter_eq_self.mpr fun s hs => by simp [h.alnum s hs], ← h.handed] at hfilter

theorem committedFirst_run (hflush : cfg.releaseFlushAll = false) (cs : List Call) :
    (∀ c ∈ cs, normSpaces cfg.text c.fullNorm = c.fullNorm) →
      (cs.IsChain fun c c' => c.fullNorm <+: c'.fullNorm) → (∀ c ∈ cs, PunctLast cfg c.fullNorm) →
        ∀ c ∈ cs.getLast?, CommittedFirst cfg c.fullNorm (strictRun cfg cs) := by
  induction cs using List.reverseRecOn with
  | nil => intro _ _ _ c hc; cases hc
  | append_singleton cs c ih =>
      intro hnorm hgrows hlast c' hc'
      rw [List.getLast?_concat, Option.mem_some_iff] at hc'
      subst hc'
      rw [strictRun, List.foldl_append, ← strictRun]
      have hc := hnorm c (by simp)
      cases hcs : cs.getLast? with
      | none =>
          rw [List.getLast?_eq_none_iff] at hcs
          subst hcs
          have hinit : CommittedFirst cfg [] (StrictState.init, []) :=
            ⟨rfl, List.nil_prefix, by simp [StrictState.init]⟩
          exact committedFirst_step hflush hc List.nil_prefix (hlast c (by simp)) hinit
      | some d =>
          obtain ⟨hchain, -, hlink⟩ := List.isChain_append.mp hgrows
          have hprev := ih (fun e he => hnorm e (by simp [he])) hchain
            (fun e he => hlast e (by simp [he])) d hcs
          exact committedFirst_step hflush hc (hlink d hcs c (by simp)) (hlast c (by simp)) hprev

/-- Strict mode commits every sentence once, in order, in every run on texts in
which sentences of punctuation come last. -/
theorem strict_commits_once (cfg : StrictConfig) (cs : List Call)
    (hlast : ∀ c ∈ cs, PunctLast cfg c.fullNorm) : CommitsOnce cfg cs := by
  rintro hgrowing pre c post rfl
  have hcall : pre ++ c :: post = (pre ++ [c]) ++ post := by simp
  rw [hcall] at hlast hgrowing
  have hmem : ∀ d ∈ pre ++ [c], d ∈ (pre ++ [c]) ++ post := fun d hd =>
    List.mem_append_left _ hd
  have hfirst := committedFirst_run hgrowing.noFlush (pre ++ [c])
    (fun d hd => hgrowing.normalized d (hmem d hd)) (List.isChain_append.mp hgrowing.grows).1
    (fun d hd => hlast d (hmem d hd)) c (by simp)
  exact hfirst.handed_prefix (hgrowing.normalized c (hmem c (by simp)))

/-- A text that arrives twice, and its tail release. -/
def seenTwice (t : PyStr) : List Call := [⟨t, 1, false⟩, ⟨t, 2, false⟩, ⟨t, 2, true⟩]

theorem growing_seenTwice {t : PyStr} (hflush : cfg.releaseFlushAll = false)
    (ht : normSpaces cfg.text t = t) : Growing cfg (seenTwice t) where
  noFlush := hflush
  normalized c hc := by
    simp only [seenTwice, List.mem_cons, List.not_mem_nil, or_false] at hc
    rcases hc with rfl | rfl | rfl <;> exact ht
  grows := by simp [seenTwice]

instance (cfg : StrictConfig) (t : PyStr) : Decidable (PunctLast cfg t) :=
  inferInstanceAs (Decidable (List.Pairwise _ _))

theorem strict_commits_once_plain : CommitsOnce defaultStrict (seenTwice "Hi. Yo. No.".toList) :=
  strict_commits_once _ _ fun c hc => by
    simp only [seenTwice, List.mem_cons, List.not_mem_nil, or_false] at hc
    rcases hc with rfl | rfl | rfl <;> decide

/-- `... Hi. Yo. No.`: the cursor counts two sentences and stands on the third
place, so the tail release commits `Yo.` a second time. -/
theorem strict_commits_twice :
    ¬ CommitsOnce defaultStrict (seenTwice "... Hi. Yo. No.".toList) := by
  intro h
  have hprefix := h (growing_seenTwice rfl (by decide)) [⟨_, 1, false⟩, ⟨_, 2, false⟩]
    ⟨_, 2, true⟩ [] rfl
  have hrun : (strictRun defaultStrict (seenTwice "... Hi. Yo. No.".toList)).2 =
      ["Hi.".toList, "Yo.".toList, "Yo.".toList] := by decide
  rw [seenTwice] at hrun
  rw [List.cons_append, List.cons_append, List.nil_append, hrun] at hprefix
  exact absurd hprefix (by decide)

end Runs

end VTranser.Translator

import VTranser.Proofs.Strict

/-!
# Strict mode commits stable sentences only

The counter of a place says how many of the last calls in a row saw the sentence
that stands there now. It is built anew by every call from the counters of the
call before, so that this is what it says is an invariant of runs, on whatever
texts: a place that a call did not see has no counter after it, and one where
another sentence appears starts again at one.
-/

namespace VTranser.Translator

section StrictStable

variable {cfg : StrictConfig}

/-- The last `n` calls all saw the sentence `s` at the place `j`. -/
def SeenLast (cfg : StrictConfig) (cs : List Call) (n j : Nat) (s : PyStr) : Prop :=
  ∀ k < n, ∃ c, cs.reverse[k]? = some c ∧ (sentences cfg.text c.fullNorm)[j]? = some s

theorem seenLast_one {cs : List Call} {c : Call} {j : Nat} {s : PyStr}
    (h : (sentences cfg.text c.fullNorm)[j]? = some s) : SeenLast cfg (cs ++ [c]) 1 j s := by
  intro k hk
  have hzero : k = 0 := by omega
  subst hzero
  exact ⟨c, by simp, h⟩

theorem SeenLast.succ {cs : List Call} {c : Call} {n j : Nat} {s : PyStr}
    (hprev : SeenLast cfg cs n j s) (h : (sentences cfg.text c.fullNorm)[j]? = some s) :
    SeenLast cfg (cs ++ [c]) (n + 1) j s := by
  intro k hk
  cases k with
  | zero => exact ⟨c, by simp, h⟩
  | succ k =>
      obtain ⟨d, hd, hs⟩ := hprev k (by omega)
      exact ⟨d, by simpa using hd, hs⟩

theorem SeenLast.mono {cs : List Call} {m n j : Nat} {s : PyStr} (h : SeenLast cfg cs n j s)
    (hle : m ≤ n) : SeenLast cfg cs m j s :=
  fun k hk => h k (by omega)

/-- A counter starts at one, or counts on from the call before, which saw the
same sentence there. -/
theorem newCounts_getElem? {text : TextConfig} {old sents : List PyStr} {counts : List Nat}
    {j n : Nat} (h : (newCounts text old counts sents)[j]? = some n) :
    n = 1 ∨ ∃ o s m, old[j]? = some o ∧ sents[j]? = some s ∧
      normSpaces text o = normSpaces text s ∧ counts[j]? = some m ∧ n = m + 1 := by
  induction sents generalizing old counts j with
  | nil => cases old <;> cases h
  | cons s sents ih =>
      cases old with
      | nil =>
          cases j with
          | zero => exact .inl (Option.some.inj h).symm
          | succ j =>
              rcases ih h with hone | ⟨o, _, _, ho, -⟩
              · exact .inl hone
              · cases ho
      | cons o old =>
          cases j with
          | zero =>
              have hn := (Option.some.inj h).symm
              split at hn
              · next heq =>
                  cases counts with
                  | nil => exact .inl hn
                  | cons m counts => exact .inr ⟨o, s, m, rfl, rfl, heq, rfl, hn⟩
              · exact .inl hn
          | succ j =>
              rcases ih h with hone | ⟨o', s', m, ho, hs, heq, hm, hn⟩
              · exact .inl hone
              · refine .inr ⟨o', s', m, ho, hs, heq, ?_, hn⟩
                rwa [List.getElem?_tail] at hm

/-- The sentences kept are those of the last call, and each counter is the
length of a streak. -/
structure Streaks (cfg : StrictConfig) (cs : List Call) (st : StrictState) : Prop where
  normalized : ∀ s ∈ st.seenSentences, normSpaces cfg.text s = s
  counted : ∀ (j n : Nat) (s : PyStr), st.seenSentences[j]? = some s →
    st.seenCounts[j]? = some n → SeenLast cfg cs n j s

theorem streaks_init : Streaks cfg [] .init where
  normalized _ hs := by cases hs
  counted _ _ _ hs _ := by cases hs

theorem streaks_collect {cs : List Call} {st : StrictState} (h : Streaks cfg cs st) (c : Call) :
    Streaks cfg (cs ++ [c])
      (strictCollectAndDispatch cfg c.fullNorm c.effSeq c.forceRelease st).1 where
  normalized s hs := (mem_sentences hs).1
  counted j n s hs hn := by
    rcases newCounts_getElem? hn with rfl | ⟨o, s', m, ho, hs', heq, hm, rfl⟩
    · exact seenLast_one hs
    · -- Both sentences are normalized, so the one seen before is this one.
      have hsame : s' = s := Option.some.inj (hs'.symm.trans hs)
      have hnorm := (mem_sentences (List.mem_of_getElem? hs)).1
      rw [h.normalized o (List.mem_of_getElem? ho), hsame, hnorm] at heq
      subst heq
      exact (h.counted j m o ho hm).succ hs

theorem strictRun_concat (cs : List Call) (c : Call) :
    (strictRun cfg (cs ++ [c])).1 =
      (strictCollectAndDispatch cfg c.fullNorm c.effSeq c.forceRelease (strictRun cfg cs).1).1 := by
  rw [strictRun, List.foldl_append]
  rfl

theorem streaks_run (cs : List Call) : Streaks cfg cs (strictRun cfg cs).1 := by
  induction cs using List.reverseRecOn with
  | nil => exact streaks_init
  | append_singleton cs c ih =>
      rw [strictRun_concat]
      exact streaks_collect ih c

/-- Below the first counter that is too low, every sentence has been seen often
enough. -/
theorem lt_takeWhile_length {p : Nat → Bool} {counts : List Nat} {j : Nat}
    (h : j < (counts.takeWhile p).length) : ∃ n, counts[j]? = some n ∧ p n = true := by
  have hlt := h.trans_le (List.takeWhile_prefix p).length_le
  refine ⟨counts[j], List.getElem?_eq_getElem hlt, ?_⟩
  have hmem := List.mem_takeWhile_imp (List.getElem_mem h)
  rwa [(List.takeWhile_prefix p).getElem h] at hmem

/-- The sentences from the cursor on, up to where enough confirmed ones follow,
are handed on. -/
theorem collect_loop (hflush : cfg.releaseFlushAll = false) (t : PyStr) (effSeq : Int)
    (force : Bool) (st : StrictState) :
    (strictCollectAndDispatch cfg t effSeq force st).2 =
      releaseLoop cfg.text effSeq st.committedSentences.length
        (((sentences cfg.text t).take (min (((newCounts cfg.text st.seenSentences st.seenCounts
          (sentences cfg.text t)).takeWhile (cfg.sentStableCount ≤ ·)).length - cfg.lagKeep)
            (sentences cfg.text t).length)).drop st.committedSentences.length) := by
  simp only [strictCollectAndDispatch, hflush, Bool.and_false, Bool.false_eq_true, if_false,
    sentences]

/-- A call hands on the sentence of a place only with `lagKeep` confirmed ones
after it. -/
theorem collect_released_at (hflush : cfg.releaseFlushAll = false) {t : PyStr} {effSeq : Int}
    {force : Bool} {st : StrictState} {rel : Released}
    (h : rel ∈ (strictCollectAndDispatch cfg t effSeq force st).2) :
    (sentences cfg.text t)[rel.index]? = some rel.seg ∧
      rel.index + cfg.lagKeep < ((newCounts cfg.text st.seenSentences st.seenCounts
        (sentences cfg.text t)).takeWhile (cfg.sentStableCount ≤ ·)).length := by
  rw [collect_loop hflush] at h
  obtain ⟨s, hle, hs, hseg, -⟩ := mem_releaseLoop h
  rw [List.getElem?_drop, Nat.add_sub_cancel' hle, List.getElem?_take] at hs
  split at hs
  · next hlt =>
      have hnorm := (mem_sentences (List.mem_of_getElem? hs)).1
      refine ⟨?_, by omega⟩
      rw [hseg, hnorm]
      exact hs
  · cases hs

/-- After any calls, a call hands on the sentence of a place only if it and the
calls before it saw the same sentences there, at the places before and at those
kept back after it, and what is committed stays committed. -/
theorem strict_commits_stable (cfg : StrictConfig) (hflush : cfg.releaseFlushAll = false)
    (cs : List Call) (c : Call) :
    (∀ rel ∈ (strictCollectAndDispatch cfg c.fullNorm c.effSeq c.forceRelease
        (strictRun cfg cs).1).2,
      (sentences cfg.text c.fullNorm)[rel.index]? = some rel.seg ∧
        ∀ j ≤ rel.index + cfg.lagKeep, ∃ s, (sentences cfg.text c.fullNorm)[j]? = some s ∧
          SeenLast cfg (cs ++ [c]) cfg.sentStableCount j s) ∧
      (strictRun cfg cs).1.committedSentences <+:
        (strictRun cfg (cs ++ [c])).1.committedSentences := by
  refine ⟨?_, ?_⟩
  · intro rel hrel
    obtain ⟨hat, hconfirmed⟩ := collect_released_at hflush hrel
    refine ⟨hat, ?_⟩
    intro j hj
    obtain ⟨n, hn, hstable⟩ := lt_takeWhile_length (Nat.lt_of_le_of_lt hj hconfirmed)
    have hlt := (List.getElem?_eq_some_iff.mp hn).1
    rw [length_newCounts] at hlt
    have hs := List.getElem?_eq_getElem hlt
    have hseen := (streaks_collect (streaks_run cs) c).counted j n _ hs hn
    exact ⟨_, hs, hseen.mono (of_decide_eq_true hstable)⟩
  · rw [strictRun_concat, (collect_released cfg _ _ _ _).2]
    exact List.prefix_append _ _

/-- Seen twice, the first of two sentences is committed. -/
theorem strict_commits_stable_twice :
    ∃ rel, rel ∈ (strictCollectAndDispatch defaultStrict "Hi. Yo.".toList 2 false
        (strictRun defaultStrict [⟨"Hi. Yo.".toList, 1, false⟩]).1).2 ∧ rel.seg = "Hi.".toList ∧
      ∃ s, (sentences defaultStrict.text "Hi. Yo.".toList)[1]? = some s ∧
        SeenLast defaultStrict [⟨"Hi. Yo.".toList, 1, false⟩, ⟨"Hi. Yo.".toList, 2, false⟩] 2 1 s := by
  have hrel : (⟨0, 2, "Hi.".toList⟩ : Released) ∈
      (strictCollectAndDispatch defaultStrict "Hi. Yo.".toList 2 false
        (strictRun defaultStrict [⟨"Hi. Yo.".toList, 1, false⟩]).1).2 := by decide
  have h := strict_commits_stable defaultStrict rfl [⟨"Hi. Yo.".toList, 1, false⟩]
    ⟨"Hi. Yo.".toList, 2, false⟩
  exact ⟨_, hrel, rfl, (h.1 _ hrel).2 1 (by decide)⟩

end StrictStable

end VTranser.Translator

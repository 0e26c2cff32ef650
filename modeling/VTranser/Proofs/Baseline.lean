import VTranser.Proofs.Handler
import VTranser.Proofs.Strict

/-!
# When the sentences of a baseline are never translated

A baseline is text that the client has shown already. The branch that receives
it forgets what was counted and committed, so for strict mode its sentences are
as new as any that follow: once a later update repeats them they are confirmed
and committed.

What keeps a sentence back is only that too few sentences follow it. Where this
holds of every sentence of the baseline, in the baseline itself and in every
text after it, none is committed: every text that strict mode works on is the
last one received, and a sentence it hands on has enough sentences behind it.
-/

namespace VTranser.Translator

open Run Handler

/-! ## One call -/

/-- How many sentences strict mode never commits at the end of a text. -/
def StrictConfig.kept (cfg : StrictConfig) : Nat := if cfg.releaseFlushAll then 0 else cfg.lagKeep

theorem sentences_normSpaces (cfg : TextConfig) (t : PyStr) :
    sentences cfg (normSpaces cfg t) = sentences cfg t := by
  rw [sentences, sentences, splitCompleteSentencesText, splitCompleteSentencesText,
    normSpaces_normSpaces]

/-- A sentence that is handed on stands in the text, has a letter or digit, and
enough sentences follow it. -/
theorem collect_index {cfg : StrictConfig} {t : PyStr} {effSeq : Int} {force : Bool}
    {st : StrictState} {r : Released}
    (hr : r ∈ (strictCollectAndDispatch cfg t effSeq force st).2) :
    ∃ s, (sentences cfg.text t)[r.index]? = some s ∧ isPunctOnly cfg.text s = false ∧
      r.index + cfg.kept < (sentences cfg.text t).length := by
  simp only [strictCollectAndDispatch] at hr
  rw [← sentences] at hr
  generalize hupper : min _ (sentences cfg.text t).length = upper at hr
  obtain ⟨s, hstart, hs, hseg, hpunct⟩ := mem_releaseLoop hr
  rw [List.getElem?_drop, Nat.add_sub_cancel' hstart, List.getElem?_take] at hs
  split at hs
  · next hlt =>
      have hmem : s ∈ sentences cfg.text t := List.mem_of_getElem? hs
      rw [hseg, (mem_sentences hmem).1] at hpunct
      refine ⟨s, hs, hpunct, ?_⟩
      -- The target is at least `kept` below the number of sentences.
      have hlen := length_newCounts cfg.text st.seenSentences st.seenCounts (sentences cfg.text t)
      have hle := (List.takeWhile_prefix (cfg.sentStableCount ≤ ·)
        (l := newCounts cfg.text st.seenSentences st.seenCounts (sentences cfg.text t))).length_le
      rw [StrictConfig.kept]
      by_cases hflush : cfg.releaseFlushAll = true
      · rw [if_pos hflush]
        omega
      · rw [if_neg hflush]
        rw [if_neg (by simp [hflush])] at hupper
        omega
  · cases hs

/-! ## Runs -/

section Runs

variable {σ : Type} (cfg : HandlerConfig σ)

/-- What strict mode handed on is a complete sentence of `b` in its place. -/
def CompleteIn (b : PyStr) (e : PyStr × Released) : Prop :=
  ∃ s ∈ (sentences cfg.strict.text b)[e.2.index]?,
    s ∈ (sentences cfg.strict.text e.1)[e.2.index]?

instance (b : PyStr) (e : PyStr × Released) : Decidable (CompleteIn cfg b e) :=
  inferInstanceAs (Decidable (∃ s ∈ _, _))

/-- A message that comes after the baseline `b`: an update in its order whose
text begins with `b`. -/
def Follows (b : PyStr) (h : Handler σ) : Label → Prop
  | .receive msg _ => msg.mtype = .stable ∧ (∀ seq ∈ msg.seq, h.stream.lastEnSeq < seq) ∧
      b <+: updateText msg h.stream.rawFull
  | _ => True

instance (b : PyStr) (h : Handler σ) : (l : Label) → Decidable (Follows b h l)
  | .receive _ _ => inferInstanceAs (Decidable (_ ∧ _ ∧ _))
  | .readerResume _ | .release _ _ | .releaseResume _ _ | .commitTake | .commitTranslated _
  | .commitFailed | .commitResume | .draftTake | .draftTranslated _ | .draftFailed
  | .draftResume => isTrue trivial

/-- No complete sentence of the baseline is handed on after it. -/
def BaselineUntranslated (h : Handler σ) (msg : InMsg) (clocks : Clocks) (ls : List Label) :
    Prop :=
  cfg.strictStableSentenceOnly = true → msg.mtype = .baseline →
    ∀ h₀ ∈ step cfg h (.receive msg clocks), Guarded (step cfg) (Follows msg.full) h₀ ls →
      ∀ h' ∈ run (step cfg) h₀ ls, ∀ e ∈ h'.passed.drop h.passed.length,
        ¬ CompleteIn cfg msg.full e

instance (h : Handler σ) (msg : InMsg) (clocks : Clocks) (ls : List Label) :
    Decidable (BaselineUntranslated cfg h msg clocks ls) :=
  inferInstanceAs (Decidable (_ = _ → _ = _ → ∀ h₀ ∈ step cfg h (.receive msg clocks),
    Guarded _ _ h₀ ls → ∀ h' ∈ run (step cfg) h₀ ls, ∀ e ∈ h'.passed.drop _, ¬ CompleteIn _ _ e))

/-- A complete sentence of `b` that has enough sentences after it in `t` is one
of punctuation. -/
def KeptBack (b t : PyStr) : Prop :=
  ∀ i < (sentences cfg.strict.text t).length - cfg.strict.kept,
    ∀ s ∈ (sentences cfg.strict.text b)[i]?, s ∈ (sentences cfg.strict.text t)[i]? →
      isPunctOnly cfg.strict.text s = true

/-- The text of an update keeps the baseline `b` back. -/
def KeepsBack (b : PyStr) (h : Handler σ) : Label → Prop
  | .receive msg _ => KeptBack cfg b (updateText msg h.stream.rawFull)
  | _ => True

instance (b t : PyStr) : Decidable (KeptBack cfg b t) :=
  inferInstanceAs (Decidable (∀ i < _, ∀ s ∈ _, s ∈ _ → _))

instance (b : PyStr) (h : Handler σ) : (l : Label) → Decidable (KeepsBack cfg b h l)
  | .receive _ _ => inferInstanceAs (Decidable (KeptBack _ _ _))
  | .readerResume _ | .release _ _ | .releaseResume _ _ | .commitTake | .commitTranslated _
  | .commitFailed | .commitResume | .draftTake | .draftTranslated _ | .draftFailed
  | .draftResume => isTrue trivial

/-- The text is one that keeps `b` back, and so was every text handed on since
there were `n` sentences. -/
structure Untranslated (b : PyStr) (n : Nat) (h : Handler σ) : Prop where
  text : KeptBack cfg b h.stream.rawFull
  length : n ≤ h.passed.length
  passed : ∀ e ∈ h.passed.drop n, ¬ CompleteIn cfg b e

variable {cfg}

theorem KeptBack.normSpaces {b t : PyStr} (h : KeptBack cfg b t) :
    KeptBack cfg b (normSpaces cfg.strict.text t) := by
  rw [KeptBack, sentences_normSpaces]
  exact h

theorem newlyPassed_untranslated {b t : PyStr} (h : KeptBack cfg b t) {effSeq : Int} {force : Bool}
    {st : StrictState} {e : PyStr × Released} (he : e ∈ newlyPassed cfg t effSeq force st) :
    ¬ CompleteIn cfg b e := by
  rw [newlyPassed] at he
  split at he
  · obtain ⟨r, hr, rfl⟩ := List.mem_map.mp he
    obtain ⟨s, hs, hpunct, hkept⟩ := collect_index hr
    rintro ⟨s', hb, ht⟩
    -- The sentence is the same one, so it would be punctuation.
    have hsame : s' = s := Option.some.inj (ht.symm.trans hs)
    subst hsame
    have hpunct' := h r.index (by omega) s' hb ht
    rw [hpunct] at hpunct'
    cases hpunct'
  · cases he

theorem Untranslated.beside {b : PyStr} {n : Nat} {h h' : Handler σ}
    {new : List (PyStr × Released)} (hu : Untranslated cfg b n h) (hb : Beside h new h')
    (hnew : ∀ e ∈ new, ¬ CompleteIn cfg b e) : Untranslated cfg b n h' where
  text := by rw [hb.rawFull]; exact hu.text
  length := by
    rw [hb.passed, List.length_append]
    exact hu.length.trans (Nat.le_add_right _ _)
  passed e he := by
    rw [hb.passed, List.drop_append_of_le_length hu.length] at he
    rcases List.mem_append.mp he with he | he
    · exact hu.passed e he
    · exact hnew e he

/-- The commit worker leaves the text and what was handed on alone. -/
theorem emitCommits_keeps (todo : List (Segment × PyStr)) (h : Handler σ) :
    (emitCommits todo h).stream.rawFull = h.stream.rawFull ∧
      (emitCommits todo h).passed = h.passed := by
  rcases emitCommits_cases todo h with heq | ⟨seg, vi, rest, -, heq⟩ <;>
    · rw [heq]
      exact ⟨rfl, rfl⟩

theorem Untranslated.step {b : PyStr} {n : Nat} {h h' : Handler σ} {l : Label}
    (hu : Untranslated cfg b n h) (hfollows : Follows b h l) (hkeeps : KeepsBack cfg b h l)
    (hstep : step cfg h l = some h') : Untranslated cfg b n h' := by
  have hsame : ∀ {h' : Handler σ}, h'.stream.rawFull = h.stream.rawFull ∧ h'.passed = h.passed →
      Untranslated cfg b n h' := by
    rintro h' ⟨hraw, hpassed⟩
    exact ⟨by rw [hraw]; exact hu.text, by rw [hpassed]; exact hu.length,
      by rw [hpassed]; exact hu.passed⟩
  cases step_effect hstep with
  | beside _ hb => exact hu.beside hb (by simp)
  | released hb => exact hu.beside hb fun e he => newlyPassed_untranslated hu.text he
  | @updated msg clocks h' _ _ hb =>
      have htext := KeptBack.normSpaces hkeeps
      obtain ⟨-, hraw, -⟩ := updateStream_keeps cfg msg clocks h.stream
      generalize updateStream cfg msg clocks h.stream = stream at hraw hb
      have hnext : Untranslated cfg b n { h with stream } :=
        ⟨by rw [hraw]; exact htext, hu.length, hu.passed⟩
      exact hnext.beside hb fun e he => newlyPassed_untranslated htext he
  | reset hm => exact absurd (hfollows.1.symm.trans hm) (by decide)
  | baseline hm => exact absurd (hfollows.1.symm.trans hm) (by decide)
  | commitTake => exact hsame ⟨rfl, rfl⟩
  | commitTranslated => exact hsame (emitCommits_keeps _ h)
  | commitFailed => exact hsame ⟨rfl, rfl⟩
  | deltaSent => exact hsame ⟨rfl, rfl⟩
  | commitsGoOn => exact hsame (emitCommits_keeps _ h)

/-- No sentence of a baseline is handed on while every text keeps it back. -/
theorem baseline_untranslated (cfg : HandlerConfig σ) (h : Handler σ) (msg : InMsg)
    (clocks : Clocks) (ls : List Label) (hbase : KeptBack cfg msg.full msg.full)
    (hkept : ∀ h₀ ∈ step cfg h (.receive msg clocks),
      Guarded (step cfg) (KeepsBack cfg msg.full) h₀ ls) :
    BaselineUntranslated cfg h msg clocks ls := by
  intro _ hm h₀ h₀mem hfollows h' hrun
  have hstart : Untranslated cfg msg.full h.passed.length h₀ := by
    cases step_effect h₀mem with
    | baseline _ hbegins _ _ hraw hb =>
        have hbegun : Untranslated cfg msg.full h.passed.length _ :=
          ⟨by rw [hraw]; exact hbase.normSpaces, by rw [hbegins.passed],
            by rw [hbegins.passed, List.drop_length]; simp⟩
        exact hbegun.beside hb (by simp)
    | reset hr => exact absurd (hm.symm.trans hr) (by decide)
    | updated _ hne => exact absurd hm hne
    | beside hplain => exact absurd hm (hplain msg clocks rfl).2
  exact (run_guarded (fun h l h' hu hg hs => hu.step hg.1 hg.2 hs) hstart
    (hfollows.and (hkept h₀ h₀mem)) hrun).passed

theorem baseline_untranslated_short :
    BaselineUntranslated defaultHandler (.init ()) (message .baseline 1 "Hi.") ⟨1, 1⟩
      [.receive (message .stable 2 "Hi. Yo") ⟨2, 2⟩, .receive (message .stable 3 "Hi. Yo no") ⟨3, 3⟩,
        .release 2 ⟨4, 4⟩] :=
  baseline_untranslated _ _ _ _ _ (by decide) (by decide)

/-- The second time that an update repeats them, the sentences of the baseline
are committed. -/
theorem baseline_translated :
    ¬ BaselineUntranslated defaultHandler (.init ()) (message .baseline 1 "Hi. Yo.") ⟨1, 1⟩
      [.receive (message .stable 2 "Hi. Yo. No.") ⟨2, 2⟩,
        .receive (message .stable 3 "Hi. Yo. No.") ⟨3, 3⟩] := by
  decide

end Runs

end VTranser.Translator

import VTranser.InPage
import VTranser.Lib.Run
import VTranser.Proofs.SentenceGrowth

/-!
# When the rows are the sentences

All sentences but the last of a text are found again in every longer text, so within a
session the counter and the rows go on where they were. A session that begins with the
counter of another begins with rows left out; and a text whose last sentence turns out
to be none has fewer sentences than there are rows.
-/

namespace VTranser.InPage

open Regex Run

/-- The rows of the capture session. -/
def sessionRows (st : State) : List Row := (st.rows.drop st.mark).filter fun r => r.info = .live

/-- The rows of the session are the sentences of its last text but the last one. -/
def Logged (st : State) : Prop := sessionRows st = newRows 0 st.sessionText

/-- A text has no fewer sentences than the one before, and one that has rows comes in a
session that began with the counter at zero. -/
def Fresh (st : State) : Label → Prop
  | .stable full =>
      targetCount st.sessionText ≤ targetCount full ∧ (st.base = 0 ∨ targetCount full = 0)
  | _ => True

instance (st : State) : Decidable (Logged st) := inferInstanceAs (Decidable (_ = _))

instance (st : State) : ∀ i, Decidable (Fresh st i)
  | .stable _ => inferInstanceAs (Decidable (_ ∧ _))
  | .session | .mount | .startClick | .stopClick | .resume .. | .opened .. | .notify ..
  | .status _ => isTrue trivial

/-- The counter is what it was when the session began and the rows since; and a session
that did not begin with zero has none, as long as all is well. -/
structure Counted (st : State) : Prop where
  mark : st.mark ≤ st.rows.length
  count : st.loggedSentCount = st.base + (sessionRows st).length
  fresh : st.base = 0 ∨ sessionRows st = []

/-! ## Sentences -/

/-- The sentences but the last are the first of every longer text. -/
theorem take_splitSentences {s t : JsStr} (h : s <+: t) :
    (Panel.splitSentencesAndTail s).1.take (targetCount s) <+:
      (Panel.splitSentencesAndTail t).1 := by
  obtain ⟨x, rfl⟩ := h
  let m := (sentRe UInt16.toNat (onUnit jsSpace) jsEnd).read
  have hgrow := settled_grow (sent_reads browser_sentSpec) (sent_grows browser_sentSpec) s x
    fun _ _ => trivial
  have hsettled : (settled m s).map Hit.value <+: (Panel.splitSentencesAndTail s).1 :=
    (settled_isPrefix m s).map _
  have hlen : (Panel.splitSentencesAndTail s).1.length ≤ (settled m s).length + 1 := by
    simpa [Panel.splitSentencesAndTail, splitWith] using length_settled m s
  have htake : (Panel.splitSentencesAndTail s).1.take (targetCount s) <+:
      (settled m s).map Hit.value := by
    refine List.prefix_of_prefix_length_le (List.take_prefix _ _) hsettled ?_
    rw [List.length_take, List.length_map, targetCount]
    omega
  exact htake.trans ((hgrow.map _).trans ((settled_isPrefix m (s ++ x)).map _))

theorem jsTrim_sentence_ne_nil {full m : JsStr} (hm : m ∈ (Panel.splitSentencesAndTail full).1) :
    jsTrim m ≠ [] := by
  obtain ⟨hit, hmem, rfl⟩ := List.mem_map.mp hm
  obtain ⟨u, rest, hread⟩ := scan_read (sent_reads browser_sentSpec) full hit hmem
  have hruns := runEnds_of_value browser_sentSpec hread
  rw [← runEnds_strip browser_sentSpec] at hruns
  intro hnil
  rw [jsTrim] at hnil
  rw [hnil] at hruns
  cases hruns

/-- The rows of a text on its own. -/
def sentenceRows (full : JsStr) : List Row :=
  ((Panel.splitSentencesAndTail full).1.take (targetCount full)).map fun s => ⟨jsTrim s, .live⟩

@[simp] theorem length_sentenceRows (full : JsStr) :
    (sentenceRows full).length = targetCount full := by
  rw [sentenceRows, List.length_map, List.length_take, targetCount]
  omega

/-- No sentence is blank, so every one of them is a row. -/
theorem newRows_eq (from' : Nat) (full : JsStr) :
    newRows from' full = (sentenceRows full).drop from' := by
  rw [newRows, sentenceRows, List.filter_eq_self.mpr, List.map_map, List.map_drop]
  · rfl
  · intro t ht
    obtain ⟨s, hs, rfl⟩ := List.mem_map.mp ht
    simpa using jsTrim_sentence_ne_nil (List.mem_of_mem_take (List.mem_of_mem_drop hs))

theorem sentenceRows_isPrefix {s t : JsStr} (h : s <+: t)
    (hcount : targetCount s ≤ targetCount t) : sentenceRows s <+: sentenceRows t := by
  refine (List.prefix_take_iff.mpr ⟨take_splitSentences h, ?_⟩).map _
  rw [List.length_take]
  omega

/-! ## Steps -/

/-- Nothing but rows of the system are added. -/
structure Aside (st st' : State) : Prop where
  rows : ∃ sys : List Row, (∀ r ∈ sys, r.info = .system) ∧ st'.rows = st.rows ++ sys
  count : st'.loggedSentCount = st.loggedSentCount
  text : st'.sessionText = st.sessionText
  base : st'.base = st.base
  mark : st'.mark = st.mark

section

variable {st st' : State}

theorem Aside.refl (st : State) : Aside st st := ⟨⟨[], nofun, by simp⟩, rfl, rfl, rfl, rfl⟩

theorem Aside.addSystem (text : JsStr) (h : Aside st st') : Aside st (addSystem text st') := by
  obtain ⟨sys, hsys, hrows⟩ := h.rows
  refine ⟨⟨sys ++ [⟨text, .system⟩], ?_, ?_⟩, h.count, h.text, h.base, h.mark⟩
  · simpa [or_imp, forall_and] using hsys
  · simp [InPage.addSystem, addRow, hrows]

theorem Aside.setActive (on starting : Bool) (h : Aside st st') :
    Aside st (setActive on starting st') := ⟨h.rows, h.count, h.text, h.base, h.mark⟩

theorem Aside.tasks (tasks : List Task) (h : Aside st st') : Aside st { st' with tasks } :=
  ⟨h.rows, h.count, h.text, h.base, h.mark⟩

theorem Aside.sessionRows_eq (h : Aside st st') (hmark : st.mark ≤ st.rows.length) :
    sessionRows st' = sessionRows st := by
  obtain ⟨sys, hsys, hrows⟩ := h.rows
  have hnone : (sys.filter fun r => r.info = .live) = [] := by
    rw [List.filter_eq_nil_iff]
    intro r hr
    simp [hsys r hr]
  rw [sessionRows, sessionRows, hrows, h.mark, List.drop_append_of_le_length hmark,
    List.filter_append, hnone, List.append_nil]

theorem Aside.logged_iff (h : Aside st st') (hmark : st.mark ≤ st.rows.length) :
    Logged st' ↔ Logged st := by
  rw [Logged, Logged, h.sessionRows_eq hmark, h.text]

theorem Aside.counted (h : Aside st st') (hc : Counted st) : Counted st' := by
  obtain ⟨sys, -, hrows⟩ := h.rows
  refine ⟨?_, ?_, ?_⟩
  · rw [h.mark, hrows, List.length_append]
    exact hc.mark.trans (Nat.le_add_right _ _)
  · rw [h.count, h.base, h.sessionRows_eq hc.mark, hc.count]
  · rw [h.base, h.sessionRows_eq hc.mark]
    exact hc.fresh

theorem aside_resume (task : Task) (reply : Reply) (st : State) :
    Aside st (resume task reply st).1 := by
  have h := Aside.refl st
  unfold resume
  split
  · exact h
  · exact h
  · exact h.addSystem _
  · exact (h.setActive _ _).addSystem _
  · exact h.addSystem _
  · exact h.setActive _ _
  · exact (h.setActive _ _).addSystem _
  · exact h.addSystem _
  · exact h.setActive _ _
  · exact h.setActive _ _

theorem aside_onStatus (s : Status) (st : State) : Aside st (onStatus s st) := by
  have h := Aside.refl st
  cases s with
  | starting | wsConnecting | running => exact h.setActive _ _
  | stopped | serverBusy | serverError | error => exact (h.setActive _ _).addSystem _
  | other => exact h

theorem aside_onNotify (isError : Bool) (text : JsStr) (st : State) :
    Aside st (onNotify isError text st) := by
  have h := Aside.refl st
  rw [onNotify]
  generalize (if isError = true then systemBusyText else text) = text
  split
  · exact h
  · exact h.addSystem _

end

/-- A session begins without rows, and counts from where the panel is. -/
theorem session_fresh (st : State) :
    let st' := { st with sessionText := [], mark := st.rows.length, base := st.loggedSentCount }
    Logged st' ∧ Counted st' := by
  have hrows : sessionRows { st with
      sessionText := [], mark := st.rows.length, base := st.loggedSentCount } = [] := by
    simp [sessionRows]
  have hnone : newRows 0 [] = [] := by decide
  exact ⟨hrows.trans hnone.symm, le_rfl, by rw [hrows]; rfl, Or.inr hrows⟩

/-- What a stable text adds to the rows of its session. -/
theorem sessionRows_onStable (full : JsStr) {st : State} (hmark : st.mark ≤ st.rows.length) :
    sessionRows (onStable full st) =
        sessionRows st ++ (sentenceRows full).drop st.loggedSentCount ∧
      (onStable full st).loggedSentCount = max st.loggedSentCount (targetCount full) ∧
      (onStable full st).base = st.base ∧ (onStable full st).mark = st.mark ∧
      st.rows.length ≤ (onStable full st).rows.length := by
  have hnone : targetCount full ≤ st.loggedSentCount →
      (sentenceRows full).drop st.loggedSentCount = [] := by
    intro hle
    rw [List.drop_eq_nil_iff, length_sentenceRows]
    exact hle
  unfold onStable
  split
  · next hempty =>
      rw [List.isEmpty_iff.mp hempty] at hnone ⊢
      have hzero : targetCount [] = 0 := by decide
      rw [hnone (by omega), hzero]
      simp
  · split
    · next hlt =>
        refine ⟨?_, ?_, rfl, rfl, ?_⟩
        · rw [sessionRows, newRows_eq, List.drop_append_of_le_length hmark, List.filter_append,
            sessionRows]
          congr 1
          rw [List.filter_eq_self]
          intro r hr
          obtain ⟨s, -, rfl⟩ := List.mem_map.mp (List.mem_of_mem_drop hr)
          rfl
        · exact (Nat.max_eq_right hlt.le).symm
        · simp
    · next hle =>
        rw [hnone (by omega), List.append_nil]
        exact ⟨rfl, by omega, rfl, rfl, le_rfl⟩

/-- A stable text keeps the rows if and only if it is fresh. -/
theorem logged_onStable_iff {st : State} {full : JsStr} (hc : Counted st) (hl : Logged st)
    (hgrow : st.sessionText <+: full) :
    sessionRows (onStable full st) = sentenceRows full ↔
      targetCount st.sessionText ≤ targetCount full ∧ (st.base = 0 ∨ targetCount full = 0) := by
  have hrows : sessionRows st = sentenceRows st.sessionText := by
    rw [hl, newRows_eq, List.drop_zero]
  have hcount := hc.count
  have hfresh := hc.fresh
  rw [hrows, length_sentenceRows] at hcount
  rw [hrows, ← List.length_eq_zero_iff, length_sentenceRows] at hfresh
  rw [(sessionRows_onStable full hc.mark).1, hrows]
  constructor
  · intro heq
    have hlen := congrArg List.length heq
    rw [List.length_append, List.length_drop, length_sentenceRows, length_sentenceRows] at hlen
    omega
  · rintro ⟨hle, hbase⟩
    have hpre := sentenceRows_isPrefix hgrow hle
    obtain hzero | hcount' : targetCount full = 0 ∨
        st.loggedSentCount = targetCount st.sessionText := by omega
    · rw [List.drop_eq_nil_of_le (by simp [hzero]), List.append_nil]
      exact hpre.eq_of_length_le (by simp [hzero])
    · conv_lhs => rw [hcount', ← length_sentenceRows, List.prefix_iff_eq_append.mp hpre]

/-! ## Runs -/

/-- What a step does: a stable text comes, a session begins, or nothing of it. -/
theorem step_cases {st st' : State} {i : Label} (h : step st i = some st') :
    (∃ full, i = .stable full ∧ st.sessionText <+: full ∧
      st' = { onStable full st with sessionText := full }) ∨
      (i = .session ∧
        st' = { st with
          sessionText := [], mark := st.rows.length, base := st.loggedSentCount }) ∨
      (Fresh st i ∧ Aside st st') := by
  have hrefl := Aside.refl st
  cases i with
  | session =>
      injection h with h
      exact Or.inr (Or.inl ⟨rfl, h.symm⟩)
  | mount =>
      injection h with h
      exact Or.inr (Or.inr ⟨trivial, h ▸ hrefl⟩)
  | startClick =>
      injection h with h
      refine Or.inr (Or.inr ⟨trivial, ?_⟩)
      rw [← h]
      split
      · exact hrefl
      · exact hrefl.tasks _
  | stopClick =>
      injection h with h
      refine Or.inr (Or.inr ⟨trivial, ?_⟩)
      rw [← h]
      split
      · exact hrefl
      · exact hrefl.addSystem _
  | resume i reply =>
      obtain ⟨task, -, h⟩ := Option.map_eq_some_iff.mp h
      rw [← h]
      exact Or.inr (Or.inr ⟨trivial, (aside_resume task reply st).tasks _⟩)
  | opened active starting =>
      injection h with h
      exact Or.inr (Or.inr ⟨trivial, h ▸ hrefl.setActive _ _⟩)
  | notify isError text =>
      injection h with h
      exact Or.inr (Or.inr ⟨trivial, h ▸ aside_onNotify _ _ _⟩)
  | status s =>
      injection h with h
      exact Or.inr (Or.inr ⟨trivial, h ▸ aside_onStatus _ _⟩)
  | stable full =>
      rw [step, Option.ite_none_right_eq_some, Option.some.injEq] at h
      exact Or.inl ⟨full, rfl, h.1, h.2.symm⟩

theorem step_logged_iff (st : State) (i : Label) (st' : State) (hc : Counted st)
    (hl : Logged st) (h : step st i = some st') : Logged st' ↔ Fresh st i := by
  obtain ⟨full, rfl, hgrow, rfl⟩ | ⟨rfl, rfl⟩ | ⟨hfresh, haside⟩ := step_cases h
  · have hiff := logged_onStable_iff hc hl hgrow
    rw [Logged, newRows_eq, List.drop_zero]
    exact hiff
  · exact iff_of_true (session_fresh st).1 trivial
  · exact iff_of_true ((haside.logged_iff hc.mark).mpr hl) hfresh

theorem step_counted (st : State) (i : Label) (st' : State) (hc : Counted st) (hl : Logged st)
    (hl' : Logged st') (h : step st i = some st') : Counted st' := by
  obtain ⟨full, rfl, hgrow, rfl⟩ | ⟨rfl, rfl⟩ | ⟨-, haside⟩ := step_cases h
  · obtain ⟨hrows, hcount, hbase, hmark, hlen⟩ := sessionRows_onStable full hc.mark
    have hrows' : sessionRows (onStable full st) = sentenceRows full := by
      rw [Logged, newRows_eq, List.drop_zero] at hl'
      exact hl'
    have hfresh := (logged_onStable_iff hc hl hgrow).mp hrows'
    have hold := congrArg List.length hl
    have hnew := congrArg List.length hrows
    rw [hrows', length_sentenceRows, List.length_append, List.length_drop,
      length_sentenceRows] at hnew
    have hc' := hc.count
    have hf := hc.fresh
    rw [← List.length_eq_zero_iff] at hf
    refine ⟨?_, ?_, ?_⟩
    · exact (hmark.le.trans hc.mark).trans hlen
    · show (onStable full st).loggedSentCount =
        (onStable full st).base + (sessionRows (onStable full st)).length
      rw [hcount, hbase, hrows', length_sentenceRows]
      omega
    · show (onStable full st).base = 0 ∨ sessionRows (onStable full st) = []
      rw [hbase, hrows', ← List.length_eq_zero_iff, length_sentenceRows]
      exact hfresh.2
  · exact (session_fresh st).2
  · exact haside.counted hc

/-- The rows of every session are its sentences but the last, each once, at every moment
of a run, if and only if every stable text is fresh: a text has no fewer sentences than
the one before in its session, and where it has rows the session began at zero. -/
theorem logged_iff_fresh {is : List Label} {st : State} (h : run step State.init is = some st) :
    Always step Logged State.init is ↔ Guarded step Fresh State.init is := by
  have hnone : newRows 0 [] = [] := by decide
  refine always_iff_guarded step_logged_iff step_counted ?_ hnone.symm h
  exact ⟨le_rfl, rfl, Or.inl rfl⟩

/-- A session with one sentence, which is no row, and a second one whose sentences become
rows when the next is there. -/
theorem logged_iff_fresh_two :
    Always step Logged State.init
      [.session, .status .running, .stable (jsText "One."), .status .stopped, .session,
        .status .running, .stable (jsText "One. Two."), .stable (jsText "One. Two. Three."),
        .status .stopped] :=
  (logged_iff_fresh rfl).mpr (by decide +kernel)

/-- The second session has no row, since the first has one. -/
theorem not_always_logged :
    ¬ ∀ is st, run step State.init is = some st → Always step Logged State.init is := by
  intro h
  have halways := h [.session, .stable (jsText "One. Two."), .status .stopped, .session,
    .stable (jsText "Three. Four.")] _ rfl
  have hlast := ((((halways.2 _ rfl).2 _ rfl).2 _ rfl).2 _ rfl).2 _ rfl
  revert hlast
  simp only [Always]
  decide +kernel

end VTranser.InPage

import VTranser.Proofs.SentenceGrowth
import VTranser.Server.TxtWriter

/-!
# When the feed has every sentence once

While the snapshots only grow, the sentences a snapshot closes are the first
ones of every later snapshot, so the count of the written ones is a place in all
of them. The `final` item writes what its text has, sentences and tail, and moves
the count behind it. A snapshot that is longer than the final text and comes
after it does not fit that: its part of the tail is written again, and its own
last sentence and tail never are.
-/

namespace VTranser.Server

open Regex

/-! ## Sentences of a snapshot -/

section Sentences

/-- The sentences that something follows. -/
def closedSents (t : PyStr) : List PyStr := (settled Server.sentRe.read t).map Hit.value

/-- The lines that a text stands for: its sentences, and its tail. -/
def savedLines (t : PyStr) : List PyStr :=
  let (sents, tail) := splitSentencesAndTail t
  sents.map pyStrip ++ if (pyStrip tail).isEmpty then [] else [pyStrip tail]

theorem server_reads : Reads Server.sentRe.read id := sent_reads server_sentSpec

theorem closedSents_isPrefix (t : PyStr) : closedSents t <+: (splitSentencesAndTail t).1 :=
  (settled_isPrefix _ t).map _

theorem length_closedSents (t : PyStr) :
    (splitSentencesAndTail t).1.length ≤ (closedSents t).length + 1 := by
  have h := length_settled Server.sentRe.read t
  simpa [closedSents, splitSentencesAndTail, splitWith] using h

/-- When the last sentence is at the end, it is not closed. -/
theorem length_closedSents_of_tail {t : PyStr} (h : (splitSentencesAndTail t).2 = []) :
    (closedSents t).length = (splitSentencesAndTail t).1.length - 1 := by
  have hrest : (scan Server.sentRe.read t).2 = [] := h
  rw [closedSents, settled, hrest]
  simp [splitSentencesAndTail, splitWith]

theorem closedSents_grow {s t : PyStr} (h : s <+: t) : closedSents s <+: closedSents t := by
  obtain ⟨x, rfl⟩ := h
  exact (settled_grow server_reads (sent_grows server_sentSpec) s x fun _ _ => trivial).map _

/-- A sentence, without white space around it, still ends one. -/
theorem runEnds_sentence {t m : PyStr} (hm : m ∈ (splitSentencesAndTail t).1) :
    (runEnds Char.toNat (onChar pySpace) false (pyStrip m)).head? = some true := by
  obtain ⟨hit, hmem, rfl⟩ := List.mem_map.mp hm
  obtain ⟨u, rest, hread⟩ := scan_read server_reads t hit hmem
  rw [pyStrip, runEnds_strip server_sentSpec]
  exact runEnds_of_value server_sentSpec hread

theorem runEnds_tail (t : PyStr) :
    ∀ b ∈ runEnds Char.toNat (onChar pySpace) false (pyStrip (splitSentencesAndTail t).2),
      b = false := by
  rw [pyStrip, runEnds_strip server_sentSpec]
  exact (search_eq_none_iff server_sentSpec _ false (by simp)).mp
    (search_scan_rest server_reads t)

theorem strip_sentence_ne_nil {t m : PyStr} (hm : m ∈ (splitSentencesAndTail t).1) :
    pyStrip m ≠ [] := by
  intro hnil
  have h := runEnds_sentence hm
  rw [hnil] at h
  cases h

/-- No sentence is the same line as a tail. -/
theorem strip_sentence_ne_tail {t t' m : PyStr} (hm : m ∈ (splitSentencesAndTail t).1) :
    pyStrip m ≠ pyStrip (splitSentencesAndTail t').2 := by
  intro heq
  have h := runEnds_sentence hm
  rw [heq] at h
  have hfalse := runEnds_tail t' true (List.mem_of_mem_head? (by rw [h]; exact rfl))
  cases hfalse

/-! ### Normalized texts -/

theorem normSpaces_eq (s : PyStr) : normSpaces s = Words.joinWords ' ' (pySplit s) := by
  rw [normSpaces, pyStrip, pySplit, Words.words_rdropWhile, Words.words_dropWhile]
  rfl

theorem normSpaces_normSpaces (s : PyStr) : normSpaces (normSpaces s) = normSpaces s := by
  rw [normSpaces_eq, normSpaces_eq, pySplit, Words.words_joinWords (by decide)]
  exact fun w hw => Words.mem_words hw

theorem normSpaces_rstrip (s : PyStr) :
    (normSpaces s).rdropWhile (onChar pySpace) = normSpaces s := by
  rw [normSpaces_eq]
  exact Words.rdropWhile_joinWords fun w hw => Words.mem_words hw

theorem tail_suffix (t : PyStr) : (splitSentencesAndTail t).2 <:+ t :=
  ⟨_, scan_rejoin server_reads t⟩

/-- The tail of a normalized text is not white space. -/
theorem strip_tail_ne_nil {t : PyStr} (ht : normSpaces t = t)
    (h : (splitSentencesAndTail t).2 ≠ []) : pyStrip (splitSentencesAndTail t).2 ≠ [] := by
  intro hnil
  obtain ⟨u, hu⟩ := tail_suffix t
  have hspaces : ∀ c ∈ (splitSentencesAndTail t).2, onChar pySpace c = true := by
    rw [← List.dropWhile_eq_nil_iff]
    rw [pyStrip, List.rdropWhile_eq_nil_iff] at hnil
    by_contra hne
    obtain ⟨c, cs, hcs⟩ := List.exists_cons_of_ne_nil hne
    have hhead := dropWhile_head_not (onChar pySpace) (splitSentencesAndTail t).2
    rw [hcs] at hhead hnil
    simp [hnil c (by simp)] at hhead
  have hself := normSpaces_rstrip t
  rw [ht, List.rdropWhile_eq_self_iff] at hself
  have hne : t ≠ [] := by
    rw [← hu]
    simp [h]
  have hlast : t.getLast hne = (splitSentencesAndTail t).2.getLast h := by
    rw [← List.getLast_append_of_ne_nil (List.append_ne_nil_of_right_ne_nil u h) h]
    congr 1
    exact hu.symm
  have hspace := hspaces _ (List.getLast_mem h)
  rw [← hlast] at hspace
  exact hself hne hspace

end Sentences

/-! ## One item -/

section Item

variable {cfg : TxtConfig}

/-- The texts of the lines that some writes add to the feed. -/
def feedTexts (writes : List TxtWrite) : List PyStr :=
  (writes.flatMap TxtWrite.lines).map FeedLine.text

@[simp] theorem feedTexts_nil : feedTexts [] = [] := rfl

@[simp] theorem feedTexts_append (ws ws' : List TxtWrite) :
    feedTexts (ws ++ ws') = feedTexts ws ++ feedTexts ws' := by
  simp [feedTexts]

theorem strip_newlines (s : PyStr) :
    (pyStrip s).rdropWhile (fun c => c = '\r' || c = '\n') = pyStrip s := by
  rw [List.rdropWhile_eq_self_iff]
  intro hne hlast
  refine List.rdropWhile_last_not (onChar pySpace) _ hne ?_
  simp only [Bool.or_eq_true, decide_eq_true_eq] at hlast
  have hnl : onChar pySpace '\r' = true ∧ onChar pySpace '\n' = true := by decide
  rcases hlast with hc | hc
  · show onChar pySpace ((pyStrip s).getLast hne) = true
    rw [hc]
    exact hnl.1
  · show onChar pySpace ((pyStrip s).getLast hne) = true
    rw [hc]
    exact hnl.2

/-- The feed gets stripped lines as they are. -/
theorem appendLines_line (tMs : Int) {lines : List PyStr} (h : ∀ s ∈ lines, pyStrip s ≠ []) :
    (appendLines (lines.map fun s => TxtWriter.line cfg tMs (pyStrip s))).map FeedLine.text =
      lines.map pyStrip := by
  induction lines with
  | nil => rfl
  | cons s ss ih =>
      have hs := h s (by simp)
      have hrec := ih fun u hu => h u (by simp [hu])
      rw [appendLines] at hrec ⊢
      simp only [List.map_cons, TxtWriter.line, strip_newlines] at hrec ⊢
      rw [List.filter_cons, if_pos (by simp [hs]), List.map_cons, hrec]

theorem feedTexts_line (tMs : Int) {lines : List PyStr} (h : ∀ s ∈ lines, pyStrip s ≠ []) :
    feedTexts [.feed (lines.map fun s => TxtWriter.line cfg tMs (pyStrip s))] =
      lines.map pyStrip := by
  rw [feedTexts, List.flatMap_singleton, TxtWrite.lines]
  exact appendLines_line tMs h

theorem sentLines_eq (tMs : Int) {lines : List PyStr} (h : ∀ s ∈ lines, pyStrip s ≠ []) :
    TxtWriter.sentLines cfg tMs lines = lines.map fun s => TxtWriter.line cfg tMs (pyStrip s) := by
  have hall : (lines.map pyStrip).filter (fun s => !s.isEmpty) = lines.map pyStrip := by
    refine List.filter_eq_self.mpr ?_
    intro s hs
    obtain ⟨u, hu, rfl⟩ := List.mem_map.mp hs
    simpa using h u hu
  rw [TxtWriter.sentLines, hall, List.map_map]
  rfl

theorem feedTexts_latest (doLatest : Prop) [Decidable doLatest] (text : PyStr) :
    feedTexts (if doLatest then [.latest text] else []) = [] := by
  split <;> rfl

/-- The sentences from the count on, up to the target, if there are any. -/
theorem feedTexts_commit {sents : List PyStr} (h : ∀ s ∈ sents, pyStrip s ≠ []) (tMs : Int)
    (written target : Nat) :
    feedTexts (if written < target then
        (if (TxtWriter.sentLines cfg tMs ((sents.take target).drop written)).isEmpty then []
          else [.feed (TxtWriter.sentLines cfg tMs ((sents.take target).drop written))])
        else []) = ((sents.take target).drop written).map pyStrip := by
  have hfresh : ∀ s ∈ (sents.take target).drop written, pyStrip s ≠ [] := fun s hs =>
    h s (List.mem_of_mem_take (List.mem_of_mem_drop hs))
  rw [sentLines_eq tMs hfresh]
  split
  · split
    · next hempty =>
        rw [List.map_eq_nil_iff.mp (List.isEmpty_iff.mp hempty)]
        rfl
    · exact feedTexts_line tMs hfresh
  · next hle =>
      have hnil : (sents.take target).drop written = [] := by
        rw [List.drop_eq_nil_iff, List.length_take]
        omega
      rw [hnil]
      rfl

variable (cfg) in
/-- What a snapshot or the final text adds to the feed. -/
theorem writeFull_feed (isFinal : Bool) (full : PyStr) (tMs now : Int) (w : TxtWriter) :
    let t := normSpaces full
    let flush := isFinal && cfg.txtSaveFlushTailOnEnd
    let target := if flush then (splitSentencesAndTail t).1.length
      else (splitSentencesAndTail t).1.length - 1
    let r := w.writeFull cfg isFinal full tMs now
    r.1.writtenSentCount = max w.writtenSentCount target ∧
      feedTexts r.2 =
        (((splitSentencesAndTail t).1.take target).drop w.writtenSentCount).map pyStrip ++
          if flush && !(pyStrip (splitSentencesAndTail t).2).isEmpty then
            [pyStrip (splitSentencesAndTail t).2] else [] := by
  intro t flush target r
  by_cases hempty : t.isEmpty
  · have hr : r = (w, []) := by rw [show r = w.writeFull cfg isFinal full tMs now from rfl,
      TxtWriter.writeFull, if_pos hempty]
    have hnil : t = [] := List.isEmpty_iff.mp hempty
    have hsplit : splitSentencesAndTail [] = ([], []) := by decide
    simp [hr, target, hnil, hsplit, pyStrip]
  · have hsents : ∀ s ∈ (splitSentencesAndTail t).1, pyStrip s ≠ [] := fun s hs =>
      strip_sentence_ne_nil hs
    have hr : r = w.writeFull cfg isFinal full tMs now := rfl
    rw [TxtWriter.writeFull, if_neg hempty] at hr
    have hw : (if max 0 cfg.txtSaveMinLatestIntervalMs ≤ now - w.lastLatestWriteMs then
        { w with lastLatestWriteMs := now } else w).writtenSentCount = w.writtenSentCount := by
      split <;> rfl
    simp only at hr
    generalize (if max 0 cfg.txtSaveMinLatestIntervalMs ≤ now - w.lastLatestWriteMs then
      { w with lastLatestWriteMs := now } else w) = w' at hr hw
    rw [hr]
    refine ⟨?_, ?_⟩
    · show (if w'.writtenSentCount < target then { w' with writtenSentCount := target }
        else w').writtenSentCount = _
      rw [← hw]
      split
      · show target = max w'.writtenSentCount target
        omega
      · omega
    · rw [feedTexts_append, feedTexts_append, feedTexts_latest, List.nil_append,
        feedTexts_commit hsents, hw]
      refine congrArg _ ?_
      show feedTexts (if flush && !(pyStrip (splitSentencesAndTail t).2).isEmpty then
        [.feed [TxtWriter.line cfg tMs (pyStrip (splitSentencesAndTail t).2)]] else []) = _
      split
      · next hlast =>
          simp only [Bool.and_eq_true, Bool.not_eq_true', List.isEmpty_eq_false_iff] at hlast
          have hone : ∀ s ∈ [(splitSentencesAndTail t).2], pyStrip s ≠ [] := by
            simpa using hlast.2
          exact feedTexts_line tMs hone
      · rfl

/-- An item of a callback is of an earlier snapshot. -/
def TxtItem.Below (snap : PyStr) : TxtItem → Prop
  | .draft _ _ => True
  | .stable full _ => normSpaces full = full ∧ full <+: snap

theorem TxtItem.Below.mono {snap snap' : PyStr} {i : TxtItem} (h : i.Below snap)
    (hle : snap <+: snap') : i.Below snap' := by
  cases i with
  | draft => trivial
  | stable full tMs => exact ⟨h.1, h.2.trans hle⟩

theorem take_of_isPrefix {a b : List PyStr} (h : a <+: b) {n : Nat} (hn : n ≤ a.length) :
    b.take n = a.take n := by
  obtain ⟨x, rfl⟩ := h
  exact List.take_append_of_le_length hn

variable (cfg) in
/-- What the item of a callback adds to the feed are closed sentences, from the
count on. -/
theorem write_txt (now : Int) (w : TxtWriter) {snap : PyStr} {i : TxtItem} (h : i.Below snap) :
    ∃ n ≤ (closedSents snap).length,
      (w.write cfg now (.txt i)).1.writtenSentCount = max w.writtenSentCount n ∧
        feedTexts (w.write cfg now (.txt i)).2 =
          (((closedSents snap).take n).drop w.writtenSentCount).map pyStrip := by
  cases i with
  | draft text tMs =>
      have hdraft : (w.writeDraft cfg text now).1.writtenSentCount = w.writtenSentCount ∧
          feedTexts (w.writeDraft cfg text now).2 = [] := by
        rw [TxtWriter.writeDraft]
        split
        · simp only
          split <;> exact ⟨rfl, rfl⟩
        · exact ⟨rfl, rfl⟩
      refine ⟨0, Nat.zero_le _, ?_, ?_⟩
      · rw [Nat.max_zero]
        exact hdraft.1
      · rw [List.take_zero, List.drop_nil, List.map_nil]
        exact hdraft.2
  | stable full tMs =>
      obtain ⟨hnorm, hle⟩ := h
      obtain ⟨hcount, hfeed⟩ := writeFull_feed cfg false full (if tMs = 0 then now else tMs) now w
      simp only [hnorm, Bool.false_and, Bool.false_eq_true, if_false, List.append_nil] at hcount hfeed
      have hclosed := length_closedSents full
      have hn : (splitSentencesAndTail full).1.length - 1 ≤ (closedSents full).length := by omega
      have hgrow := closedSents_grow hle
      refine ⟨_, hn.trans hgrow.length_le, hcount, ?_⟩
      rw [take_of_isPrefix hgrow hn, ← take_of_isPrefix (closedSents_isPrefix full) hn]
      exact hfeed

/-- The final item adds all sentences from the count on, and the tail. -/
theorem write_final (hflush : cfg.txtSaveFlushTailOnEnd = true) (now tMs : Int) (full : PyStr)
    (w : TxtWriter) :
    let t := normSpaces full
    (w.write cfg now (.final full tMs)).1.writtenSentCount =
        max w.writtenSentCount (splitSentencesAndTail t).1.length ∧
      feedTexts (w.write cfg now (.final full tMs)).2 =
        ((splitSentencesAndTail t).1.drop w.writtenSentCount).map pyStrip ++
          if (pyStrip (splitSentencesAndTail t).2).isEmpty then []
          else [pyStrip (splitSentencesAndTail t).2] := by
  intro t
  obtain ⟨hcount, hfeed⟩ := writeFull_feed cfg true full (if tMs = 0 then now else tMs) now w
  simp only [hflush, Bool.and_self, if_true, List.take_length, Bool.true_and] at hcount hfeed
  refine ⟨hcount, hfeed.trans ?_⟩
  cases (pyStrip (splitSentencesAndTail (normSpaces full)).2).isEmpty <;> rfl

theorem take_append_drop_take (l : List PyStr) (a b : Nat) :
    l.take a ++ (l.take b).drop a = l.take (max a b) := by
  rcases Nat.le_total a b with hab | hba
  · rw [Nat.max_eq_right hab]
    conv_rhs => rw [← List.take_append_drop a (l.take b)]
    rw [List.take_take, Nat.min_eq_left hab]
  · have hnil : (l.take b).drop a = [] := by
      rw [List.drop_eq_nil_iff, List.length_take]
      omega
    rw [hnil, List.append_nil, Nat.max_eq_left hba]

theorem drop_take_append_drop_take {l : List PyStr} {k a : Nat} (hk : k ≤ a)
    (ha : a = k ∨ a ≤ l.length) (b : Nat) :
    (l.take a).drop k ++ (l.take b).drop a = (l.take (max a b)).drop k := by
  rcases ha with rfl | ha
  · rw [List.drop_eq_nil_of_le (List.length_take_le _ _), List.nil_append]
    rcases Nat.le_total a b with hab | hba
    · rw [Nat.max_eq_right hab]
    · rw [Nat.max_eq_left hba, List.drop_eq_nil_of_le (List.length_take_le _ _),
        List.drop_eq_nil_of_le ((List.length_take_le _ _).trans hba)]
  · rw [← take_append_drop_take, List.drop_append_of_le_length]
    rw [List.length_take]
    omega

end Item

/-! ## A session -/

namespace TxtSession

section Session

variable {cfg : TxtConfig}

/-- Every snapshot of the session is the beginning of the next one. -/
def AppendOnly (cfg : TxtConfig) : TxtSession → List TxtEvent → Prop
  | _, [] => True
  | s, e :: es => s.st.stableSnapshot <+: (s.step cfg e).st.stableSnapshot ∧
      AppendOnly cfg (s.step cfg e) es

/-! ### Callbacks -/

/-- The snapshot is normalized, and what waits for the event loop is of earlier
ones. -/
structure Callbacks (s : TxtSession) : Prop where
  normal : normSpaces s.st.stableSnapshot = s.st.stableSnapshot
  posted : ∀ i ∈ s.posted, i.Below s.st.stableSnapshot

theorem saveDraft_items (c : Config) (nowMs : Int) (shown : PyStr) (st : State) :
    (saveDraft c nowMs shown st).1.stableSnapshot = st.stableSnapshot ∧
      ∀ i ∈ (saveDraft c nowMs shown st).2, ∀ snap, i.Below snap := by
  rw [saveDraft]
  split
  · refine ⟨rfl, ?_⟩
    intro i hi snap
    rw [List.mem_singleton.mp hi]
    trivial
  · exact ⟨rfl, nofun⟩

theorem patchFromModelText_items (c : Config) (clock : Clock) (text : PyStr) (st : State) :
    (patchFromModelText c clock text st).1.stableSnapshot = st.stableSnapshot ∧
      ∀ i ∈ (patchFromModelText c clock text st).2.2, ∀ snap, i.Below snap := by
  have hshown : ∀ shown st', (patchShown c clock.nowMs shown st').1.stableSnapshot =
        st'.stableSnapshot ∧
      ∀ i ∈ (patchShown c clock.nowMs shown st').2.2, ∀ snap, i.Below snap := by
    intro shown st'
    rw [patchShown]
    split
    · exact ⟨rfl, nofun⟩
    · split
      · exact saveDraft_items c clock.nowMs shown st'
      · exact saveDraft_items c clock.nowMs shown _
  rw [patchFromModelText]
  split
  · exact ⟨rfl, nofun⟩
  · simp only
    split
    · exact ⟨rfl, nofun⟩
    · split
      · exact hshown _ _
      · exact hshown _ _

theorem onStableCb_items (c : Config) (clock : Clock) (text : PyStr) {st : State}
    (hst : normSpaces st.stableSnapshot = st.stableSnapshot) :
    let r := onStableCb c clock text st
    normSpaces r.1.stableSnapshot = r.1.stableSnapshot ∧
      ∀ i ∈ r.2.2, i.Below r.1.stableSnapshot := by
  intro r
  have hr : r = onStableCb c clock text st := rfl
  rw [onStableCb] at hr
  split at hr
  · rw [hr]
    exact ⟨hst, nofun⟩
  · simp only at hr
    split at hr
    · rw [hr]
      exact ⟨hst, nofun⟩
    · have hnorm : normSpaces r.1.stableSnapshot = r.1.stableSnapshot := by
        rw [hr]
        simp only
        split
        · exact normSpaces_normSpaces text
        · exact hst
      refine ⟨hnorm, ?_⟩
      intro i hi
      have hitem : i = .stable r.1.stableSnapshot clock.stabMs := by
        rw [hr] at hi ⊢
        simp only at hi ⊢
        split at hi
        · exact List.mem_singleton.mp hi
        · cases hi
      rw [hitem]
      exact ⟨hnorm, List.prefix_refl _⟩

theorem take_callbacks (now : Int) (s : TxtSession) :
    (s.take cfg now).st = s.st ∧ (s.take cfg now).posted = s.posted := by
  rw [take]
  split
  · exact ⟨rfl, rfl⟩
  · split <;> exact ⟨rfl, rfl⟩

theorem Callbacks.step {s : TxtSession} (h : Callbacks s) (e : TxtEvent)
    (hgrow : s.st.stableSnapshot <+: (s.step cfg e).st.stableSnapshot) :
    Callbacks (s.step cfg e) := by
  cases e with
  | update clock text =>
      obtain ⟨hsnap, hitems⟩ := patchFromModelText_items cfg.toConfig clock text s.st
      refine ⟨?_, ?_⟩
      · show normSpaces (patchFromModelText cfg.toConfig clock text s.st).1.stableSnapshot = _
        rw [hsnap]
        exact h.normal.trans hsnap.symm
      · intro i hi
        rcases List.mem_append.mp hi with hi | hi
        · exact (h.posted i hi).mono hgrow
        · exact hitems i hi _
  | stable clock text =>
      obtain ⟨hnorm, hitems⟩ := onStableCb_items cfg.toConfig clock text h.normal
      refine ⟨hnorm, ?_⟩
      intro i hi
      rcases List.mem_append.mp hi with hi | hi
      · exact (h.posted i hi).mono hgrow
      · exact hitems i hi
  | put =>
      rw [TxtSession.step]
      split
      · exact h
      · next hposted =>
          refine ⟨h.normal, ?_⟩
          intro i hi
          exact h.posted i (by rw [hposted]; exact List.mem_cons_of_mem _ hi)
  | close now =>
      rw [TxtSession.step]
      split
      · exact ⟨h.normal, h.posted⟩
      · exact h
  | stop =>
      rw [TxtSession.step]
      split
      · exact ⟨h.normal, h.posted⟩
      · exact h
  | write now =>
      obtain ⟨hst, hposted⟩ : ((s.step cfg (.write now)).st = s.st ∧
        (s.step cfg (.write now)).posted = s.posted) := take_callbacks now s
      refine ⟨?_, ?_⟩
      · rw [hst]
        exact h.normal
      · rw [hposted, hst]
        exact h.posted

/-! ### The writer's steps -/

theorem take_item {s : TxtSession} {item : QueueItem} {rest : List QueueItem}
    (hstage : s.stage ≠ .stopped) (hq : s.queue = item :: rest) (hitem : item ≠ .stop)
    (now : Int) :
    s.take cfg now = { s with
      queue := rest
      writer := (s.writer.write cfg now item).1
      writes := s.writes ++ (s.writer.write cfg now item).2 } := by
  rw [take, if_neg hstage, hq]
  cases item with
  | txt i => rfl
  | final full tMs => rfl
  | stop => exact absurd rfl hitem

theorem take_stop {s : TxtSession} {rest : List QueueItem} (hstage : s.stage ≠ .stopped)
    (hq : s.queue = .stop :: rest) (now : Int) :
    s.take cfg now = { s with queue := rest, stage := .stopped } := by
  rw [take, if_neg hstage, hq]

theorem take_nil {s : TxtSession} (hq : s.queue = []) (now : Int) : s.take cfg now = s := by
  rw [take, hq]
  split <;> rfl

theorem take_stopped {s : TxtSession} (hstage : s.stage = .stopped) (now : Int) :
    s.take cfg now = s := by
  rw [take, if_pos hstage]

/-! ### Before the final item is written -/

/-- Written are the first closed sentences of `t`. -/
structure Unfinished (t : PyStr) (s : TxtSession) : Prop where
  count : s.writer.writtenSentCount ≤ (closedSents t).length
  feed : feedTexts s.writes = ((closedSents t).take s.writer.writtenSentCount).map pyStrip

theorem Unfinished.mono {t t' : PyStr} {s : TxtSession} (h : Unfinished t s) (hle : t <+: t') :
    Unfinished t' s where
  count := h.count.trans (closedSents_grow hle).length_le
  feed := by rw [take_of_isPrefix (closedSents_grow hle) h.count, h.feed]

theorem Unfinished.write {t : PyStr} {s : TxtSession} (h : Unfinished t s) {i : TxtItem}
    (hi : i.Below t) (now : Int) (rest : List QueueItem) :
    Unfinished t { s with
      queue := rest
      writer := (s.writer.write cfg now (.txt i)).1
      writes := s.writes ++ (s.writer.write cfg now (.txt i)).2 } := by
  obtain ⟨n, hn, hcount, hfeed⟩ := write_txt cfg now s.writer hi
  refine ⟨?_, ?_⟩
  · show (s.writer.write cfg now (.txt i)).1.writtenSentCount ≤ _
    rw [hcount]
    exact Nat.max_le.mpr ⟨h.count, hn⟩
  · show feedTexts (s.writes ++ (s.writer.write cfg now (.txt i)).2) =
      ((closedSents t).take (s.writer.write cfg now (.txt i)).1.writtenSentCount).map pyStrip
    rw [feedTexts_append, h.feed, hfeed, hcount, ← List.map_append, take_append_drop_take]

/-- A session that reads on. -/
structure Open (s : TxtSession) : Prop where
  reading : s.stage = .reading
  callbacks : Callbacks s
  queued : ∃ items : List TxtItem, s.queue = items.map .txt ∧ ∀ i ∈ items, i.Below s.st.stableSnapshot
  written : Unfinished s.st.stableSnapshot s

theorem open_init (stabilizer : TranscriptStabilizer) : Open (init stabilizer) where
  reading := rfl
  callbacks := ⟨show normSpaces [] = [] by decide, nofun⟩
  queued := ⟨[], rfl, nofun⟩
  written := ⟨Nat.zero_le _, rfl⟩

theorem Open.callback {s : TxtSession} (h : Open s) {st : State} {posted : List TxtItem}
    (hcb : Callbacks { s with st := st, posted := posted })
    (hgrow : s.st.stableSnapshot <+: st.stableSnapshot) :
    Open { s with st := st, posted := posted } where
  reading := h.reading
  callbacks := hcb
  queued := by
    obtain ⟨items, hq, hitems⟩ := h.queued
    exact ⟨items, hq, fun i hi => (hitems i hi).mono hgrow⟩
  written :=
    have hw := h.written.mono hgrow
    ⟨hw.count, hw.feed⟩

/-- The text of the final item. -/
def closingText (s : TxtSession) : PyStr := normSpaces s.finalText

/-- What can be on the queue behind the final item. -/
def Later (snap : PyStr) (q : QueueItem) : Prop := q = .stop ∨ ∃ i, q = .txt i ∧ i.Below snap

theorem Later.mono {snap snap' : PyStr} {q : QueueItem} (h : Later snap q)
    (hle : snap <+: snap') : Later snap' q := by
  rcases h with h | ⟨i, h, hi⟩
  · exact .inl h
  · exact .inr ⟨i, h, hi.mono hle⟩

theorem later_stop {snap : PyStr} {q : QueueItem}
    (h : q ∈ if cfg.txtEnable then [QueueItem.stop] else []) : Later snap q := by
  split at h
  · exact .inl (List.mem_singleton.mp h)
  · cases h

/-- What was posted may come later. -/
theorem Callbacks.later {s : TxtSession} (h : Callbacks s) {item : TxtItem} {posted : List TxtItem}
    (hposted : s.posted = item :: posted) :
    ∀ q ∈ [QueueItem.txt item], Later s.st.stableSnapshot q := by
  intro q hq
  exact .inr ⟨item, List.mem_singleton.mp hq, h.posted item (by simp [hposted])⟩

/-- The final item, with the text `t`, is still on the queue. -/
structure Waiting (t : PyStr) (s : TxtSession) : Prop where
  going : s.stage ≠ .reading ∧ s.stage ≠ .stopped
  callbacks : Callbacks s
  queued : ∃ (before : List TxtItem) (full : PyStr) (tMs : Int) (after : List QueueItem),
    s.queue = before.map .txt ++ .final full tMs :: after ∧
    normSpaces full = t ∧ (∀ i ∈ before, i.Below t) ∧ ∀ q ∈ after, Later s.st.stableSnapshot q
  written : Unfinished t s

/-- The final item has been written: what its text stands for is in the feed, and
behind it the closed sentences of later snapshots from the count on. -/
structure Flushed (t : PyStr) (s : TxtSession) : Prop where
  going : s.stage ≠ .reading
  callbacks : Callbacks s
  queued : ∀ q ∈ s.queue, Later s.st.stableSnapshot q
  count : (splitSentencesAndTail t).1.length ≤ s.writer.writtenSentCount
  count_le : s.writer.writtenSentCount = (splitSentencesAndTail t).1.length ∨
    s.writer.writtenSentCount ≤ (closedSents s.st.stableSnapshot).length
  feed : feedTexts s.writes = savedLines t ++
    (((closedSents s.st.stableSnapshot).take s.writer.writtenSentCount).drop
      (splitSentencesAndTail t).1.length).map pyStrip

/-- From a session that reads on, only `close` leads out. -/
theorem Open.step {s : TxtSession} (h : Open s) (e : TxtEvent)
    (hgrow : s.st.stableSnapshot <+: (s.step cfg e).st.stableSnapshot) :
    Open (s.step cfg e) ∨ ∃ now, e = .close now := by
  have hcb := h.callbacks.step e hgrow
  cases e with
  | update clock text => exact .inl (h.callback hcb hgrow)
  | stable clock text => exact .inl (h.callback hcb hgrow)
  | put =>
      refine .inl ?_
      rw [TxtSession.step] at hcb ⊢
      cases hposted : s.posted with
      | nil => exact h
      | cons item posted =>
          rw [hposted] at hcb
          obtain ⟨items, hq, hitems⟩ := h.queued
          refine ⟨h.reading, hcb, ⟨items ++ [item], ?_, ?_⟩, ⟨h.written.count, h.written.feed⟩⟩
          · simp [hq]
          · intro i hi
            rcases List.mem_append.mp hi with hi | hi
            · exact hitems i hi
            · rw [List.mem_singleton.mp hi]
              exact h.callbacks.posted item (by simp [hposted])
  | close now => exact .inr ⟨now, rfl⟩
  | stop =>
      refine .inl ?_
      have hno : s.stage ≠ .closing := by
        rw [h.reading]
        nofun
      rw [TxtSession.step, if_neg hno]
      exact h
  | write now =>
      refine .inl ?_
      obtain ⟨items, hq, hitems⟩ := h.queued
      have hgoing : s.stage ≠ .stopped := by
        rw [h.reading]
        nofun
      show Open (s.take cfg now)
      have hcb' : Callbacks (s.take cfg now) := hcb
      cases items with
      | nil => rw [take_nil hq]; exact h
      | cons i items =>
          rw [take_item hgoing hq nofun] at hcb' ⊢
          exact ⟨h.reading, hcb', ⟨items, rfl, fun j hj => hitems j (by simp [hj])⟩,
            h.written.write (hitems i (by simp)) now _⟩

theorem savedLines_nil : savedLines [] = [] := by decide

/-- What the handler puts on the queue when it closes. -/
theorem Open.close (henable : cfg.txtEnable = true) {s : TxtSession} (h : Open s) (now : Int) :
    Waiting s.closingText (s.step cfg (.close now)) ∨
      Flushed s.closingText (s.step cfg (.close now)) := by
  obtain ⟨items, hq, hitems⟩ := h.queued
  rw [TxtSession.step, if_pos h.reading]
  have hle : s.st.stableSnapshot <+: s.closingText := by
    rw [closingText, finalText]
    split
    · next hnil =>
        rw [List.isEmpty_iff.mp hnil]
        exact List.nil_prefix
    · rw [h.callbacks.normal]
  have hw := h.written.mono hle
  by_cases hempty : s.finalText.isEmpty
  · have htext : s.closingText = [] := by
      rw [closingText, List.isEmpty_iff.mp hempty]
      decide
    have hsnap : s.st.stableSnapshot = [] := by
      rw [htext] at hle
      exact List.prefix_nil.mp hle
    have hnone : (splitSentencesAndTail []).1 = [] ∧ closedSents [] = [] := by decide
    have hcount : s.writer.writtenSentCount = 0 := by
      have hle' := h.written.count
      rw [hsnap, hnone.2] at hle'
      exact Nat.le_zero.mp hle'
    refine .inr ⟨nofun, ⟨h.callbacks.normal, h.callbacks.posted⟩, ?_, ?_, ?_, ?_⟩
    · intro q hmem
      rw [if_neg (by simp [hempty]), List.append_nil, hq] at hmem
      obtain ⟨i, hi, rfl⟩ := List.mem_map.mp hmem
      exact .inr ⟨i, rfl, hitems i hi⟩
    · rw [htext, hnone.1]
      exact Nat.zero_le _
    · rw [htext, hnone.1]
      exact .inl hcount
    · show feedTexts s.writes = _
      rw [h.written.feed, hsnap, hnone.2, htext, savedLines_nil]
      simp [hcount]
  · refine .inl ⟨⟨nofun, nofun⟩, ⟨h.callbacks.normal, h.callbacks.posted⟩, ?_, ⟨hw.count, hw.feed⟩⟩
    refine ⟨items, s.finalText, now, [], ?_, rfl, fun i hi => (hitems i hi).mono hle, nofun⟩
    rw [if_pos (by simp [henable, hempty]), hq]

/-- What the final item leaves. -/
theorem Waiting.flush (hflush : cfg.txtSaveFlushTailOnEnd = true) {t : PyStr} {s : TxtSession}
    (h : Waiting t s) {full : PyStr} {tMs now : Int} {after : List QueueItem}
    (htext : normSpaces full = t) (hafter : ∀ q ∈ after, Later s.st.stableSnapshot q) :
    Flushed t { s with
      queue := after
      writer := (s.writer.write cfg now (.final full tMs)).1
      writes := s.writes ++ (s.writer.write cfg now (.final full tMs)).2 } := by
  obtain ⟨hcount, hfeed⟩ := write_final hflush now tMs full s.writer
  rw [htext] at hcount hfeed
  have hclosed := closedSents_isPrefix t
  have hle : s.writer.writtenSentCount ≤ (splitSentencesAndTail t).1.length :=
    h.written.count.trans hclosed.length_le
  rw [Nat.max_eq_right hle] at hcount
  refine ⟨h.going.1, ⟨h.callbacks.normal, h.callbacks.posted⟩, hafter, ?_, .inl hcount, ?_⟩
  · exact Nat.le_of_eq hcount.symm
  · show feedTexts (s.writes ++ (s.writer.write cfg now (.final full tMs)).2) =
      savedLines t ++ (((closedSents s.st.stableSnapshot).take
        (s.writer.write cfg now (.final full tMs)).1.writtenSentCount).drop
          (splitSentencesAndTail t).1.length).map pyStrip
    have hnil : ((closedSents s.st.stableSnapshot).take
        (splitSentencesAndTail t).1.length).drop (splitSentencesAndTail t).1.length = [] := by
      rw [List.drop_eq_nil_iff]
      exact List.length_take_le _ _
    rw [hcount, hnil, List.map_nil, List.append_nil, feedTexts_append, h.written.feed, hfeed,
      ← take_of_isPrefix hclosed h.written.count, ← List.append_assoc, ← List.map_append,
      List.take_append_drop]
    rfl

theorem Waiting.step (hflush : cfg.txtSaveFlushTailOnEnd = true) {t : PyStr} {s : TxtSession}
    (h : Waiting t s) (e : TxtEvent)
    (hgrow : s.st.stableSnapshot <+: (s.step cfg e).st.stableSnapshot) :
    Waiting t (s.step cfg e) ∨ Flushed t (s.step cfg e) := by
  have hcb := h.callbacks.step e hgrow
  obtain ⟨before, full, tMs, after, hq, htext, hbefore, hafter⟩ := h.queued
  have hwritten : Unfinished t s := h.written
  cases e with
  | update clock text =>
      exact .inl ⟨h.going, hcb, ⟨before, full, tMs, after, hq, htext, hbefore,
        fun q hmem => (hafter q hmem).mono hgrow⟩, ⟨hwritten.count, hwritten.feed⟩⟩
  | stable clock text =>
      exact .inl ⟨h.going, hcb, ⟨before, full, tMs, after, hq, htext, hbefore,
        fun q hmem => (hafter q hmem).mono hgrow⟩, ⟨hwritten.count, hwritten.feed⟩⟩
  | put =>
      refine .inl ?_
      rw [TxtSession.step] at hcb ⊢
      cases hposted : s.posted with
      | nil => exact h
      | cons item posted =>
          rw [hposted] at hcb
          refine ⟨h.going, hcb, ⟨before, full, tMs, after ++ [.txt item], ?_, htext, hbefore, ?_⟩,
            ⟨hwritten.count, hwritten.feed⟩⟩
          · simp [hq]
          · exact List.forall_mem_append.mpr ⟨hafter, h.callbacks.later hposted⟩
  | close now =>
      rw [TxtSession.step, if_neg h.going.1]
      exact .inl h
  | stop =>
      refine .inl ?_
      rw [TxtSession.step] at hcb ⊢
      split
      · next hclosing =>
          rw [if_pos hclosing] at hcb
          refine ⟨⟨nofun, nofun⟩, hcb,
            ⟨before, full, tMs, after ++ if cfg.txtEnable then [.stop] else [], ?_, htext, hbefore, ?_⟩,
              ⟨hwritten.count, hwritten.feed⟩⟩
          · simp [hq]
          · exact List.forall_mem_append.mpr ⟨hafter, fun q => later_stop⟩
      · exact h
  | write now =>
      show Waiting t (s.take cfg now) ∨ Flushed t (s.take cfg now)
      have hcb' : Callbacks (s.take cfg now) := hcb
      cases before with
      | nil =>
          rw [take_item h.going.2 hq nofun]
          exact .inr (h.flush hflush htext hafter)
      | cons i before =>
          rw [take_item h.going.2 hq nofun] at hcb' ⊢
          exact .inl ⟨h.going, hcb', ⟨before, full, tMs, after, rfl, htext,
            fun j hj => hbefore j (by simp [hj]), hafter⟩,
              hwritten.write (hbefore i (by simp)) now _⟩

/-- A longer snapshot closes more sentences behind those that are written. -/
theorem Flushed.grow {t : PyStr} {s : TxtSession} (h : Flushed t s) {st : State}
    {posted : List TxtItem} (hcb : Callbacks { s with st := st, posted := posted })
    (hgrow : s.st.stableSnapshot <+: st.stableSnapshot) :
    Flushed t { s with st := st, posted := posted } where
  going := h.going
  callbacks := hcb
  queued q hmem := (h.queued q hmem).mono hgrow
  count := h.count
  count_le := h.count_le.imp_right fun hle => hle.trans (closedSents_grow hgrow).length_le
  feed := by
    refine h.feed.trans (congrArg (fun l => savedLines t ++ List.map pyStrip l) ?_)
    rcases h.count_le with heq | hle
    · show (_ : List PyStr) = ((closedSents st.stableSnapshot).take
        s.writer.writtenSentCount).drop _
      rw [heq, List.drop_eq_nil_of_le (List.length_take_le _ _),
        List.drop_eq_nil_of_le (List.length_take_le _ _)]
    · rw [take_of_isPrefix (closedSents_grow hgrow) hle]

/-- An item of a callback behind the final one. -/
theorem Flushed.write {t : PyStr} {s : TxtSession} (h : Flushed t s) {i : TxtItem}
    (hi : i.Below s.st.stableSnapshot) (now : Int) {rest : List QueueItem}
    (hrest : ∀ q ∈ rest, Later s.st.stableSnapshot q) :
    Flushed t { s with
      queue := rest
      writer := (s.writer.write cfg now (.txt i)).1
      writes := s.writes ++ (s.writer.write cfg now (.txt i)).2 } := by
  obtain ⟨n, hn, hcount, hfeed⟩ := write_txt cfg now s.writer hi
  refine ⟨h.going, ⟨h.callbacks.normal, h.callbacks.posted⟩, hrest, ?_, ?_, ?_⟩
  · show _ ≤ (s.writer.write cfg now (.txt i)).1.writtenSentCount
    rw [hcount]
    exact h.count.trans (Nat.le_max_left _ _)
  · show (s.writer.write cfg now (.txt i)).1.writtenSentCount = _ ∨
      (s.writer.write cfg now (.txt i)).1.writtenSentCount ≤ _
    rw [hcount]
    rcases Nat.le_total n s.writer.writtenSentCount with hle | hle
    · rw [Nat.max_eq_left hle]
      exact h.count_le
    · rw [Nat.max_eq_right hle]
      exact .inr hn
  · show feedTexts (s.writes ++ (s.writer.write cfg now (.txt i)).2) =
      savedLines t ++ (((closedSents s.st.stableSnapshot).take
        (s.writer.write cfg now (.txt i)).1.writtenSentCount).drop
          (splitSentencesAndTail t).1.length).map pyStrip
    rw [feedTexts_append, h.feed, hfeed, hcount, List.append_assoc, ← List.map_append,
      drop_take_append_drop_take h.count h.count_le]

theorem Flushed.step {t : PyStr} {s : TxtSession} (h : Flushed t s) (e : TxtEvent)
    (hgrow : s.st.stableSnapshot <+: (s.step cfg e).st.stableSnapshot) :
    Flushed t (s.step cfg e) := by
  have hcb := h.callbacks.step e hgrow
  cases e with
  | update clock text => exact h.grow hcb hgrow
  | stable clock text => exact h.grow hcb hgrow
  | put =>
      rw [TxtSession.step] at hcb ⊢
      cases hposted : s.posted with
      | nil => exact h
      | cons item posted =>
          rw [hposted] at hcb
          refine ⟨h.going, hcb, ?_, h.count, h.count_le, h.feed⟩
          exact List.forall_mem_append.mpr ⟨h.queued, h.callbacks.later hposted⟩
  | close now =>
      rw [TxtSession.step, if_neg h.going]
      exact h
  | stop =>
      rw [TxtSession.step] at hcb ⊢
      split
      · next hclosing =>
          rw [if_pos hclosing] at hcb
          refine ⟨nofun, hcb, ?_, h.count, h.count_le, h.feed⟩
          exact List.forall_mem_append.mpr ⟨h.queued, fun q => later_stop⟩
      · exact h
  | write now =>
      show Flushed t (s.take cfg now)
      have hcb' : Callbacks (s.take cfg now) := hcb
      by_cases hstage : s.stage = .stopped
      · rw [take_stopped hstage]
        exact h
      cases hq : s.queue with
      | nil => rw [take_nil hq]; exact h
      | cons q rest =>
          have hrest : ∀ q' ∈ rest, Later s.st.stableSnapshot q' := fun q' hmem =>
            h.queued q' (by rw [hq]; exact List.mem_cons_of_mem _ hmem)
          rcases h.queued q (by simp [hq]) with rfl | ⟨i, rfl, hi⟩
          · rw [take_stop hstage hq] at hcb' ⊢
            exact ⟨nofun, hcb', hrest, h.count, h.count_le, h.feed⟩
          · rw [take_item hstage hq nofun]
            exact h.write hi now hrest

/-! ### Runs -/

theorem flushed_run (hflush : cfg.txtSaveFlushTailOnEnd = true) {t : PyStr} (es : List TxtEvent) :
    ∀ s, Waiting t s ∨ Flushed t s → AppendOnly cfg s es →
      Waiting t (s.run cfg es) ∨ Flushed t (s.run cfg es) := by
  induction es with
  | nil => exact fun s h _ => h
  | cons e es ih =>
      rintro s h ⟨hgrow, hes⟩
      refine ih _ ?_ hes
      rcases h with h | h
      · exact h.step hflush e hgrow
      · exact .inr (h.step e hgrow)

/-- The text of the final item of a run. -/
def finalOf (cfg : TxtConfig) : TxtSession → List TxtEvent → PyStr
  | _, [] => []
  | s, .close now :: es =>
      if s.stage = .reading then s.closingText else finalOf cfg (s.step cfg (.close now)) es
  | s, e :: es => finalOf cfg (s.step cfg e) es

theorem closed_run (henable : cfg.txtEnable = true) (hflush : cfg.txtSaveFlushTailOnEnd = true)
    (es : List TxtEvent) : ∀ s, Open s → AppendOnly cfg s es →
      Open (s.run cfg es) ∨ Waiting (finalOf cfg s es) (s.run cfg es) ∨
        Flushed (finalOf cfg s es) (s.run cfg es) := by
  induction es with
  | nil => exact fun s h _ => .inl h
  | cons e es ih =>
      rintro s h ⟨hgrow, hes⟩
      by_cases hclose : ∃ now, e = .close now
      · obtain ⟨now, rfl⟩ := hclose
        have hfinal : finalOf cfg s (.close now :: es) = s.closingText := by
          rw [finalOf, if_pos h.reading]
        rw [hfinal]
        exact .inr (flushed_run hflush es _ (h.close henable now) hes)
      · have hstep : finalOf cfg s (e :: es) = finalOf cfg (s.step cfg e) es := by
          cases e with
          | close now => exact absurd ⟨now, rfl⟩ hclose
          | _ => rfl
        rw [hstep]
        exact ih _ ((h.step e hgrow).resolve_right hclose) hes

/-! ### Which feeds are right -/

theorem savedLines_sentence {t : PyStr} {k : Nat} (hk : k < (splitSentencesAndTail t).1.length) :
    ∃ m ∈ (splitSentencesAndTail t).1, (savedLines t)[k]? = some (pyStrip m) := by
  refine ⟨_, List.getElem_mem hk, ?_⟩
  rw [savedLines, List.getElem?_append_left (by simpa using hk), List.getElem?_map,
    List.getElem?_eq_getElem hk]
  rfl

/-- Behind the sentences comes the tail, or nothing. -/
theorem savedLines_tail (t : PyStr) (m : PyStr)
    (h : (savedLines t)[(splitSentencesAndTail t).1.length]? = some m) :
    m = pyStrip (splitSentencesAndTail t).2 := by
  rw [savedLines, List.getElem?_append_right (by simp), List.length_map, Nat.sub_self] at h
  split at h
  · cases h
  · exact (Option.some.inj h).symm

/-- The sentences of a later snapshot are never what the final text misses. -/
theorem savedLines_ne {t snap : PyStr} {rest : List PyStr}
    (hlt : (splitSentencesAndTail t).1.length < (splitSentencesAndTail snap).1.length)
    (hlong : (splitSentencesAndTail t).1.length < (savedLines t).length ∨ rest = []) :
    savedLines t ++ rest ≠ savedLines snap := by
  intro heq
  obtain ⟨m, hm, hat⟩ := savedLines_sentence hlt
  rw [← heq] at hat
  have hown : (savedLines t)[(splitSentencesAndTail t).1.length]? = some (pyStrip m) := by
    rcases hlong with hlong | hnil
    · rwa [List.getElem?_append_left hlong] at hat
    · rwa [hnil, List.append_nil] at hat
  exact strip_sentence_ne_tail hm (savedLines_tail t _ hown)

theorem length_savedLines (t : PyStr) : (savedLines t).length =
    (splitSentencesAndTail t).1.length +
      if (pyStrip (splitSentencesAndTail t).2).isEmpty then 0 else 1 := by
  rw [savedLines, List.length_append, List.length_map]
  split <;> rfl

/-- A normalized text stands for more lines than it has closed sentences. -/
theorem length_closedSents_lt {t : PyStr} (ht : normSpaces t = t)
    (hpos : 0 < (closedSents t).length) : (closedSents t).length < (savedLines t).length := by
  have hle := (closedSents_isPrefix t).length_le
  rw [length_savedLines]
  by_cases htail : (splitSentencesAndTail t).2 = []
  · have hclosed := length_closedSents_of_tail htail
    omega
  · rw [if_neg (by simpa using strip_tail_ne_nil ht htail)]
    omega

theorem saved_eq_iff {t snap : PyStr} (hsnap : normSpaces snap = snap) {n : Nat}
    (hcount : (splitSentencesAndTail t).1.length ≤ n)
    (hle : n = (splitSentencesAndTail t).1.length ∨ n ≤ (closedSents snap).length) :
    savedLines t ++ (((closedSents snap).take n).drop
        (splitSentencesAndTail t).1.length).map pyStrip = savedLines snap ↔
      savedLines t = savedLines snap := by
  by_cases heq : n = (splitSentencesAndTail t).1.length
  · rw [heq, List.drop_eq_nil_of_le (List.length_take_le _ _), List.map_nil, List.append_nil]
  · have hclosed : n ≤ (closedSents snap).length := hle.resolve_left heq
    have hsents := (closedSents_isPrefix snap).length_le
    have hlt : (splitSentencesAndTail t).1.length < (splitSentencesAndTail snap).1.length := by
      omega
    refine iff_of_false ?_ ?_
    · by_cases hlong : (splitSentencesAndTail t).1.length < (savedLines t).length
      · exact savedLines_ne hlt (.inl hlong)
      · -- Without a tail of its own the final text leaves too few lines.
        intro hsame
        have hlen := congrArg List.length hsame
        have hmore := length_closedSents_lt hsnap (by omega)
        have hown := length_savedLines t
        rw [List.length_append, List.length_map, List.length_drop, List.length_take] at hlen
        omega
    · have hne := savedLines_ne hlt (.inr rfl)
      rwa [List.append_nil] at hne

variable (cfg) in
/-- In every session whose snapshots only grow, the feed has, when the writer has
stopped, the lines of the last snapshot exactly when the text of the final item
stands for the same lines. -/
theorem feed_saved_iff (henable : cfg.txtEnable = true)
    (hflush : cfg.txtSaveFlushTailOnEnd = true) (stabilizer : TranscriptStabilizer)
    (es : List TxtEvent) (hgrow : AppendOnly cfg (init stabilizer) es)
    (hstopped : ((init stabilizer).run cfg es).stage = .stopped) :
    let s := (init stabilizer).run cfg es
    s.feed.map FeedLine.text = savedLines s.st.stableSnapshot ↔
      savedLines (finalOf cfg (init stabilizer) es) = savedLines s.st.stableSnapshot := by
  intro s
  rcases closed_run henable hflush es _ (open_init stabilizer) hgrow with h | h | h
  · rw [h.reading] at hstopped
    cases hstopped
  · exact absurd hstopped h.going.2
  · show feedTexts s.writes = _ ↔ _
    rw [h.feed]
    exact saved_eq_iff h.callbacks.normal h.count h.count_le

/-- A session whose last snapshot is there when it closes. -/
def inTime : List TxtEvent :=
  [.stable ⟨false, 1, 1⟩ "Hello. I am".toList, .put, .write 2, .close 3, .stop, .write 4, .write 5]

theorem feed_saved_iff_inTime :
    ((init (.new 2 18 120 true true)).run defaultTxt inTime).feed.map FeedLine.text =
      ["Hello.".toList, "I am".toList] := by
  have hgrow : AppendOnly defaultTxt (init (.new 2 18 120 true true)) inTime := by
    simp only [inTime, AppendOnly]
    decide +kernel
  have h := feed_saved_iff defaultTxt rfl rfl (.new 2 18 120 true true) inTime hgrow
    (by decide +kernel)
  have hlines := h.mpr (by decide +kernel)
  exact hlines.trans (by decide +kernel)

/-- A session whose recognizer is still at work when it closes. -/
def lateSnapshot : List TxtEvent :=
  [.stable ⟨false, 1, 1⟩ "Hello. I am".toList, .put, .write 2, .close 3,
    .stable ⟨false, 4, 4⟩ "Hello. I am here. Bye.".toList, .put, .write 5, .write 6, .stop, .write 7]

/-- The tail `I am` is written twice, the second time in its sentence, and the
last sentence is missing. -/
theorem feed_not_saved :
    AppendOnly defaultTxt (init (.new 2 18 120 true true)) lateSnapshot ∧
      ((init (.new 2 18 120 true true)).run defaultTxt lateSnapshot).stage = .stopped ∧
      ((init (.new 2 18 120 true true)).run defaultTxt lateSnapshot).feed.map FeedLine.text =
        ["Hello.".toList, "I am".toList, "I am here.".toList] ∧
      ((init (.new 2 18 120 true true)).run defaultTxt lateSnapshot).feed.map FeedLine.text ≠
        savedLines ((init (.new 2 18 120 true true)).run defaultTxt lateSnapshot).st.stableSnapshot := by
  refine ⟨?_, by decide +kernel, by decide +kernel, by decide +kernel⟩
  simp only [lateSnapshot, AppendOnly]
  decide +kernel

end Session

end TxtSession

end VTranser.Server

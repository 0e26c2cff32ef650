import VTranser.Server.TxtWriter

/-!
# When the latest file is current

The writer puts a text into the `latest` file when an interval has passed since it
did so before, and forgets a text that comes earlier. What the file has in the end
is the last text that was due, whatever came after it, the text of the `final` item
included.
-/

namespace VTranser.Server

namespace TxtWriter

variable (cfg : TxtConfig)

/-- The texts among the writes that go to the `latest` file. -/
def latestTexts (writes : List TxtWrite) : List PyStr :=
  writes.filterMap fun
    | .latest text => some text
    | _ => none

/-- `_txt_writer`: what it writes for the items on the queue, with the times at which
it takes them, until it stops. -/
def writeAll (w : TxtWriter) : List (Int × QueueItem) → List TxtWrite
  | [] => []
  | (_, .stop) :: _ => []
  | (now, item) :: items => (w.write cfg now item).2 ++ writeAll (w.write cfg now item).1 items

/-- The text of a snapshot or of the final item, as the file gets it. -/
def textOf : QueueItem → Option PyStr
  | .txt (.stable full _) | .final full _ =>
      if (normSpaces full).isEmpty then none else some (latestOut cfg (normSpaces full))
  | _ => none

/-- The texts that the items have, with their times, until the writer stops. -/
def texts : List (Int × QueueItem) → List (Int × PyStr)
  | [] => []
  | (_, .stop) :: _ => []
  | (now, item) :: items => ((textOf cfg item).toList.map fun text => (now, text)) ++ texts items

/-- The texts that come an interval or more after the one that was due before. -/
def due (interval last : Int) : List (Int × PyStr) → List (Int × PyStr)
  | [] => []
  | (now, text) :: rest =>
      if interval ≤ now - last then (now, text) :: due interval now rest else due interval last rest

variable {cfg}

@[simp] theorem latestTexts_append (ws ws' : List TxtWrite) :
    latestTexts (ws ++ ws') = latestTexts ws ++ latestTexts ws' :=
  List.filterMap_append

/-- The interval between two writes. -/
def interval (cfg : TxtConfig) : Int := max 0 cfg.txtSaveMinLatestIntervalMs

theorem latestTexts_feed (p : Prop) [Decidable p] (lines : List FeedLine) :
    latestTexts (if p then [.feed lines] else []) = [] := by
  split <;> rfl

theorem latestTexts_commit (p q : Prop) [Decidable p] [Decidable q] (lines : List FeedLine) :
    latestTexts (if p then (if q then [] else [.feed lines]) else []) = [] := by
  split
  · split <;> rfl
  · rfl

theorem lastLatestWriteMs_count (p : Prop) [Decidable p] (w : TxtWriter) (n : Nat) :
    (if p then { w with writtenSentCount := n } else w).lastLatestWriteMs =
      w.lastLatestWriteMs := by
  split <;> rfl

/-- One snapshot or final text: it is written when it is due. -/
theorem writeFull_latest (isFinal : Bool) (full : PyStr) (tMs now : Int) (w : TxtWriter)
    (hne : ¬ (normSpaces full).isEmpty) :
    let r := w.writeFull cfg isFinal full tMs now
    if interval cfg ≤ now - w.lastLatestWriteMs then
      r.1.lastLatestWriteMs = now ∧ latestTexts r.2 = [latestOut cfg (normSpaces full)]
    else r.1.lastLatestWriteMs = w.lastLatestWriteMs ∧ latestTexts r.2 = [] := by
  intro r
  have hr : r = w.writeFull cfg isFinal full tMs now := rfl
  rw [writeFull, if_neg hne] at hr
  split
  · next hdue =>
      rw [interval] at hdue
      simp only [if_pos hdue] at hr
      rw [hr]
      refine ⟨lastLatestWriteMs_count _ { w with lastLatestWriteMs := now } _, ?_⟩
      rw [latestTexts_append, latestTexts_append, latestTexts_feed, latestTexts_commit]
      rfl
  · next hdue =>
      rw [interval] at hdue
      simp only [if_neg hdue] at hr
      rw [hr]
      refine ⟨lastLatestWriteMs_count _ w _, ?_⟩
      rw [latestTexts_append, latestTexts_append, latestTexts_feed, latestTexts_commit]
      rfl

theorem writeDraft_latest (text : PyStr) (now : Int) (w : TxtWriter) :
    (w.writeDraft cfg text now).1.lastLatestWriteMs = w.lastLatestWriteMs ∧
      latestTexts (w.writeDraft cfg text now).2 = [] := by
  rw [writeDraft]
  split
  · simp only
    split <;> exact ⟨rfl, rfl⟩
  · exact ⟨rfl, rfl⟩

/-- One item: its text, if it has one, is written when it is due. -/
theorem write_latest (now : Int) (w : TxtWriter) (item : QueueItem) :
    let r := w.write cfg now item
    let texts := (textOf cfg item).toList.map fun text => (now, text)
    latestTexts r.2 = (due (interval cfg) w.lastLatestWriteMs texts).map Prod.snd ∧
      ∀ rest, due (interval cfg) w.lastLatestWriteMs (texts ++ rest) =
        due (interval cfg) w.lastLatestWriteMs texts ++
          due (interval cfg) r.1.lastLatestWriteMs rest := by
  -- The two kinds that have a text differ in nothing that matters here.
  have hfull : ∀ (isFinal : Bool) (full : PyStr) (tMs : Int),
      let r := w.writeFull cfg isFinal full tMs now
      let texts := (if (normSpaces full).isEmpty then none
        else some (latestOut cfg (normSpaces full))).toList.map fun text => (now, text)
      latestTexts r.2 = (due (interval cfg) w.lastLatestWriteMs texts).map Prod.snd ∧
        ∀ rest, due (interval cfg) w.lastLatestWriteMs (texts ++ rest) =
          due (interval cfg) w.lastLatestWriteMs texts ++
            due (interval cfg) r.1.lastLatestWriteMs rest := by
    intro isFinal full tMs r texts
    by_cases hempty : (normSpaces full).isEmpty
    · have htexts : texts = [] := by simp [texts, hempty]
      have hr : r = (w, []) := by
        rw [show r = w.writeFull cfg isFinal full tMs now from rfl, writeFull, if_pos hempty]
      rw [htexts, hr]
      exact ⟨rfl, fun _ => rfl⟩
    · have htexts : texts = [(now, latestOut cfg (normSpaces full))] := by simp [texts, hempty]
      have hspec := @writeFull_latest cfg isFinal full tMs now w hempty
      rw [htexts]
      simp only [due, List.cons_append, List.nil_append]
      split at hspec
      · next hdue =>
          rw [if_pos hdue]
          refine ⟨hspec.2, fun rest => ?_⟩
          rw [if_pos hdue, hspec.1]
          rfl
      · next hdue =>
          rw [if_neg hdue]
          refine ⟨hspec.2, fun rest => ?_⟩
          rw [if_neg hdue, hspec.1]
          rfl
  cases item with
  | txt item =>
      cases item with
      | stable full tMs => exact hfull false full _
      | draft text tMs =>
          obtain ⟨hlast, hnone⟩ := @writeDraft_latest cfg text now w
          refine ⟨hnone, fun rest => ?_⟩
          show due (interval cfg) w.lastLatestWriteMs rest =
            due (interval cfg) (w.writeDraft cfg text now).1.lastLatestWriteMs rest
          rw [hlast]
  | final full tMs => exact hfull true full _
  | stop => exact ⟨rfl, fun _ => rfl⟩

/-- What is written to the file are the texts that are due. -/
theorem writeAll_latest (w : TxtWriter) (items : List (Int × QueueItem)) :
    latestTexts (w.writeAll cfg items) =
      (due (interval cfg) w.lastLatestWriteMs (texts cfg items)).map Prod.snd := by
  induction items generalizing w with
  | nil => rfl
  | cons head items ih =>
      obtain ⟨now, item⟩ := head
      by_cases hstop : item = .stop
      · rw [hstop]
        rfl
      · have hall : w.writeAll cfg ((now, item) :: items) =
            (w.write cfg now item).2 ++ writeAll cfg (w.write cfg now item).1 items := by
          rw [writeAll]
          exact fun h => hstop h
        have htexts : texts cfg ((now, item) :: items) =
            ((textOf cfg item).toList.map fun text => (now, text)) ++ texts cfg items := by
          rw [texts]
          exact fun h => hstop h
        obtain ⟨hnow, hrest⟩ := @write_latest cfg now w item
        rw [hall, htexts, latestTexts_append, ih, hnow, hrest, List.map_append]

/-- The time of the text that was due last. -/
def lastTime (interval last : Int) (earlier : List (Int × PyStr)) : Int :=
  ((due interval last earlier).getLast?.map Prod.fst).getD last

/-- One more text is due by the time of the one that was due last. -/
theorem due_concat (interval last : Int) (earlier : List (Int × PyStr)) (now : Int)
    (text : PyStr) :
    due interval last (earlier ++ [(now, text)]) =
      due interval last earlier ++
        if interval ≤ now - lastTime interval last earlier then [(now, text)] else [] := by
  induction earlier generalizing last with
  | nil => rfl
  | cons head earlier ih =>
      obtain ⟨t, x⟩ := head
      simp only [List.cons_append, due, lastTime]
      split
      · rw [ih, lastTime, List.getLast?_cons, List.cons_append]
        cases (due interval t earlier).getLast? <;> rfl
      · exact ih last

end TxtWriter

open TxtWriter

/-- When the writer stops, the `latest` file has the last text it got exactly when that
text came an interval or more after the one that was due last, or is the same text. -/
theorem latest_current_iff (cfg : TxtConfig) {items : List (Int × QueueItem)}
    {earlier : List (Int × PyStr)} {now : Int} {text : PyStr}
    (h : texts cfg items = earlier ++ [(now, text)]) :
    (latestTexts (TxtWriter.init.writeAll cfg items)).getLast? = some text ↔
      interval cfg ≤ now - lastTime (interval cfg) 0 earlier ∨
        (due (interval cfg) 0 earlier).getLast?.map Prod.snd = some text := by
  rw [writeAll_latest, h]
  show ((due (interval cfg) 0 (earlier ++ [(now, text)])).map Prod.snd).getLast? = some text ↔ _
  rw [due_concat, List.getLast?_map]
  split
  · next hdue => exact iff_of_true (by rw [List.getLast?_concat]; rfl) (.inl hdue)
  · next hdue =>
      rw [List.append_nil, or_iff_right hdue]

/-- The final text comes two tenths of a second after the last snapshot. -/
theorem latest_current_later :
    let items : List (Int × QueueItem) := [(1700000000000, .txt (.stable "xin".toList 0)),
      (1700000000100, .txt (.draft "xin chào".toList 0)),
      (1700000000200, .final "xin chào".toList 0)]
    (latestTexts (TxtWriter.init.writeAll defaultTxt items)).getLast? =
      some "xin chào".toList := by
  intro items
  have htexts : texts defaultTxt items =
      [(1700000000000, "xin".toList)] ++ [(1700000000200, "xin chào".toList)] := by
    decide +kernel
  exact (latest_current_iff defaultTxt htexts).mpr (by decide +kernel)

/-- The final text comes a tenth of a second after the last snapshot. -/
theorem latest_outdated :
    ¬ ∀ (cfg : TxtConfig) (items : List (Int × QueueItem)),
      (items.map Prod.fst).Pairwise (· ≤ ·) →
        (latestTexts (TxtWriter.init.writeAll cfg items)).getLast? =
          (texts cfg items).getLast?.map Prod.snd := by
  intro h
  have hlast := h defaultTxt [(1700000000000, .txt (.stable "xin".toList 0)),
    (1700000000100, .final "xin chào".toList 0)] (by decide)
  revert hlast
  decide +kernel

end VTranser.Server

import VTranser.Lib.Run
import VTranser.Worker.Persist

/-!
# When the transcript is durable

`stop` lets the tasks that have not begun do nothing. So the row is there in the
end only if a task had begun before, and what is in it is the text of `stop`, or,
if that is blank, the text of the last task that had begun.

Until `stop` is called, the text the queue ends with is the last that was not
blank (`EndsWith`). From then on `Stage` says how far `stop` has come.
-/

namespace VTranser.TranscriptPersist

open Run

namespace Persist

/-- The texts that are still to be written. -/
def queue (p : Persist) : List Snapshot := (p.running.map Prod.fst).toList ++ p.chain

/-- The row and its chunk have the text. -/
def Written (p : Persist) (text : JsStr) : Prop :=
  ∃ id row, p.trSessionId = some id ∧ p.db.sessions = [row] ∧ row.id = id ∧
    row.latestTextEn = some text ∧ p.db.chunks.get? id = some text

/-- The row will have the text when all of the queue is written. -/
def EndsWith (p : Persist) (text : JsStr) : Prop :=
  match p.queue.getLast? with
  | some snap => snap.text = text
  | none => Written p text

/-- The row is there once its id is known. -/
def HasRow (p : Persist) : Prop :=
  match p.trSessionId with
  | some id => ∃ row, p.db.sessions = [row] ∧ row.id = id
  | none => p.db.sessions = []

/-- The request of a task comes in its turn. -/
def InTurn (p : Persist) (snap : Snapshot) : Wait → Prop
  | .selectUser | .insertUser | .insertSession _ => p.trSessionId = none
  | .insertChunk => p.trSessionId.isSome
  | .updateLatest => ∃ id, p.trSessionId = some id ∧ p.db.chunks.get? id = some snap.text

/-- The object before `stop` is called. -/
structure Running (p : Persist) : Prop where
  stopped : p.stopped = false
  resolvedAt : p.resolvedAt = none
  hash : ∀ h, p.lastSnapshotHash = some h → h.2 = p.fullLatest
  latest : isBlank p.fullLatest = false → p.lastNonBlank = p.fullLatest
  nonBlank : p.lastNonBlank ≠ [] → isBlank p.lastNonBlank = false
  ends : p.lastNonBlank ≠ [] → EndsWith p p.lastNonBlank

/-- The object after all tasks have ended. -/
structure Idle (p : Persist) : Prop where
  stopped : p.stopped = true
  running : p.running = none
  chain : p.chain = []

/-- The object while `stop` waits for the tasks. -/
structure Draining (p : Persist) (final : JsStr) : Prop where
  stopped : p.stopped = true
  resolvedAt : p.resolvedAt = none
  begun : p.trSessionId.isSome ∨ p.running.isSome
  ends : isBlank final = false ∧ final = p.expected ∨
    isBlank final = true ∧ p.chain = [] ∧ EndsWith p p.expected

/-- How far `stop` has come. -/
def Stage (p : Persist) : Prop :=
  match p.stopping with
  | none => Running p
  | some (final, .chain) => Draining p final
  | some (final, .insertChunk) =>
      Idle p ∧ p.resolvedAt = none ∧ p.trSessionId.isSome ∧ final = p.expected
  | some (final, .updateLatest) => Idle p ∧ p.resolvedAt = none ∧ final = p.expected ∧
      ∃ id, p.trSessionId = some id ∧ p.db.chunks.get? id = some p.expected
  | some (_, .status) => Idle p ∧ p.resolvedAt = none ∧ Written p p.expected
  | some (_, .resolved) => Idle p ∧ p.resolvedAt = some p.requests ∧ Written p p.expected ∧
      ∀ row ∈ p.db.sessions, row.status = .stopped

structure Sound (p : Persist) : Prop where
  row : HasRow p
  turn : ∀ snap w, p.running = some (snap, w) → InTurn p snap w
  texts : ∀ snap ∈ p.queue, isBlank snap.text = false
  stage : Stage p

end Persist

/-! ## What a run is given -/

/-- The user id can be found. -/
def Opts.Resolvable (opts : Opts) : Prop :=
  normalizeDbId opts.userId ≠ [] ∨ opts.userEmail ≠ []

/-- The answer has an id that the database could have given. -/
def Reply.HasId (r : Reply) : Prop := ∃ v, r = .id v ∧ v ≠ [] ∧ normalizeDbId v = v

/-- The request succeeds; the table of users need not have a row for the email. -/
def Reply.Success (r : Reply) : Wait → Prop
  | .selectUser => True
  | .insertUser | .insertSession _ => r.HasId
  | .insertChunk | .updateLatest => r = .ok

/-- Every request succeeds, and `stop` is called after a text that is not blank. -/
def Succeeds (p : Persist) : Label → Prop
  | .reply r => ∀ task ∈ p.running, r.Success task.2
  | .stopReply r => r = .ok
  | .stop _ => p.lastNonBlank ≠ []
  | .start => False
  | .handleStable .. | .begin => True

/-- When `stop` is called, a task has begun, and the text of `stop` is not blank;
if it is empty, the text that came last is not blank or all tasks have begun. -/
def StopsInTime (p : Persist) : Label → Prop
  | .stop finalText => (p.trSessionId ≠ none ∨ p.running ≠ none) ∧
      (isBlank finalText = false ∨
        finalText = [] ∧ (isBlank p.fullLatest = false ∨ p.chain = []))
  | _ => True

/-! ## Steps before `stop` -/

namespace Persist

variable {opts : Opts} {p : Persist}

theorem isBlank_nil : isBlank [] = true := rfl

theorem ne_nil_of_not_blank {s : JsStr} (h : isBlank s = false) : s ≠ [] := by
  rintro rfl
  rw [isBlank_nil] at h
  cases h

theorem EndsWith.append {text : JsStr} {snap : Snapshot} (hsnap : snap.text = text)
    {p' : Persist} (hqueue : p'.queue = p.queue ++ [snap]) : EndsWith p' text := by
  rw [EndsWith, hqueue, List.getLast?_append]
  exact hsnap

theorem queue_append (p : Persist) (snap : Snapshot) :
    queue { p with chain := p.chain ++ [snap] } = p.queue ++ [snap] :=
  (List.append_assoc ..).symm

theorem Running.handleStable (hr : Running p) (fullText : JsStr) (seq : Option Int) :
    Running (p.handleStable fullText seq) := by
  rw [Persist.handleStable]
  dsimp only
  rw [if_neg (by rw [hr.stopped]; exact Bool.false_ne_true)]
  by_cases hblank : isBlank fullText = true
  · rw [if_pos hblank, if_pos hblank]
    split
    · exact { hr with }
    · exact { hr with
        hash := fun h hh => by rw [← Option.some.inj hh]
        latest := fun h => by rw [hblank] at h; cases h }
  · rw [if_neg hblank, if_neg hblank]
    rw [Bool.not_eq_true] at hblank
    split
    · next hsame =>
        -- The text is the last one, which is queued or written.
        have htext : fullText = p.fullLatest := hr.hash _ hsame
        have hlast : p.lastNonBlank = fullText := by
          rw [htext]
          exact hr.latest (by rwa [← htext])
        rw [← hlast]
        exact { hr with }
    · exact { hr with
        hash := fun h hh => by rw [← Option.some.inj hh]
        latest := fun _ => rfl
        nonBlank := fun _ => hblank
        ends := fun _ => EndsWith.append rfl (queue_append p _) }

/-- A text only goes to the end of the queue. -/
theorem handleStable_frame (p : Persist) (fullText : JsStr) (seq : Option Int) :
    ∃ lastNonBlank fullLatest fullSeq lastSnapshotHash new,
      p.handleStable fullText seq = { p with
        lastNonBlank, fullLatest, fullSeq, lastSnapshotHash, chain := p.chain ++ new } ∧
      (∀ snap ∈ new, isBlank snap.text = false) ∧ (p.stopped = true → new = []) := by
  rw [Persist.handleStable]
  dsimp only
  split
  · exact ⟨_, _, _, _, [], by rw [List.append_nil], nofun, fun _ => rfl⟩
  · next hnot =>
      split
      · exact ⟨_, _, _, _, [], by rw [List.append_nil], nofun, fun _ => rfl⟩
      · by_cases hblank : isBlank fullText = true
        · rw [if_pos hblank, if_pos hblank]
          exact ⟨_, _, _, _, [], by rw [List.append_nil], nofun, fun _ => rfl⟩
        · rw [if_neg hblank, if_neg hblank]
          refine ⟨_, _, _, _, _, rfl, fun snap hsnap => ?_, fun h => absurd h hnot⟩
          rw [List.mem_singleton.mp hsnap]
          simpa using hblank

theorem Sound.handleStable (hs : Sound p) (fullText : JsStr) (seq : Option Int) :
    Sound (p.handleStable fullText seq) := by
  have hrunning : p.stopping = none → Running (p.handleStable fullText seq) := by
    intro hstop
    have hstage := hs.stage
    rw [Stage, hstop] at hstage
    exact hstage.handleStable fullText seq
  obtain ⟨last, latest, fullSeq, hash, new, heq, hnew, hnone⟩ := handleStable_frame p fullText seq
  rw [heq] at hrunning ⊢
  refine ⟨hs.row, hs.turn, ?_, ?_⟩
  · intro snap hsnap
    have hmem : snap ∈ p.queue ++ new := by
      rw [queue, List.append_assoc]
      exact hsnap
    rcases List.mem_append.mp hmem with hmem | hmem
    · exact hs.texts snap hmem
    · exact hnew snap hmem
  · have hstage := hs.stage
    unfold Stage at hstage ⊢
    dsimp only
    split
    · next hstop => exact hrunning hstop
    · next final hstop =>
        rw [hstop] at hstage
        have hd : Draining p final := hstage
        rw [hnone hd.stopped, List.append_nil]
        exact { hd with }
    all_goals
      next hstop =>
        rw [hstop] at hstage
        have hidle : Idle p := hstage.1
        rw [hnone hidle.stopped, List.append_nil]
        exact ⟨{ hidle with }, hstage.2⟩

theorem Sound.stop (hs : Sound p) (hstop : p.stopping = none) {finalText : JsStr}
    (hgiven : p.lastNonBlank ≠ []) (hin : StopsInTime p (.stop finalText)) :
    Sound (p.stop finalText) := by
  obtain ⟨hbegun, hfinal⟩ := hin
  have hr : Running p := by
    have hstage := hs.stage
    rwa [Stage, hstop] at hstage
  refine ⟨hs.row, hs.turn, hs.texts, ?_⟩
  show Draining _ _
  refine ⟨rfl, hr.resolvedAt, ?_, ?_⟩
  · rcases hbegun with h | h
    · exact .inl (Option.isSome_iff_ne_none.mpr h)
    · exact .inr (Option.isSome_iff_ne_none.mpr h)
  · show isBlank (orText finalText p.fullLatest) = false ∧
        orText finalText p.fullLatest = orText finalText p.lastNonBlank ∨ _
    rcases hfinal with hfull | ⟨rfl, hlatest | hchain⟩
    · have hne := ne_nil_of_not_blank hfull
      rw [orText, orText, if_neg (by simpa using hne), if_neg (by simpa using hne)]
      exact .inl ⟨hfull, rfl⟩
    · exact .inl ⟨hlatest, (hr.latest hlatest).symm⟩
    · by_cases hblank : isBlank p.fullLatest = true
      · exact .inr ⟨hblank, hchain, hr.ends hgiven⟩
      · rw [Bool.not_eq_true] at hblank
        exact .inl ⟨hblank, (hr.latest hblank).symm⟩

/-! ## The steps of a task -/

/-- `stop` has not gone past the tasks. -/
def TasksGoOn (p : Persist) : Prop :=
  p.stopping = none ∨ ∃ final, p.stopping = some (final, .chain)

theorem Sound.goOn (hs : Sound p) (hqueue : p.queue ≠ []) : TasksGoOn p := by
  have hstage := hs.stage
  have hidle : ¬ Idle p := by
    intro hi
    rw [queue, hi.running, hi.chain] at hqueue
    exact hqueue rfl
  unfold Stage at hstage
  split at hstage
  · next hstop => exact .inl hstop
  · next final hstop => exact .inr ⟨final, hstop⟩
  all_goals exact absurd hstage.1 hidle

theorem EndsWith.same {p' : Persist} {text : JsStr} (he : EndsWith p text)
    (hqueue : p'.queue = p.queue) (hne : p.queue ≠ []) : EndsWith p' text := by
  rw [EndsWith] at he ⊢
  rw [hqueue]
  cases hlast : p.queue.getLast? with
  | none => exact absurd (List.getLast?_eq_none_iff.mp hlast) hne
  | some snap =>
      rw [hlast] at he
      exact he

/-- A task that makes its next request leaves the stage as it is. -/
theorem Sound.requested (hs : Sound p) {snap : Snapshot} {w : Wait} {p' : Persist}
    (hne : p.queue ≠ []) (hqueue : p'.queue = p.queue) (hrunning : p'.running = some (snap, w))
    (hchain : p'.chain = p.chain ∨ p.stopping = none)
    (hframe : p' = { p with
      running := p'.running, chain := p'.chain, trSessionId := p'.trSessionId, db := p'.db,
      requests := p'.requests })
    (hrow : HasRow p')
    (hturn : InTurn p' snap w) : Sound p' := by
  refine ⟨hrow, ?_, ?_, ?_⟩
  · intro snap' w' h
    rw [hrunning] at h
    injection h with h
    injection h with hsnap hw
    rwa [← hsnap, ← hw]
  · rw [hqueue]
    exact hs.texts
  · have hstage := hs.stage
    unfold Stage at hstage ⊢
    rcases hs.goOn hne with hstop | ⟨final, hstop⟩
    · rw [hstop] at hstage
      have hstop' : p'.stopping = none := by rw [hframe]; exact hstop
      rw [hstop']
      have hr : Running p := hstage
      exact {
        stopped := by rw [hframe]; exact hr.stopped
        resolvedAt := by rw [hframe]; exact hr.resolvedAt
        hash := by rw [hframe]; exact hr.hash
        latest := by rw [hframe]; exact hr.latest
        nonBlank := by rw [hframe]; exact hr.nonBlank
        ends := fun h => by
          have hlast : p'.lastNonBlank = p.lastNonBlank := by rw [hframe]
          rw [hlast] at h ⊢
          exact (hr.ends h).same hqueue hne }
    · rw [hstop] at hstage
      have hstop' : p'.stopping = some (final, .chain) := by rw [hframe]; exact hstop
      rw [hstop']
      have hd : Draining p final := hstage
      have hexp : p'.expected = p.expected := by rw [hframe]
      refine ⟨by rw [hframe]; exact hd.stopped, by rw [hframe]; exact hd.resolvedAt,
        .inr (by rw [hrunning]; rfl), ?_⟩
      rw [hexp]
      rcases hd.ends with hfull | ⟨hblank, hnil, hends⟩
      · exact .inl hfull
      · have hchain' : p'.chain = [] := by
          rcases hchain with h | h
          · rw [h, hnil]
          · rw [hstop] at h
            cases h
        exact .inr ⟨hblank, hchain', hends.same hqueue hne⟩

theorem Sound.begin (hopts : opts.Resolvable) (hs : Sound p) {snap : Snapshot}
    {chain : List Snapshot} (hrun : p.running = none) (hchain : p.chain = snap :: chain) :
    Sound ({ p with chain }.beginTask opts snap) := by
  have hne : p.queue ≠ [] := by
    rw [queue, hrun, hchain]
    exact List.cons_ne_nil _ _
  rw [beginTask]
  split
  · -- The task finds the object stopped.
    next hstopped =>
      refine ⟨hs.row, nofun, fun s hsnap => ?_, ?_⟩
      · refine hs.texts s ?_
        rw [queue, hrun, hchain]
        exact List.mem_cons_of_mem _ hsnap
      · have hstage := hs.stage
        unfold Stage at hstage
        rcases hs.goOn hne with hstop | ⟨final, hstop⟩
        · rw [hstop] at hstage
          have hr : Running p := hstage
          have hnot : p.stopped = true := hstopped
          rw [hr.stopped] at hnot
          cases hnot
        · rw [hstop] at hstage
          have hd : Draining p final := hstage
          show Stage { p with chain, running := none }
          rw [Stage]
          dsimp only
          rw [hstop]
          refine ⟨hd.stopped, hd.resolvedAt, ?_, ?_⟩
          · have hbegun := hd.begun
            rwa [hrun] at hbegun
          · rcases hd.ends with hfull | ⟨-, hnil, -⟩
            · exact .inl hfull
            · rw [hchain] at hnil
              cases hnil
  · next hstopped =>
      have hstop : p.stopping = none := by
        rcases hs.goOn hne with hstop | ⟨final, hstop⟩
        · exact hstop
        · have hstage := hs.stage
          rw [Stage, hstop] at hstage
          exact absurd hstage.stopped hstopped
      have hreq : ∀ w, InTurn p snap w → Sound ({ p with chain }.request snap w) := by
        intro w hturn
        refine hs.requested hne ?_ rfl (.inr hstop) rfl hs.row ?_
        · rw [queue, queue, hrun, hchain]
          rfl
        · cases w <;> exact hturn
      split
      · next hsome => exact hreq _ hsome
      · next hnone =>
          have hnone : p.trSessionId = none := by simpa using hnone
          split
          · exact hreq _ hnone
          · next hid =>
              split
              · exact hreq _ hnone
              · next hemail =>
                  rcases hopts with h | h
                  · exact absurd (by simpa using hid) h
                  · exact absurd (by simpa using hemail) h

theorem HasRow.row {id : JsStr} (h : HasRow p) (hid : p.trSessionId = some id) :
    ∃ row, p.db.sessions = [row] ∧ row.id = id := by
  rwa [HasRow, hid] at h

theorem HasRow.of_row {id : JsStr} (hid : p.trSessionId = some id)
    (h : ∃ row, p.db.sessions = [row] ∧ row.id = id) : HasRow p := by
  rwa [HasRow, hid]

theorem reply_insertChunk {id : JsStr} (hid : p.trSessionId = some id) (snap : Snapshot) :
    Persist.reply snap .ok p .insertChunk =
      { p with db := p.db.insertChunk id snap.text }.request snap .updateLatest := by
  rw [Persist.reply]
  split
  · next id' hid' =>
      rw [hid] at hid'
      cases hid'
      rfl
  · next hnone =>
      rw [hid] at hnone
      cases hnone

theorem reply_updateLatest {id : JsStr} (hid : p.trSessionId = some id) (snap : Snapshot) :
    Persist.reply snap .ok p .updateLatest =
      { p.finish with db := p.db.updateLatest id snap.text snap.seq } := by
  rw [Persist.reply]
  split
  · next id' hid' =>
      rw [hid] at hid'
      cases hid'
      rfl
  · next hnone =>
      rw [hid] at hnone
      cases hnone

theorem sessions_patch {row : SessionRow} {db : Tables} (hdb : db.sessions = [row])
    (f : SessionRow → SessionRow) : (db.patch f row.id).sessions = [f row] := by
  rw [Tables.patch, hdb, List.map_singleton, if_pos rfl]

theorem Sound.reply (hs : Sound p) {snap : Snapshot} {w : Wait} {r : Reply}
    (hrun : p.running = some (snap, w)) (hok : Succeeds p (.reply r)) :
    Sound (Persist.reply snap r p w) := by
  have hturn := hs.turn snap w hrun
  have hqueue : ∀ w', (p.request snap w').queue = p.queue := by
    intro w'
    rw [queue, queue, hrun]
    rfl
  have hne : p.queue ≠ [] := by
    rw [queue, hrun]
    exact List.cons_ne_nil _ _
  have hok : r.Success w := hok (snap, w) hrun
  cases w with
  | selectUser =>
      rw [Persist.reply]
      split <;>
        exact hs.requested hne (hqueue _) rfl (.inl rfl) rfl hs.row hturn
  | insertUser =>
      obtain ⟨v, rfl, hv, hnorm⟩ := hok
      rw [Persist.reply, Reply.userId, hnorm, if_neg (by simpa using hv)]
      exact hs.requested hne (hqueue _) rfl (.inl rfl) rfl hs.row hturn
  | insertSession userId =>
      obtain ⟨v, rfl, hv, hnorm⟩ := hok
      have hnone : p.trSessionId = none := hturn
      have hempty : p.db.sessions = [] := by
        have hrow := hs.row
        rwa [HasRow, hnone] at hrow
      rw [Persist.reply, hnorm, if_neg (by simpa using hv)]
      refine hs.requested hne (hqueue _) rfl (.inl rfl) rfl ?_ rfl
      refine ⟨⟨v, userId, none, none, .running⟩, ?_, rfl⟩
      show p.db.sessions ++ _ = _
      rw [hempty]
      rfl
  | insertChunk =>
      obtain ⟨id, hid⟩ := Option.isSome_iff_exists.mp hturn
      have hok : r = .ok := hok
      subst hok
      rw [reply_insertChunk hid]
      exact hs.requested hne (hqueue _) rfl (.inl rfl) rfl (.of_row hid (hs.row.row hid))
        ⟨id, hid, ObjMap.get?_set_self ..⟩
  | updateLatest =>
      have hok : r = .ok := hok
      subst hok
      obtain ⟨id, hid, hchunk⟩ := hturn
      obtain ⟨row, hdb, rfl⟩ := hs.row.row hid
      have hdb' : (p.db.updateLatest row.id snap.text snap.seq).sessions = [{ row with
          latestTextEn := some snap.text, lastSeq := some (snap.seq.getD 0) }] :=
        sessions_patch hdb _
      have hq : p.queue = snap :: p.chain := by
        rw [queue, hrun]
        rfl
      rw [reply_updateLatest hid]
      -- What is written now is the end of the queue if no task is left.
      have hends : ∀ {text : JsStr}, EndsWith p text → EndsWith { p.finish with
          db := p.db.updateLatest row.id snap.text snap.seq } text := by
        intro text he
        rw [EndsWith, hq] at he
        show match p.chain.getLast? with | some s => s.text = text | none => Written _ text
        cases hlast : p.chain.getLast? with
        | none =>
            rw [List.getLast?_eq_none_iff.mp hlast] at he
            have htext : snap.text = text := he
            rw [← htext]
            exact ⟨row.id, _, hid, hdb', rfl, rfl, hchunk⟩
        | some s =>
            rw [List.getLast?_cons, hlast] at he
            exact he
      refine ⟨.of_row hid ⟨_, hdb', rfl⟩, nofun, fun s hmem => ?_, ?_⟩
      · refine hs.texts s ?_
        rw [hq]
        exact List.mem_cons_of_mem _ hmem
      · have hstage := hs.stage
        unfold Stage at hstage ⊢
        dsimp only [finish]
        rcases hs.goOn hne with hstop | ⟨final, hstop⟩
        · rw [hstop] at hstage ⊢
          have hr : Running p := hstage
          exact { hr with ends := fun h => hends (hr.ends h) }
        · rw [hstop] at hstage ⊢
          have hd : Draining p final := hstage
          refine ⟨hd.stopped, hd.resolvedAt, .inl (by rw [hid]; rfl), ?_⟩
          rcases hd.ends with hfull | ⟨hblank, hnil, he⟩
          · exact .inl hfull
          · exact .inr ⟨hblank, hnil, hends he⟩

/-! ## The steps of `stop` -/

/-- Nothing is left to write but by `stop`. -/
theorem Sound.of_idle (hrow : HasRow p) (hidle : Idle p) (hstage : Stage p) : Sound p where
  row := hrow
  turn snap w h := by
    rw [hidle.running] at h
    cases h
  texts snap h := by
    rw [queue, hidle.running, hidle.chain] at h
    cases h
  stage := hstage

theorem stopReply_eq {id : JsStr} (hid : p.trSessionId = some id) (final : JsStr) (r : Reply)
    (w : StopWait) : stopReply final r p w =
      match w with
      | .chain =>
          if isBlank final then p.stopRequest final .status else p.stopRequest final .insertChunk
      | .insertChunk =>
          { p with db := if r = Reply.failed then p.db else p.db.insertChunk id final }.stopRequest
            final .updateLatest
      | .updateLatest =>
          { p with
            db := if r = Reply.failed then p.db else
              p.db.updateLatest id final p.fullSeq }.stopRequest final .status
      | .status =>
          { p with db := if r = Reply.failed then p.db else p.db.markStopped id }.resolve final
      | .resolved => p := by
  rw [stopReply]
  split
  · next hnone =>
      rw [hid] at hnone
      cases hnone
  · next id' hid' =>
      rw [hid] at hid'
      cases hid'
      rfl

theorem Sound.stopReply (hs : Sound p) {final : JsStr} {w : StopWait}
    (hstop : p.stopping = some (final, w)) (hw : w ≠ .resolved)
    (hdone : w = .chain → p.running = none ∧ p.chain = []) :
    Sound (Persist.stopReply final .ok p w) := by
  have hstage := hs.stage
  rw [Stage, hstop] at hstage
  cases w with
  | chain =>
      have hd : Draining p final := hstage
      obtain ⟨hrun, hchain⟩ := hdone rfl
      have hidle : Idle p := ⟨hd.stopped, hrun, hchain⟩
      obtain ⟨id, hid⟩ : ∃ id, p.trSessionId = some id := by
        rcases hd.begun with h | h
        · exact Option.isSome_iff_exists.mp h
        · rw [hrun] at h
          cases h
      rw [stopReply_eq hid]
      dsimp only
      rcases hd.ends with ⟨hfull, hexp⟩ | ⟨hblank, -, hends⟩
      · rw [if_neg (by rw [hfull]; exact Bool.false_ne_true)]
        exact .of_idle (.of_row hid (hs.row.row hid)) { hidle with }
          ⟨{ hidle with }, hd.resolvedAt, Option.isSome_iff_exists.mpr ⟨id, hid⟩, hexp⟩
      · rw [if_pos hblank]
        rw [EndsWith, queue, hrun, hchain] at hends
        exact .of_idle (.of_row hid (hs.row.row hid)) { hidle with }
          ⟨{ hidle with }, hd.resolvedAt, hends⟩
  | insertChunk =>
      obtain ⟨hidle, hres, hsome, hexp⟩ := hstage
      obtain ⟨id, hid⟩ := Option.isSome_iff_exists.mp hsome
      rw [stopReply_eq hid]
      refine .of_idle (.of_row hid (hs.row.row hid)) { hidle with }
        ⟨{ hidle with }, hres, hexp, id, hid, ?_⟩
      rw [← hexp]
      exact ObjMap.get?_set_self ..
  | updateLatest =>
      obtain ⟨hidle, hres, hexp, id, hid, hchunk⟩ := hstage
      obtain ⟨row, hdb, rfl⟩ := hs.row.row hid
      have hdb' : (p.db.updateLatest row.id final p.fullSeq).sessions = [{ row with
          latestTextEn := some final, lastSeq := some (p.fullSeq.getD 0) }] :=
        sessions_patch hdb _
      rw [stopReply_eq hid]
      refine .of_idle (.of_row hid ⟨_, hdb', rfl⟩) { hidle with }
        ⟨{ hidle with }, hres, row.id, _, hid, hdb', rfl, ?_, hchunk⟩
      exact congrArg some hexp
  | status =>
      obtain ⟨hidle, hres, id, row, hid, hdb, rfl, hlatest, hchunk⟩ := hstage
      have hdb' : (p.db.markStopped row.id).sessions = [{ row with status := .stopped }] :=
        sessions_patch hdb _
      rw [stopReply_eq hid]
      refine .of_idle (.of_row hid ⟨_, hdb', rfl⟩) { hidle with }
        ⟨{ hidle with }, rfl, ⟨row.id, _, hid, hdb', rfl, hlatest, hchunk⟩, fun row' hrow => ?_⟩
      have hmem : row' ∈ (p.db.markStopped row.id).sessions := hrow
      rw [hdb', List.mem_singleton] at hmem
      rw [hmem]
  | resolved => exact absurd rfl hw

/-! ## Runs -/

theorem Sound.init : Sound init where
  row := rfl
  turn := nofun
  texts := nofun
  stage := ⟨rfl, rfl, nofun, fun h => absurd h (by decide), fun h => absurd rfl h,
    fun h => absurd rfl h⟩

theorem Sound.step (hopts : opts.Resolvable) (hs : Sound p) {p' : Persist} {l : Label}
    (hok : Succeeds p l) (hin : StopsInTime p l) (hstep : p.step opts l = some p') :
    Sound p' := by
  cases l with
  | start => exact hok.elim
  | handleStable fullText seq =>
      injection hstep with hstep
      rw [← hstep]
      exact hs.handleStable fullText seq
  | stop finalText =>
      simp only [Persist.step] at hstep
      split at hstep
      · next hstop =>
          injection hstep with hstep
          rw [← hstep]
          exact hs.stop (by simpa using hstop) hok hin
      · cases hstep
  | begin =>
      simp only [Persist.step] at hstep
      split at hstep
      · next hrun hchain =>
          injection hstep with hstep
          rw [← hstep]
          exact hs.begin hopts hrun hchain
      · cases hstep
  | reply r =>
      rw [Persist.step, Option.map_eq_some_iff] at hstep
      obtain ⟨⟨snap, w⟩, hrun, rfl⟩ := hstep
      exact hs.reply hrun hok
  | stopReply r =>
      simp only [Persist.step] at hstep
      split at hstep
      · cases hstep
      · cases hstep
      · next final w hnot hstop =>
          split at hstep
          · cases hstep
          · next hdone =>
              injection hstep with hstep
              have hr : r = .ok := hok
              rw [← hstep, hr]
              refine hs.stopReply hstop hnot fun hw => ?_
              by_contra hrest
              exact hdone ⟨hw, hrest⟩

end Persist

/-- When `stop` has resolved, there is one row, it has the text and is marked,
and no request is made any more. -/
def Durable (opts : Opts) (ls : List Label) : Prop :=
  ∀ p ∈ run (Persist.step opts) .init ls, ∀ n ∈ p.resolvedAt, p.requests = n ∧
    ∃ row, p.db.sessions = [row] ∧ row.latestTextEn = some p.expected ∧
      p.db.chunks.get? row.id = some p.expected ∧ row.status = .stopped

/-- The transcript is durable in every run in which `stop` is called when a task
has begun and no text depends on one that has not. -/
theorem transcript_durable (opts : Opts) (hopts : opts.Resolvable) (ls : List Label)
    (hok : Guarded (Persist.step opts) Succeeds .init ls)
    (hin : Guarded (Persist.step opts) StopsInTime .init ls) : Durable opts ls := by
  intro p hrun n hn
  have hstep : ∀ p l p', Persist.Sound p → Succeeds p l ∧ StopsInTime p l →
      p.step opts l = some p' → Persist.Sound p' :=
    fun p l p' hs hcond h => hs.step hopts hcond.1 hcond.2 h
  have hs := run_guarded hstep Persist.Sound.init (hok.and hin) hrun
  have hstage := hs.stage
  unfold Persist.Stage at hstage
  split at hstage
  · rw [hstage.resolvedAt] at hn
    cases hn
  · rw [hstage.resolvedAt] at hn
    cases hn
  · rw [hstage.2.1] at hn
    cases hn
  · rw [hstage.2.1] at hn
    cases hn
  · rw [hstage.2.1] at hn
    cases hn
  · obtain ⟨-, hres, ⟨id, row, -, hdb, hrow, hlatest, hchunk⟩, hstatus⟩ := hstage
    rw [hres] at hn
    refine ⟨Option.some.inj hn, row, hdb, hlatest, ?_, hstatus row ?_⟩
    · rw [hrow]
      exact hchunk
    · rw [hdb]
      exact List.mem_singleton_self row

instance : (r : Reply) → Decidable r.HasId
  | .id v => decidable_of_iff (v ≠ [] ∧ normalizeDbId v = v)
      ⟨fun h => ⟨v, rfl, h⟩, fun ⟨_, h, hv⟩ => by injection h with h; rwa [h]⟩
  | .ok | .failed => isFalse nofun

instance (r : Reply) : (w : Wait) → Decidable (r.Success w)
  | .selectUser => isTrue trivial
  | .insertUser | .insertSession _ => inferInstanceAs (Decidable r.HasId)
  | .insertChunk | .updateLatest => inferInstanceAs (Decidable (r = .ok))

instance (p : Persist) : (l : Label) → Decidable (Succeeds p l)
  | .reply r => inferInstanceAs (Decidable (∀ task ∈ p.running, r.Success task.2))
  | .stopReply r => inferInstanceAs (Decidable (r = .ok))
  | .stop _ => inferInstanceAs (Decidable (p.lastNonBlank ≠ []))
  | .start => inferInstanceAs (Decidable False)
  | .handleStable .. | .begin => inferInstanceAs (Decidable True)

instance (p : Persist) : (l : Label) → Decidable (StopsInTime p l)
  | .stop finalText => inferInstanceAs (Decidable ((p.trSessionId ≠ none ∨ p.running ≠ none) ∧
      (isBlank finalText = false ∨
        finalText = [] ∧ (isBlank p.fullLatest = false ∨ p.chain = []))))
  | .start | .handleStable .. | .begin | .reply _ | .stopReply _ => isTrue trivial

/-- The user with id 7. -/
def seven : Opts := ⟨jsText "7", []⟩

theorem transcript_durable_seven : Durable seven
    [.handleStable (jsText "Hi.") (some 1), .begin, .reply (.id (jsText "5")),
      .handleStable (jsText "Hi. Yo.") (some 2), .stop (jsText "Hi. Yo. No."), .reply .ok, .reply .ok,
      .begin, .stopReply .ok, .stopReply .ok, .stopReply .ok, .stopReply .ok] :=
  transcript_durable seven (.inl (by decide)) _ (by decide) (by decide)

/-- `stop` comes before the first task has begun: the task does nothing, and no
row is ever made. -/
theorem transcript_lost :
    let ls : List Label := [.handleStable (jsText "Hi.") (some 1), .stop (jsText "Hi."), .begin,
      .stopReply .ok]
    seven.Resolvable ∧ Guarded (Persist.step seven) Succeeds .init ls ∧ ¬ Durable seven ls := by
  refine ⟨.inl (by decide), by decide, fun h => ?_⟩
  obtain ⟨-, row, hdb, -⟩ := h _ rfl 0 rfl
  cases hdb

end VTranser.TranscriptPersist

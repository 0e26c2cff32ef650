import VTranser.Proofs.Overlap

/-!
# When a teardown keeps to its session

As long as no start overtakes an older `stopAll` (`NotOvertaken`), what the
call still looks at is its own session's, and so it spares what a later start
has installed (`Spares`). A start that does overtake one has installed
something that the call still comes to (`Exposed`), and the call can go on
until it is lost.
-/

namespace VTranser.Offscreen

open Run Tasks

namespace State

variable {st st' : State} {began : Nat} {wait : StopWait}

/-! ## What a newer session is spared -/

/-- Nothing of a start after the `began`-th is stopped, closed, forgotten or reset. -/
structure Spares (began : Nat) (st st' : State) : Prop where
  streams : ∀ k ∈ st.streams, began < k → k ∈ st'.streams
  contexts : ∀ k ∈ st.contexts, began < k → k ∈ st'.contexts
  audioCtx : ∀ k ∈ st.audioCtx, began < k → st'.audioCtx = some k
  wsOpen : began < st.openedBy →
    st'.wsOpen = st.wsOpen ∧ st'.wsReadyToStream = st.wsReadyToStream
  counters : began < st.countedBy → st'.counters = st.counters

/-- Whatever `stopAll` goes on, it spares what is of a later start. -/
def StopsSpare (st : State) : Prop :=
  ∀ i r b reason w next, st.tasks[i]? = some (.stop b reason w next) →
    ∀ st' ∈ st.step (.resume i r), Spares b st st'

theorem streams_goOnAfter (next : Next) : (st.goOnAfter next).1.streams = st.streams := by
  cases next with
  | done | wsFail => rfl
  | start n p =>
      simp only [goOnAfter, getMedia]
      split
      · rfl
      · split <;> rfl

theorem contexts_goOnAfter (next : Next) : (st.goOnAfter next).1.contexts = st.contexts := by
  cases next with
  | done | wsFail => rfl
  | start n p =>
      simp only [goOnAfter, getMedia]
      split
      · rfl
      · split <;> rfl

theorem audioCtx_goOnAfter (next : Next) : (st.goOnAfter next).1.audioCtx = st.audioCtx := by
  cases next with
  | done | wsFail => rfl
  | start n p =>
      simp only [goOnAfter, getMedia]
      split
      · rfl
      · split <;> rfl

/-- A stream that a filter takes away is the one in the global. -/
theorem mem_filter_of_past {o : Option Nat} (ho : ∀ k ∈ o, k ≤ began) {ks : List Nat} {k : Nat}
    (hk : k ∈ ks) (hlt : began < k) : k ∈ ks.filter fun k => some k ≠ o := by
  refine List.mem_filter.mpr ⟨hk, ?_⟩
  have hne : some k ≠ o := fun heq => absurd (ho k heq.symm) (Nat.not_le_of_lt hlt)
  simpa using hne

namespace Past

/-- A step that keeps the streams and contexts that are newer. -/
theorem spares (h : Past began wait st) (hstreams : ∀ k ∈ st.streams, began < k → k ∈ st'.streams)
    (hcontexts : ∀ k ∈ st.contexts, began < k → k ∈ st'.contexts) : Spares began st st' where
  streams := hstreams
  contexts := hcontexts
  audioCtx k hk hlt := absurd (h.audioCtx k hk) (Nat.not_le_of_lt hlt)
  wsOpen hlt := absurd h.openedBy (Nat.not_le_of_lt hlt)
  counters hlt := absurd h.countedBy (Nat.not_le_of_lt hlt)

theorem spares_clear (h : Past began wait st) (hwait : wait ≠ .ctx) {st₁ : State}
    (hrecorder : st₁.recorder = st.recorder) (hstreams : st₁.streams = st.streams)
    (hcontexts : st₁.contexts = st.contexts) : Spares began st st₁.clearVideoRecorderState := by
  refine h.spares (fun k hk hlt => ?_) fun k hk _ => hcontexts ▸ hk
  show k ∈ st₁.streams.filter fun k => some k ≠ st₁.recorder
  rw [hrecorder, hstreams]
  exact mem_filter_of_past (h.recorder hwait) hk hlt

theorem spares_finalize (h : Past began wait st) (hwait : wait ≠ .ctx) {st₁ : State}
    (hrecorder : st₁.recorder = st.recorder) (hstreams : st₁.streams = st.streams)
    (hcontexts : st₁.contexts = st.contexts) (r : Reply) : Spares began st (st₁.finalize r).1 := by
  rw [State.finalize]
  split
  · exact h.spares (fun k hk _ => hstreams ▸ hk) fun k hk _ => hcontexts ▸ hk
  · exact h.spares_clear hwait hrecorder hstreams hcontexts

theorem spares_resumeStop (h : Past began wait st) (reason : Reason) (next : Next) (r : Reply) :
    Spares began st (st.resumeStop began reason next r wait).1 := by
  have hkept : ∀ {st₁ : State}, st₁.streams = st.streams → st₁.contexts = st.contexts →
      Spares began st st₁ := fun hstreams hcontexts =>
    h.spares (fun k hk _ => hstreams ▸ hk) fun k hk _ => hcontexts ▸ hk
  cases wait with
  | ws =>
      simp only [resumeStop, State.stopVideoRecorder]
      split
      · exact hkept rfl rfl
      · split
        · exact hkept rfl rfl
        · refine h.spares_finalize StopWait.noConfusion ?_ ?_ ?_ r
          exacts [rfl, rfl, rfl]
  | recorder => exact h.spares_finalize StopWait.noConfusion rfl rfl rfl r
  | persist => exact h.spares_clear StopWait.noConfusion rfl rfl rfl
  | video =>
      have hmedia : ∀ k ∈ st.streams, began < k →
          k ∈ st.streams.filter fun k => some k ≠ st.mediaStream := fun k hk hlt =>
        mem_filter_of_past (h.mediaStream StopWait.noConfusion) hk hlt
      simp only [resumeStop, stopMedia]
      split
      · next c hc =>
          refine h.spares hmedia fun k hk hlt => List.mem_filter.mpr ⟨hk, ?_⟩
          have hle : c ≤ began := h.audioCtx c hc
          have hne : k ≠ c := by omega
          simpa using hne
      · refine h.spares ?_ ?_
        · rw [streams_goOnAfter]
          exact hmedia
        · rw [contexts_goOnAfter]
          exact fun k hk _ => hk
  | ctx => exact hkept (streams_goOnAfter next) (contexts_goOnAfter next)

end Past

theorem InOrder.stopsSpare (h : InOrder st) : StopsSpare st := by
  intro i r b reason w next hi st' hstep
  obtain ⟨task, st₁, after, hi', hres, rfl⟩ := step_resume hstep
  rw [hi] at hi'
  cases hi'
  injection hres with hres
  have hpast : Past b w st := h.keeps _ (List.mem_of_getElem? hi)
  have hspares := hpast.spares_resumeStop reason next r
  rw [hres] at hspares
  exact { hspares with }

/-! ## What a newer session can lose -/

/-- A `stopAll` that waits here still comes to the media stream or the audio
context of the `n`-th start. -/
def Exposed (n : Nat) (wait : StopWait) (st : State) : Prop :=
  (wait ≠ .ctx ∧ st.mediaStream = some n ∧ n ∈ st.streams) ∨
    (st.audioCtx = some n ∧ n ∈ st.contexts)

/-- How many times a `stopAll` still goes on when its recorder fails. -/
def StopWait.rank : StopWait → Nat
  | .ctx => 0
  | .video => 1
  | .recorder | .persist => 2
  | .ws => 3

theorem step_stop {i : Nat} {reason : Reason} {w : StopWait} {next : Next}
    (hi : st.tasks[i]? = some (.stop began reason w next)) (r : Reply) :
    st.step (.resume i r) = some { (st.resumeStop began reason next r w).1 with
      tasks := goOn (st.resumeStop began reason next r w).1.tasks i
        (st.resumeStop began reason next r w).2 } := by
  simp only [step, hi, State.resume]
  rfl

variable {n : Nat}

/-- The stream is still there, or it has just been stopped. -/
theorem Exposed.keeps {w : StopWait} (h : Exposed n wait st) (hlt : began < n) (hw : w ≠ .ctx)
    (hmedia : st'.mediaStream = st.mediaStream) (hctx : st'.audioCtx = st.audioCtx)
    (hcontexts : st'.contexts = st.contexts) : Exposed n w st' ∨ ¬ Spares began st st' := by
  rcases h with ⟨-, hstream, hmem⟩ | ⟨haudio, hmem⟩
  · by_cases hmem' : n ∈ st'.streams
    · exact .inl (.inl ⟨hw, hmedia.trans hstream, hmem'⟩)
    · exact .inr fun hspares => hmem' (hspares.streams n hmem hlt)
  · exact .inl (.inr ⟨hctx.trans haudio, hcontexts ▸ hmem⟩)

/-- The last `await` is over, or the one before, and the context is forgotten or closed. -/
theorem Exposed.lost {reason : Reason} {next : Next} (h : Exposed n wait st) (hlt : began < n)
    (hwait : wait = .video ∨ wait = .ctx) :
    ¬ Spares began st (st.resumeStop began reason next .failed wait).1 := by
  intro hspares
  rcases hwait with rfl | rfl
  · have hstreams : (st.resumeStop began reason next .failed .video).1.streams =
        st.streams.filter fun k => some k ≠ st.mediaStream := by
      simp only [resumeStop, stopMedia]
      split
      · rfl
      · exact streams_goOnAfter next
    rcases h with ⟨-, hstream, hmem⟩ | ⟨haudio, hmem⟩
    · have hmem' := hspares.streams n hmem hlt
      rw [hstreams, hstream] at hmem'
      simp at hmem'
    · have hmem' := hspares.contexts n hmem hlt
      simp only [resumeStop, stopMedia, haudio] at hmem'
      simp at hmem'
  · rcases h with ⟨hne, -⟩ | ⟨haudio, hmem⟩
    · exact hne rfl
    · have haudio' := hspares.audioCtx n haudio hlt
      have hnone : (st.resumeStop began reason next .failed .ctx).1.audioCtx = none :=
        audioCtx_goOnAfter next
      rw [hnone] at haudio'
      cases haudio'

/-- Before that it waits again, or a stream was stopped with the recorder. -/
theorem Exposed.waits {reason : Reason} {next : Next} (h : Exposed n wait st) (hlt : began < n)
    (hvideo : wait ≠ .video) (hctx : wait ≠ .ctx) :
    ∃ st₁ w,
      st.resumeStop began reason next .failed wait = (st₁, some (.stop began reason w next)) ∧
      StopWait.rank w < StopWait.rank wait ∧ st₁.tasks = st.tasks ∧
      (Exposed n w st₁ ∨ ¬ Spares began st st₁) := by
  have hne : StopWait.video ≠ .ctx := StopWait.noConfusion
  cases wait with
  | video => exact absurd rfl hvideo
  | ctx => exact absurd rfl hctx
  | recorder | persist => exact ⟨_, .video, rfl, by decide, rfl, h.keeps hlt hne rfl rfl rfl⟩
  | ws =>
      simp only [resumeStop, stopVideoRecorder]
      split
      · exact ⟨_, .video, rfl, by decide, rfl, h.keeps hlt hne rfl rfl rfl⟩
      · split
        · exact ⟨_, .recorder, rfl, by decide, rfl,
            h.keeps hlt StopWait.noConfusion rfl rfl rfl⟩
        · exact ⟨_, .video, rfl, by decide, rfl, h.keeps hlt hne rfl rfl rfl⟩

theorem not_stopsSpare {i : Nat} {r : Reply} {reason : Reason} {w : StopWait} {next : Next}
    (hi : st.tasks[i]? = some (.stop began reason w next))
    (hlost : ¬ Spares began st (st.resumeStop began reason next r w).1) : ¬ StopsSpare st := by
  intro hspare
  have hspares := hspare i r began reason w next hi _ (step_stop hi r)
  exact hlost { hspares with }

/-- By induction on how often the `stopAll` still goes on. -/
theorem Exposed.harms {i : Nat} {reason : Reason} {next : Next} (h : Exposed n wait st)
    (hi : st.tasks[i]? = some (.stop began reason wait next)) (hlt : began < n) :
    ∃ ls, ∃ st' ∈ run step st ls, ¬ StopsSpare st' := by
  induction hrank : StopWait.rank wait using Nat.strongRecOn generalizing st wait with
  | ind rank ih =>
      by_cases hlast : wait = .video ∨ wait = .ctx
      · exact ⟨[], st, rfl, not_stopsSpare hi (h.lost hlt hlast)⟩
      · rw [not_or] at hlast
        obtain ⟨st₁, w, hres, hless, htasks, hexposed⟩ := h.waits hlt hlast.1 hlast.2
        rcases hexposed with hexposed | hlost
        · have hstep := step_stop hi .failed
          rw [hres, htasks] at hstep
          have hi' : (goOn st.tasks i (some (.stop began reason w next)))[i]? =
              some (.stop began reason w next) :=
            List.getElem?_set_self (List.getElem?_eq_some_iff.mp hi).1
          have hexposed' : Exposed n w { st₁ with
              tasks := goOn st.tasks i (some (.stop began reason w next)) } := hexposed
          obtain ⟨ls, st', hrun, hharm⟩ := ih _ (hrank ▸ hless) hexposed' hi' rfl
          exact ⟨.resume i .failed :: ls, st', run_cons_some.mpr ⟨_, hstep, hrun⟩, hharm⟩
        · refine ⟨[], st, rfl, not_stopsSpare (r := .failed) hi ?_⟩
          rw [hres]
          exact hlost

theorem resumeStart_takesMedia {p : Payload} {r : Reply} {w : StartWait}
    {res : State × Option Task} (hres : st.resumeStart n p r w = some res)
    (h : w.takesMedia p r) : res.1.mediaStream = some n ∧ n ∈ res.1.streams := by
  cases w with
  | media =>
      injection hres with hres
      rw [← hres]
      cases r with
      | ok | failed => cases h
      | media audio rec =>
          have hshown : ¬ (p.display && !audio) = true := by
            have h : (!p.display || audio) = true := h
            cases hd : p.display <;> cases ha : audio <;> simp [hd, ha] at h ⊢
          simp only [if_neg hshown, takeMedia]
          split
          · exact ⟨rfl, List.mem_cons_self⟩
          · split
            · cases rec <;> exact ⟨rfl, List.mem_cons_self⟩
            · exact ⟨rfl, List.mem_cons_self⟩
  | recorder | resume | addModule | closeWs | socket => cases h

theorem resumeStart_makesContext {p : Payload} {r : Reply} {w : StartWait}
    {res : State × Option Task} (hres : st.resumeStart n p r w = some res)
    (h : w.makesContext p r) : res.1.audioCtx = some n ∧ n ∈ res.1.contexts := by
  cases w with
  | media =>
      injection hres with hres
      rw [← hres]
      cases r with
      | ok | failed => cases h
      | media audio rec =>
          obtain ⟨rfl, hrec⟩ := Bool.and_eq_true_iff.mp h
          rw [Bool.not_eq_true'] at hrec
          simp only [Bool.not_true, Bool.and_false, Bool.false_eq_true, if_false, takeMedia, hrec]
          exact ⟨rfl, List.mem_cons_self⟩
  | recorder =>
      injection hres with hres
      rw [← hres]
      exact ⟨rfl, List.mem_cons_self⟩
  | resume | addModule | closeWs | socket => cases h

/-- A start that overtakes an older `stopAll` has something that it comes to. -/
theorem exposed_of_overtakes {l : Label} (hnot : ¬ st.NotOvertaken l)
    (hstep : st.step l = some st') : ∃ n, ∃ i : Nat, ∃ b reason w next,
      st'.tasks[i]? = some (Task.stop b reason w next) ∧ b < n ∧ Exposed n w st' := by
  cases l with
  | resume i r =>
      obtain ⟨task, st₁, after, hi, hres, rfl⟩ := step_resume hstep
      have hnot : ¬ st.OvertakesNone r task := fun hok => hnot fun t ht => by
        rwa [← Option.some.inj (hi.symm.trans ht)]
      cases task with
      | stop | message => exact absurd trivial hnot
      | start n p w =>
          simp only [OvertakesNone, not_forall] at hnot
          obtain ⟨t, hmem, stopWait, helder, hbad⟩ := hnot
          have htasks : st₁.tasks = st.tasks := (SameCalls.resumeStart hres).tasks
          cases t with
          | start | message => cases helder
          | stop b reason w' next =>
              rw [Task.elder, Option.mem_def, Option.ite_none_right_eq_some] at helder
              obtain ⟨hlt, hwait⟩ := helder
              cases hwait
              have hmem' : Task.stop b reason stopWait next ∈ goOn st₁.tasks i after := by
                rw [htasks]
                exact mem_goOn_of_ne hi hmem Task.noConfusion after
              obtain ⟨j, hj⟩ := List.mem_iff_getElem?.mp hmem'
              refine ⟨n, j, b, reason, stopWait, next, hj, hlt, ?_⟩
              by_cases hmakes : w.makesContext p r
              · exact .inr (resumeStart_makesContext hres hmakes)
              · have htakes : w.takesMedia p r ∧ stopWait ≠ .ctx := by
                  rwa [and_iff_left hmakes, Classical.not_imp] at hbad
                exact .inl ⟨htakes.2, resumeStart_takesMedia hres htakes.1⟩
  | start | stop | socketOpen | socketClose | socketError | connectTimeout | handshakeTimeout
  | message | chunk | trackEnded | windowError => exact absurd trivial hnot

end State

/-! ## Runs -/

/-- No teardown harms a newer session while no start overtakes one, and the
first start that does can lose what it has installed. -/
theorem teardown_spares (ls : List Label)
    (hok : Guarded State.step State.NotOvertaken .init ls) :
    ∀ st ∈ run State.step .init ls, st.StopsSpare ∧
      ∀ l, ¬ st.NotOvertaken l → ∀ st' ∈ st.step l,
        ∃ ls', ∃ st'' ∈ run State.step st' ls', ¬ st''.StopsSpare := by
  intro st hrun
  have horder : st.InOrder :=
    run_guarded (fun _ _ _ h hok hstep => h.step hok hstep) .init hok hrun
  refine ⟨horder.stopsSpare, fun l hnot st' hstep => ?_⟩
  obtain ⟨n, i, b, reason, w, next, hi, hlt, hexposed⟩ := State.exposed_of_overtakes hnot hstep
  exact hexposed.harms hi hlt

instance (r : Reply) (st : State) : (task : Task) → Decidable (st.OvertakesNone r task)
  | .start n p wait =>
      inferInstanceAs (Decidable (∀ task ∈ st.tasks, ∀ stopWait ∈ task.elder n,
        (wait.takesMedia p r → stopWait = .ctx) ∧ ¬ wait.makesContext p r))
  | .stop .. | .message _ => isTrue trivial

instance (st : State) : (l : Label) → Decidable (st.NotOvertaken l)
  | .resume i r => inferInstanceAs (Decidable (∀ task ∈ st.tasks[i]?, st.OvertakesNone r task))
  | .start _ | .stop | .socketOpen _ | .socketClose .. | .socketError _ | .connectTimeout
  | .handshakeTimeout | .message .. | .chunk .. | .trackEnded _ | .windowError _ => isTrue trivial

/-- A start from an idle document until the server answers. -/
def runsSession : List Label :=
  [.start tab, .resume 0 .ok, .resume 0 .ok, .resume 0 (.media true .unsupported),
    .resume 0 .ok, .resume 0 .ok, .resume 0 .ok, .socketOpen 1, .message 1 .hello,
    .resume 1 .ok, .resume 0 .ok]

/-- The server is busy, and `stopAll` comes to the audio context. -/
def breaksOff : List Label :=
  [.message 1 (.error true), .resume 0 .ok, .resume 0 .ok, .resume 0 .ok]

/-- The teardown still waits for its audio context when the next start, which
records, takes its media stream; then it ends and the stream is there. -/
theorem teardown_spares_recorded :
    ∃ st ∈ run State.step .init (runsSession ++ breaksOff ++
        [.start { tab with recording := true }, .resume 1 .ok, .resume 1 .ok, .resume 1 .ok,
          .resume 1 (.media true .started)]),
      st.tasks[0]? = some (.stop 1 .busy .ctx .done) ∧ 2 ∈ st.streams ∧
        ∀ st' ∈ st.step (.resume 0 .ok), 2 ∈ st'.streams := by
  refine ⟨_, rfl, rfl, by decide, fun st' hstep => ?_⟩
  have hspare := (teardown_spares (runsSession ++ breaksOff ++
    [.start { tab with recording := true }, .resume 1 .ok, .resume 1 .ok, .resume 1 .ok,
      .resume 1 (.media true .started)]) (by decide) _ rfl).1
  exact (hspare 0 .ok 1 .busy .ctx .done rfl st' hstep).streams 2 (by decide) (by decide)

/-- The teardown waits for its audio context while a start makes a new one, and
then it sets the global to `null`. -/
theorem teardown_harms :
    ∃ st ∈ run State.step .init (runsSession ++ breaksOff ++
      [.start tab, .resume 1 .ok, .resume 1 .ok, .resume 1 .ok,
        .resume 1 (.media true .unsupported)]), ¬ st.StopsSpare := by
  refine ⟨_, rfl, fun h => ?_⟩
  have hctx := (h 0 .ok 1 .busy .ctx .done rfl _ rfl).audioCtx 2 rfl (by decide)
  cases hctx

end VTranser.Offscreen

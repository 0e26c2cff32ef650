import VTranser.Proofs.Service

/-!
# When the kept transcript only goes forward

A stable text is kept, and given to the object that persists it, when the tab
has answered, so the tab decides in which order that happens. Only the feed of
the translator looks at the numbers.

If the answers come in the order of the texts, the texts that have come are
those that are kept, followed by those that wait (`Kept`).
-/

namespace VTranser.ServiceWorker

open Run Tasks

/-- The stable texts among the labels. -/
def stablesOf (ls : List Label) : List StableMsg :=
  ls.filterMap fun
    | .stable _ msg => some msg
    | _ => none

/-- Only stable texts come, and only what waits goes on. -/
def Label.IsTranscript : Label → Prop
  | .stable .. | .resume .. => True
  | _ => False

/-- The text of a relay. -/
def Task.msg : Task → Option StableMsg
  | .relay _ _ msg => some msg
  | _ => none

namespace State

/-- A session is captured and persisted, and nothing waits. -/
structure Listening (st : State) : Prop where
  on : st.isOn
  tasks : st.tasks = []
  persist : ∃ k p, st.transcriptPersist = some (k, p) ∧ p.stopped = false ∧
    ∀ h ∈ p.lastSnapshotHash, h.2 = p.fullLatest

/-- The texts that are kept so far: the last of them is in both places. -/
structure Kept (start : Int) (done : List StableMsg) (st : State) : Prop where
  on : st.isOn
  relays : ∀ task ∈ st.tasks, task.IsRelay
  persist : ∃ k p, st.transcriptPersist = some (k, p) ∧ p.stopped = false ∧
    (∀ h ∈ p.lastSnapshotHash, h.2 = p.fullLatest) ∧
      ∀ msg ∈ done.getLast?, p.fullLatest = msg.full
  last : ∀ msg ∈ done.getLast?, st.tr.lastEnStable = msg.toStable
  start : done = [] → st.tr.lastEnStable.seq = start

/-- The texts that wait. -/
def pending (st : State) : List StableMsg := st.tasks.filterMap Task.msg

/-- A relay goes on when no older one waits. -/
def OldestFirst (st : State) : Label → Prop
  | .resume i _ => ∀ task ∈ st.tasks.take i, ¬ task.IsRelay
  | _ => True

variable {st st' : State} {start : Int} {done : List StableMsg}

theorem feed_lastEnStable (s : Stable) (tr : Translator) :
    (tr.feed s).lastEnStable = tr.lastEnStable := by
  have hsend : ∀ (m : TransMsg) (tr : Translator),
      (tr.transSend m).lastEnStable = tr.lastEnStable := by
    intro m tr
    rw [Translator.transSend]
    split <;> rfl
  rw [Translator.feed]
  split
  · split
    · rfl
    · exact hsend _ _
  · exact hsend _ _

/-- What a relay leaves behind. -/
theorem resumeRelay_spec (session : Nat) (msg : StableMsg) :
    (st.resumeRelay session msg).current = st.current ∧
      (st.resumeRelay session msg).tasks = st.tasks ∧
      (st.resumeRelay session msg).tr.lastEnStable = msg.toStable ∧
      (st.resumeRelay session msg).transcriptPersist = st.transcriptPersist.map fun (k, p) =>
        (k, p.handleStable msg.full msg.seq) := by
  simp only [resumeRelay]
  split
  · exact ⟨rfl, rfl, feed_lastEnStable _ _, rfl⟩
  · exact ⟨rfl, rfl, rfl, rfl⟩

theorem handleStable_latest {p : TranscriptPersist.Persist} (hstopped : p.stopped = false)
    (hhash : ∀ h ∈ p.lastSnapshotHash, h.2 = p.fullLatest) (full : JsStr) (seq : Option Int) :
    (p.handleStable full seq).stopped = false ∧ (p.handleStable full seq).fullLatest = full ∧
      ∀ h ∈ (p.handleStable full seq).lastSnapshotHash, h.2 = full := by
  simp only [TranscriptPersist.Persist.handleStable, hstopped, Bool.false_eq_true, if_false]
  split
  · next hsame =>
      have hfull : full = p.fullLatest := hhash _ hsame
      exact ⟨rfl, hfull.symm, fun h hmem => (hhash h hmem).trans hfull.symm⟩
  · refine ⟨rfl, rfl, ?_⟩
    rintro _ ⟨⟩
    rfl

/-- A step keeps the texts in their order. -/
theorem Kept.step (hk : Kept start done st) {l : Label} (hl : l.IsTranscript)
    (hold : OldestFirst st l) (hstep : st.step l = some st') :
    ∃ done', Kept start done' st' ∧ done <+: done' ∧
      done' ++ st'.pending = done ++ st.pending ++ stablesOf [l] := by
  cases l with
  | stable session msg =>
      injection hstep with hstep
      rw [← hstep, stable, if_pos hk.on]
      refine ⟨done, ⟨hk.on, fun task htask => ?_, hk.persist, hk.last, hk.start⟩,
        List.prefix_rfl, ?_⟩
      · rcases List.mem_append.mp htask with h | h
        · exact hk.relays task h
        · rw [List.mem_singleton.mp h]
          trivial
      · simp [pending, addTask, stablesOf, Task.msg]
  | resume i r =>
      obtain ⟨task, hi, rfl⟩ := Option.map_eq_some_iff.mp hstep
      have hmem : task ∈ st.tasks := List.mem_of_getElem? hi
      have hzero : i = 0 := by
        by_contra hne
        obtain ⟨hlt, -⟩ := List.getElem?_eq_some_iff.mp hi
        have hhead : st.tasks[0] ∈ st.tasks.take i := by
          rw [List.mem_take_iff_getElem]
          exact ⟨0, by omega, rfl⟩
        exact hold _ hhead (hk.relays _ (List.getElem_mem _))
      rw [hzero] at hi ⊢
      cases task with
      | relay session prev msg =>
          obtain ⟨hcur, htasks, hlast, hpersist⟩ := @resumeRelay_spec st session msg
          obtain ⟨k, p, hp, hstopped, hhash, -⟩ := hk.persist
          obtain ⟨hstopped', hfull', hhash'⟩ :=
            handleStable_latest hstopped hhash msg.full msg.seq
          obtain ⟨rest, hrest⟩ : ∃ rest, st.tasks = .relay session prev msg :: rest := by
            cases htasks : st.tasks with
            | nil =>
                rw [htasks] at hi
                cases hi
            | cons t rest =>
                rw [htasks] at hi
                exact ⟨rest, by rw [Option.some.inj hi]⟩
          have hgo : goOn (st.resumeRelay session msg).tasks 0 none = rest := by
            rw [htasks, hrest]
            rfl
          refine ⟨done ++ [msg], ⟨?_, fun t ht => ?_, ?_, ?_, ?_⟩, List.prefix_append _ _, ?_⟩
          · exact (isOn_congr hcur).trans hk.on
          · have ht : t ∈ goOn (st.resumeRelay session msg).tasks 0 none := ht
            rw [hgo] at ht
            exact hk.relays t (by rw [hrest]; exact List.mem_cons_of_mem _ ht)
          · refine ⟨k, _, hpersist.trans (by rw [hp]; rfl), hstopped', ?_, ?_⟩
            · rw [hfull']
              exact hhash'
            · simp [hfull']
          · intro m hm
            rw [List.getLast?_concat] at hm
            rw [← Option.some.inj hm]
            exact hlast
          · simp
          · show (done ++ [msg]) ++ (goOn (st.resumeRelay session msg).tasks 0 none).filterMap _ = _
            rw [hgo, pending, hrest]
            simp [stablesOf, Task.msg]
      | start | cleanup | connect | modes | modesOn | openPanel | closePanel =>
          exact absurd (hk.relays _ hmem) id
  | panelStart | panelStop | logout | tabClosed | status | modes | panelToggle | iconClicked
  | timer | socketOpen | socketClose => cases hl

theorem Kept.run {ls : List Label} (hk : Kept start done st) (hls : ∀ l ∈ ls, l.IsTranscript)
    (hold : Guarded State.step OldestFirst st ls) (hrun : Run.run State.step st ls = some st') :
    ∃ done', Kept start done' st' ∧ done <+: done' ∧
      done' ++ st'.pending = done ++ st.pending ++ stablesOf ls := by
  induction ls generalizing st done with
  | nil =>
      injection hrun with hrun
      rw [← hrun]
      exact ⟨done, hk, List.prefix_rfl, by simp [stablesOf]⟩
  | cons l ls ih =>
      obtain ⟨st₁, hstep, hrest⟩ := run_cons_some.mp hrun
      obtain ⟨done₁, hk₁, hpre₁, heq₁⟩ := hk.step (hls l List.mem_cons_self) hold.1 hstep
      obtain ⟨done', hk', hpre', heq'⟩ :=
        ih hk₁ (fun l hl => hls l (List.mem_cons_of_mem _ hl)) (hold.2 st₁ hstep) hrest
      refine ⟨done', hk', hpre₁.trans hpre', ?_⟩
      rw [heq', heq₁, List.append_assoc _ (stablesOf [l])]
      rw [stablesOf, stablesOf, stablesOf, ← List.filterMap_append, List.singleton_append]

theorem Listening.kept (hst : Listening st) : Kept st.tr.lastEnStable.seq [] st where
  on := hst.on
  relays := by
    rw [hst.tasks]
    exact fun _ h => absurd h List.not_mem_nil
  persist := by
    obtain ⟨k, p, hp, hstopped, hhash⟩ := hst.persist
    exact ⟨k, p, hp, hstopped, hhash, fun _ h => absurd h (Option.not_mem_none _)⟩
  last _ h := absurd h (Option.not_mem_none _)
  start _ := rfl

/-- The number of the kept text is that of the last one. -/
theorem Kept.seq_le (hk : Kept start done st) {done' : List StableMsg} (hpre : done <+: done')
    (hk' : Kept start done' st')
    (hsorted : (start :: done'.map (·.toStable.seq)).Pairwise (· < ·)) :
    st.tr.lastEnStable.seq ≤ st'.tr.lastEnStable.seq := by
  obtain ⟨more, rfl⟩ := hpre
  rcases List.eq_nil_or_concat' more with rfl | ⟨more, msg, rfl⟩
  · rw [List.append_nil] at hk'
    rcases List.eq_nil_or_concat' done with rfl | ⟨done, msg, rfl⟩
    · exact Int.le_of_eq ((hk.start rfl).trans (hk'.start rfl).symm)
    · exact Int.le_of_eq (by rw [hk.last msg (by simp), hk'.last msg (by simp)])
  · rw [hk'.last msg (by simp)]
    rcases List.eq_nil_or_concat' done with rfl | ⟨done, msg', rfl⟩
    · rw [hk.start rfl]
      have hlt := (List.pairwise_cons.mp hsorted).1 msg.toStable.seq (by simp)
      omega
    · rw [hk.last msg' (by simp)]
      have hsorted := (List.pairwise_cons.mp hsorted).2
      rw [List.map_append, List.pairwise_append] at hsorted
      have hlt := hsorted.2.2 msg'.toStable.seq (by simp) msg.toStable.seq (by simp)
      omega

end State

/-! ## Runs -/

/-- The numbers of the texts are above the one that is kept, and they grow. -/
def Increasing (st : State) (ls : List Label) : Prop :=
  (st.tr.lastEnStable.seq :: (stablesOf ls).map (·.toStable.seq)).Pairwise (· < ·)

/-- The number of the kept text never decreases, and when nothing waits any more,
the text with the highest number is kept and is the last that was persisted. -/
structure OnlyForward (st : State) (ls : List Label) : Prop where
  monotone : ∀ is js, ls = is ++ js → ∀ st₁ ∈ run State.step st is,
    ∀ st₂ ∈ run State.step st₁ js, st₁.tr.lastEnStable.seq ≤ st₂.tr.lastEnStable.seq
  finished : ∀ st' ∈ run State.step st ls, st'.tasks = [] → ∀ msg ∈ stablesOf ls,
    (∀ m ∈ stablesOf ls, m.toStable.seq ≤ msg.toStable.seq) →
      st'.tr.lastEnStable = msg.toStable ∧
        ∃ k p, st'.transcriptPersist = some (k, p) ∧ p.fullLatest = msg.full

theorem le_of_max {msgs : List StableMsg} {msg last : StableMsg}
    (hsorted : (msgs.map (·.toStable.seq)).Pairwise (· < ·)) (hlast : msgs.getLast? = some last)
    (hmem : msg ∈ msgs) (hmax : last.toStable.seq ≤ msg.toStable.seq) : msg = last := by
  rcases List.eq_nil_or_concat' msgs with rfl | ⟨msgs, last', rfl⟩
  · cases hlast
  · rw [List.getLast?_concat] at hlast
    injection hlast with hlast
    rcases List.mem_append.mp hmem with h | h
    · rw [List.map_append, List.pairwise_append] at hsorted
      have hlt := hsorted.2.2 msg.toStable.seq (List.mem_map_of_mem h) last'.toStable.seq (by simp)
      rw [hlast] at hlt
      omega
    · exact (List.mem_singleton.mp h).trans hlast

/-- The kept transcript only goes forward in every run in which the deliveries end
in the order of the texts. -/
theorem transcript_onlyForward (st : State) (hst : st.Listening) (ls : List Label)
    (hls : ∀ l ∈ ls, l.IsTranscript) (hinc : Increasing st ls)
    (hold : Guarded State.step State.OldestFirst st ls) : OnlyForward st ls where
  monotone is js hsplit st₁ h₁ st₂ h₂ := by
    rw [hsplit] at hls hold hinc
    obtain ⟨hold₁, hold₂⟩ := guarded_append.mp hold
    obtain ⟨done₁, hk₁, -, heq₁⟩ :=
      hst.kept.run (fun l hl => hls l (List.mem_append_left _ hl)) hold₁ h₁
    obtain ⟨done₂, hk₂, hpre, heq₂⟩ :=
      hk₁.run (fun l hl => hls l (List.mem_append_right _ hl)) (hold₂ st₁ h₁) h₂
    refine hk₁.seq_le hpre hk₂ ?_
    rw [heq₁] at heq₂
    have hall : done₂ ++ st₂.pending = stablesOf (is ++ js) := by
      rw [heq₂, State.pending, hst.tasks]
      simp [stablesOf]
    rw [Increasing, ← hall, List.map_append] at hinc
    exact hinc.sublist (List.Sublist.cons_cons _ (List.sublist_append_left _ _))
  finished st' hrun htasks msg hmsg hmax := by
    obtain ⟨done, hk, -, heq⟩ := hst.kept.run hls hold hrun
    have hall : done = stablesOf ls := by
      rw [State.pending, State.pending, htasks, hst.tasks] at heq
      simpa using heq
    have hsorted := (List.pairwise_cons.mp hinc).2
    obtain ⟨last, hlast⟩ : ∃ last, (stablesOf ls).getLast? = some last := by
      cases hls' : (stablesOf ls).getLast? with
      | none =>
          rw [List.getLast?_eq_none_iff.mp hls'] at hmsg
          cases hmsg
      | some last => exact ⟨last, rfl⟩
    have hmax' := hmax last (List.mem_of_getLast? hlast)
    rw [le_of_max hsorted hlast hmsg hmax']
    rw [← hall] at hlast
    obtain ⟨k, p, hp, -, -, hlatest⟩ := hk.persist
    exact ⟨hk.last last hlast, k, p, hp, hlatest last hlast⟩

instance : (l : Label) → Decidable l.IsTranscript
  | .stable .. | .resume .. => isTrue trivial
  | .panelStart _ | .panelStop | .logout | .tabClosed _ | .status _ | .modes _ | .panelToggle _
  | .iconClicked _ | .timer _ | .socketOpen _ | .socketClose _ => isFalse id

instance (st : State) : (l : Label) → Decidable (st.OldestFirst l)
  | .resume i _ => inferInstanceAs (Decidable (∀ task ∈ st.tasks.take i, ¬ task.IsRelay))
  | .stable .. | .panelStart _ | .panelStop | .logout | .tabClosed _ | .status _ | .modes _
  | .panelToggle _ | .iconClicked _ | .timer _ | .socketOpen _ | .socketClose _ => isTrue trivial

/-- Tab 1 is captured and persisted. -/
def listens : State :=
  { State.init with
    current := some ⟨some 1, true, false, true⟩
    transcriptPersist := some (1, .init) }

theorem listens_listening : listens.Listening :=
  ⟨rfl, rfl, 1, .init, rfl, rfl, fun _ h => absurd h (Option.not_mem_none _)⟩

/-- Two texts come before the tab has answered. -/
def twoTexts : List Label :=
  [.stable 0 ⟨jsText "Hi.", some 1, none⟩, .stable 0 ⟨jsText "Hi. Yo.", some 2, none⟩]

theorem transcript_onlyForward_two :
    OnlyForward listens (twoTexts ++ [.resume 0 .ok, .resume 0 .ok]) :=
  transcript_onlyForward listens listens_listening _ (by decide)
    (by unfold Increasing; decide) (by decide)

/-- The tab answers the second text first. -/
theorem transcript_goesBack :
    let ls := twoTexts ++ [.resume 1 .ok, .resume 0 .ok]
    listens.Listening ∧ (∀ l ∈ ls, l.IsTranscript) ∧ Increasing listens ls ∧
      ¬ OnlyForward listens ls := by
  refine ⟨listens_listening, by decide, by unfold Increasing; decide, fun h => ?_⟩
  have hle := h.monotone (twoTexts ++ [.resume 1 .ok]) [.resume 0 .ok] rfl _ rfl _ rfl
  exact absurd hle (by decide)

end VTranser.ServiceWorker

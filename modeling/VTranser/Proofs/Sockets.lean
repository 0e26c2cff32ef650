import Mathlib.Data.List.Nodup
import Mathlib.Data.List.Perm.Subperm
import VTranser.Offscreen.Pcm
import VTranser.Proofs.Offscreen

/-!
# One socket after another

Each start makes one socket at most, so no two sockets have one number (`Apart`).
Only the handler of the worklet's port raises `wsBackpressureActive`. `closeWs` and the
end of `stopAll` take it back, and nothing else changes it or the global `ws`
(`Calmer`), but for the start that makes a socket. So the flag is off while the socket
connects, as long as no chunk comes between `closeWs` and the new socket.
-/

namespace VTranser.Offscreen

open Tasks
open scoped List

/-- The start whose socket is still to be made. -/
def Task.coming : Task → Option Nat
  | .start n _ wait => if wait = .socket then none else some n
  | .stop _ _ _ next =>
      match next with
      | .start n _ => some n
      | .done | .wsFail => none
  | .message _ => none

/-- The start waits between `closeWs` and its new socket. -/
def Task.AtCloseWs : Task → Prop
  | .start _ _ wait => wait = .closeWs
  | .stop .. | .message _ => False

/-- Nothing is taken up; the flag and `ws` are as they were, or as after `closeWs`. -/
structure Calmer (st st' : State) : Prop where
  flag : st'.wsBackpressureActive = st.wsBackpressureActive ∧ st'.ws = st.ws ∨
    st'.wsBackpressureActive = false ∧ st'.ws = none
  ready : ∀ k ready, (k, ready) ∈ st'.sockets → ready = .closing ∨ (k, ready) ∈ st.sockets
  ids : st'.sockets.map Prod.fst <+ st.sockets.map Prod.fst

namespace State

variable {st st' : State}

theorem map_fst_setReady (k : Nat) (ready : ReadyState) (sockets : List (Nat × ReadyState)) :
    (setReady k ready sockets).map Prod.fst = sockets.map Prod.fst := by
  rw [setReady, List.map_map]
  refine List.map_congr_left fun s _ => ?_
  show (if s.1 = k then (k, ready) else s).1 = s.1
  split
  · next h => exact h.symm
  · rfl

theorem mem_setReady_iff {k j : Nat} {ready r : ReadyState} {sockets : List (Nat × ReadyState)}
    (h : (j, r) ∈ setReady k ready sockets) : j = k ∧ r = ready ∨ j ≠ k ∧ (j, r) ∈ sockets := by
  obtain ⟨s, hmem, heq⟩ := List.mem_map.mp h
  split at heq
  · cases heq
    exact .inl ⟨rfl, rfl⟩
  · next hne =>
      subst heq
      exact .inr ⟨hne, hmem⟩

end State

namespace Calmer

open State

variable {st st' : State}

theorem of_eq (hflag : st'.wsBackpressureActive = st.wsBackpressureActive) (hws : st'.ws = st.ws)
    (hsockets : st'.sockets = st.sockets) : Calmer st st' where
  flag := .inl ⟨hflag, hws⟩
  ready _ _ h := .inr (hsockets ▸ h)
  ids := by rw [hsockets]

theorem refl : Calmer st st := of_eq rfl rfl rfl

theorem trans {st'' : State} (h : Calmer st st') (h' : Calmer st' st'') : Calmer st st'' where
  flag := by
    rcases h'.flag with ⟨hflag, hws⟩ | hoff
    · rw [hflag, hws]
      exact h.flag
    · exact .inr hoff
  ready k r hmem := (h'.ready k r hmem).elim .inl (h.ready k r)
  ids := h'.ids.trans h.ids

theorem send (s : Status) : Calmer st (st.send s) := of_eq rfl rfl rfl

theorem closeWs : Calmer st st.closeWs where
  flag := .inr ⟨rfl, rfl⟩
  ready _ _ h := .inr (List.mem_filter.mp h).1
  ids := List.filter_sublist.map Prod.fst

theorem stopAll (reason : Reason) (next : Next) : Calmer st (st.stopAll reason next).1 :=
  (send _).trans closeWs

theorem throw : Calmer st st.throw.1 := stopAll .startError .done

theorem close (k : Nat) : Calmer st (st.close k) where
  flag := .inl ⟨rfl, rfl⟩
  ready _ _ h := by
    rcases mem_setReady_iff h with ⟨-, hready⟩ | ⟨-, hmem⟩
    · exact .inl hready
    · exact .inr hmem
  ids := by
    show (setReady k .closing st.sockets).map Prod.fst <+ _
    rw [map_fst_setReady]

theorem goOnAfter (next : Next) : Calmer st (st.goOnAfter next).1 := by
  cases next with
  | done => exact refl
  | wsFail => exact throw
  | start n p =>
      simp only [State.goOnAfter, getMedia]
      split
      · exact of_eq rfl rfl rfl
      · split
        · exact of_eq rfl rfl rfl
        · have hsent : Calmer st ((st.send .starting).send (.error .getMedia)) := of_eq rfl rfl rfl
          exact hsent.trans throw

theorem finalize (r : Reply) : Calmer st (st.finalize r).1 := by
  rw [State.finalize]
  split
  · exact refl
  · exact of_eq rfl rfl rfl

theorem settle (k : Nat) (ok : Bool) : Calmer st (st.settle k ok) := by
  rw [State.settle]
  split
  · exact refl
  · exact of_eq rfl rfl rfl

theorem settleHandshake (ok : Bool) : Calmer st (st.settleHandshake ok) := by
  rw [State.settleHandshake]
  split
  · next k _ => exact (settle k ok).trans (of_eq rfl rfl rfl)
  · exact refl

theorem rejectHandshakeIfAny : Calmer st st.rejectHandshakeIfAny := by
  rw [State.rejectHandshakeIfAny]
  split
  · exact refl
  · exact settleHandshake false

theorem resolveHandshakeIfAny : Calmer st st.resolveHandshakeIfAny := by
  have hok : Calmer st { st with handshakeOk := true } := of_eq rfl rfl rfl
  rw [State.resolveHandshakeIfAny]
  split
  · exact refl
  · exact hok.trans (settleHandshake true)

end Calmer

/-! ## What a call does to the sockets -/

/-- A call that has gone on has left the sockets, or it was a `stopAll` and has ended,
or a start and has made its socket. -/
inductive Turn (st : State) (task : Task) : State × Option Task → Prop
  | calm {res} (quiet : st.ends task = false) (calmer : Calmer st res.1)
      (coming : ∀ t ∈ res.2, t.coming = none ∨ t.coming = task.coming)
      (between : ∀ t ∈ res.2, t.AtCloseWs → res.1.wsBackpressureActive = false) :
      Turn st task res
  | ends {res} (ended : st.ends task = true)
      (calmer : Calmer { st with wsBackpressureActive := false } res.1)
      (coming : ∀ t ∈ res.2, t.coming = none ∨ t.coming = task.coming) : Turn st task res
  | connects {st₁ : State} {n p} (htask : task = .start n p .closeWs)
      (flag : st₁.wsBackpressureActive = st.wsBackpressureActive)
      (sockets : st₁.sockets = st.sockets) : Turn st task (st₁.newWebSocket n p)

namespace Turn

open State

variable {st : State} {task : Task}

/-- A call ends, or goes on as one that makes no socket of another start. -/
theorem calmly {res : State × Option Task} (quiet : st.ends task = false)
    (calmer : Calmer st res.1) (coming : ∀ t ∈ res.2, t.coming = none ∨ t.coming = task.coming)
    (between : ∀ t ∈ res.2, ¬ t.AtCloseWs) : Turn st task res :=
  .calm quiet calmer coming fun t ht hclose => absurd hclose (between t ht)

theorem of_none (quiet : st.ends task = false) {st' : State} (calmer : Calmer st st') :
    Turn st task (st', none) :=
  calmly quiet calmer (fun t ht => absurd ht (Option.not_mem_none t))
    fun t ht => absurd ht (Option.not_mem_none t)

theorem of_some (quiet : st.ends task = false) {st' : State} (calmer : Calmer st st') {t : Task}
    (coming : t.coming = none ∨ t.coming = task.coming) (between : ¬ t.AtCloseWs) :
    Turn st task (st', some t) := by
  refine calmly quiet calmer ?_ ?_
  · intro _ ht
    cases ht
    exact coming
  · intro _ ht
    cases ht
    exact between

theorem stopAll (quiet : st.ends task = false) {st' : State} (calmer : Calmer st st')
    (reason : Reason) {next : Next} (hnext : ∀ n p, next ≠ .start n p) :
    Turn st task ((st'.stopAll reason next).1, some (st'.stopAll reason next).2) := by
  refine of_some quiet (calmer.trans (.stopAll reason next)) (.inl ?_) id
  cases next with
  | done | wsFail => rfl
  | start n p => exact absurd rfl (hnext n p)

theorem throw (quiet : st.ends task = false) {st' : State} (calmer : Calmer st st') :
    Turn st task st'.throw :=
  stopAll quiet calmer .startError nofun

theorem coming_goOnAfter {began : Nat} {reason : Reason} {w : StopWait} (next : Next) :
    ∀ t ∈ (st.goOnAfter next).2,
      t.coming = none ∨ t.coming = (Task.stop began reason w next).coming := by
  have hsome : ∀ {t' : Task},
      t'.coming = none ∨ t'.coming = (Task.stop began reason w next).coming →
        ∀ t ∈ some t', t.coming = none ∨ t.coming = (Task.stop began reason w next).coming := by
    intro t' h t ht
    cases ht
    exact h
  cases next with
  | done => exact fun t ht => absurd ht (Option.not_mem_none t)
  | wsFail => exact hsome (.inl rfl)
  | start n p =>
      simp only [goOnAfter, getMedia]
      split
      · exact hsome (.inr rfl)
      · split
        · exact hsome (.inr rfl)
        · exact hsome (.inl rfl)

theorem resumeStop (began : Nat) (reason : Reason) (next : Next) (r : Reply) (w : StopWait) :
    Turn st (.stop began reason w next) (st.resumeStop began reason next r w) := by
  have hwaits : ∀ {st' : State} {w' : StopWait}, st.ends (.stop began reason w next) = false →
      Calmer st st' →
        Turn st (.stop began reason w next) (st', some (.stop began reason w' next)) :=
    fun quiet calmer => of_some quiet calmer (.inr rfl) id
  have hoff : Calmer { st with wsBackpressureActive := false } (st.finish reason) :=
    .of_eq rfl rfl rfl
  cases w with
  | ws =>
      refine hwaits rfl ?_
      split
      · exact .of_eq rfl rfl rfl
      · split
        · exact .of_eq rfl rfl rfl
        · have hworklets : Calmer st { st with
              worklets := st.worklets.filter fun w => some w.1 ≠ st.workletNode } :=
            .of_eq rfl rfl rfl
          exact hworklets.trans (.finalize r)
  | recorder => exact hwaits rfl (.finalize r)
  | persist => exact hwaits rfl (.of_eq rfl rfl rfl)
  | video =>
      simp only [State.resumeStop, stopMedia]
      split
      · next c hc =>
          have hc : st.audioCtx = some c := hc
          have hquiet : st.ends (.stop began reason .video next) = false := by
            show st.audioCtx.isNone = false
            rw [hc]
            rfl
          exact hwaits hquiet (.of_eq rfl rfl rfl)
      · next hc =>
          have hc : st.audioCtx = none := hc
          refine .ends ?_ ?_ (coming_goOnAfter next)
          · show st.audioCtx.isNone = true
            rw [hc]
            rfl
          · have hmedia : Calmer { st with wsBackpressureActive := false } (finish reason { st with
                workletNode := none
                streams := st.streams.filter fun k => some k ≠ st.mediaStream
                mediaStream := none }) := .of_eq rfl rfl rfl
            exact hmedia.trans (.goOnAfter next)
  | ctx => exact .ends rfl (hoff.trans (.goOnAfter next)) (coming_goOnAfter next)

theorem goesOn {st' : State} {n : Nat} {p : Payload} {w w' : StartWait} (calmer : Calmer st st')
    (h : w ≠ .socket ∧ w' ≠ .socket ∧ w' ≠ .closeWs) :
    Turn st (.start n p w) (st', some (.start n p w')) := by
  obtain ⟨hw, hsocket, hclose⟩ := h
  refine of_some rfl calmer (.inr ?_) hclose
  rw [Task.coming, Task.coming, if_neg hw, if_neg hsocket]

theorem resumeStart {n : Nat} {p : Payload} {r : Reply} {w : StartWait}
    {res : State × Option Task} (hres : st.resumeStart n p r w = some res) :
    Turn st (.start n p w) res := by
  cases w with
  | media =>
      injection hres with hres
      rw [← hres]
      split
      · next audio rec =>
          split
          · exact throw rfl (.send _)
          · simp only [takeMedia]
            split
            · exact throw rfl (.of_eq rfl rfl rfl)
            · split
              · cases rec with
                | unsupported => exact throw rfl (.of_eq rfl rfl rfl)
                | throws => exact throw rfl (.of_eq rfl rfl rfl)
                | started => exact goesOn (.of_eq rfl rfl rfl) (by decide)
              · exact goesOn (.of_eq rfl rfl rfl) (by decide)
      · exact throw rfl (.send _)
      · exact throw rfl (.send _)
  | recorder =>
      injection hres with hres
      rw [← hres]
      exact goesOn (.of_eq rfl rfl rfl) (by decide)
  | resume =>
      injection hres with hres
      rw [← hres]
      split
      · exact goesOn .refl (by decide)
      · exact throw rfl .refl
  | addModule =>
      injection hres with hres
      rw [← hres]
      simp only [buildGraph]
      split
      · split
        · exact throw rfl .refl
        · have hgraph : Calmer st ({ st with
              workletNode := some n, worklets := (n, false) :: st.worklets }.send .audioGraphOk) :=
            .of_eq rfl rfl rfl
          refine .calm rfl (hgraph.trans .closeWs) ?_ fun _ _ _ => rfl
          intro _ ht
          cases ht
          exact .inr rfl
      · exact throw rfl .refl
  | closeWs =>
      injection hres with hres
      rw [← hres]
      split
      · exact .connects rfl rfl rfl
      · have hsend : Calmer st ({ st with handshakeOk := false }.send .wsConnecting) :=
          .of_eq rfl rfl rfl
        exact stopAll rfl ((hsend.trans .rejectHandshakeIfAny).trans (.send _)) .wsFail
          fun _ _ => Next.noConfusion
  | socket =>
      obtain ⟨ok, -, rfl⟩ := Option.map_eq_some_iff.mp hres
      cases ok with
      | true => exact of_none rfl (.send .running)
      | false => exact stopAll rfl (.send _) .wsFail fun _ _ => Next.noConfusion

end Turn

/-! ## What else happens -/

/-- The calls that wait have nothing to do with a new socket. -/
structure Aside (st st' : State) : Prop where
  calmer : Calmer st st'
  starts : st'.starts = st.starts
  tasks : ∃ more : List Task, st'.tasks = st.tasks ++ more ∧
    ∀ t ∈ more, t.coming = none ∧ ¬ t.AtCloseWs

namespace Aside

open State

variable {st st' : State}

theorem of_same (calmer : Calmer st st') (same : SameCalls st st') : Aside st st' :=
  ⟨calmer, same.starts, [], by rw [same.tasks, List.append_nil],
    fun t ht => absurd ht List.not_mem_nil⟩

theorem stopAllNow (calmer : Calmer st st') (same : SameCalls st st') (reason : Reason) :
    Aside st (st'.stopAllNow reason) := by
  refine ⟨calmer.trans ((Calmer.stopAll reason .done).trans (.of_eq rfl rfl rfl)), same.starts,
    [.stop st'.starts reason .ws .done], ?_, fun t ht => ?_⟩
  · show st'.tasks ++ _ = _
    rw [same.tasks]
  · rw [List.mem_singleton.mp ht]
    exact ⟨rfl, id⟩

theorem handleServerTextMessage (m : ServerMessage) :
    Aside st (st.handleServerTextMessage m) := by
  have hreject : ∀ s, Calmer st (st.send s).rejectHandshakeIfAny :=
    fun s => (Calmer.send s).trans .rejectHandshakeIfAny
  have hsame : ∀ s, SameCalls st (st.send s).rejectHandshakeIfAny :=
    fun s => (SameCalls.send s).trans .rejectHandshakeIfAny
  cases m with
  | error busy =>
      simp only [State.handleServerTextMessage]
      split
      · exact stopAllNow (hreject _) (hsame _) _
      · split
        · exact stopAllNow (hreject _) (hsame _) _
        · exact of_same (hreject _) (hsame _)
  | hello | status =>
      exact of_same ((Calmer.send _).trans .resolveHandshakeIfAny)
        ((SameCalls.send _).trans .resolveHandshakeIfAny)
  | other => exact of_same .resolveHandshakeIfAny .resolveHandshakeIfAny

theorem onclose (k : Nat) (busy : Bool) : Aside st (st.onclose k busy) := by
  let closed : State := { st with
    sockets := st.sockets.filter fun s => s.1 ≠ k
    connectTimer := none
    wsOpen := false
    wsReadyToStream := false }.send .wsClose
  have hclosed : Calmer st closed := {
    flag := .inl ⟨rfl, rfl⟩
    ready := fun _ _ h => .inr (List.mem_filter.mp h).1
    ids := List.filter_sublist.map Prod.fst }
  have hsame : SameCalls st closed := ⟨rfl, rfl, rfl⟩
  simp only [State.onclose]
  split
  · exact stopAllNow ((hclosed.trans (.send _)).trans .rejectHandshakeIfAny)
      ((hsame.trans (.send _)).trans .rejectHandshakeIfAny) _
  · split
    · exact stopAllNow (hclosed.trans .rejectHandshakeIfAny)
        (hsame.trans .rejectHandshakeIfAny) _
    · exact of_same (hclosed.trans .rejectHandshakeIfAny) (hsame.trans .rejectHandshakeIfAny)

theorem onerror (k : Nat) : Aside st (st.onerror k) := by
  let off : State := { st with connectTimer := none, wsOpen := false, wsReadyToStream := false }
  have hoff : Calmer st ((off.close k).send .wsError) :=
    ((Calmer.of_eq rfl rfl rfl : Calmer st off).trans (.close k)).trans (.send _)
  have hsame : SameCalls st ((off.close k).send .wsError) := ⟨rfl, rfl, rfl⟩
  exact of_same ((hoff.trans .rejectHandshakeIfAny).trans (.settle k false))
    ((hsame.trans .rejectHandshakeIfAny).trans (.settle k false))

end Aside

/-! ## Steps -/

namespace State

variable {st st' : State}

/-- The numbers of the sockets that are there or still to be made. -/
def ids (st : State) : List Nat := st.tasks.filterMap Task.coming ++ st.sockets.map Prod.fst

/-- What a step other than a chunk does to the sockets, the flag and `ws`. -/
inductive SocketStep (st : State) (l : Label) (st' : State) : Prop
  | calm (quiet : st.renews l = false) (calmer : Calmer st st')
  | ends (ended : st.renews l = true)
      (calmer : Calmer { st with wsBackpressureActive := false } st')
  | connects {n p} (quiet : st.renews l = false) (coming : .start n p .closeWs ∈ st.tasks)
      (flag : st'.wsBackpressureActive = st.wsBackpressureActive) (ws : st'.ws = some n)
      (sockets : st'.sockets = (n, .connecting) :: st.sockets)
  | opens {k} (hl : l = .socketOpen k) (hk : (k, .connecting) ∈ st.sockets)
      (h : st' = st.onopen k)

/-- No socket is to be made that was not to be made before, but for the start that is
called; and who comes to make one has taken back the flag. -/
structure Makes (st st' : State) : Prop where
  ids : ids st' <+~ ids st ∧ st'.starts = st.starts ∨
    ids st' <+~ (st.starts + 1) :: ids st ∧ st'.starts = st.starts + 1
  between : ∀ t ∈ st'.tasks, t.AtCloseWs → t ∈ st.tasks ∨ st'.wsBackpressureActive = false

theorem makes_of_aside (h : Aside st st') : Makes st st' := by
  obtain ⟨more, htasks, hmore⟩ := h.tasks
  refine ⟨.inl ⟨?_, h.starts⟩, fun t ht hclose => ?_⟩
  · have hnil : more.filterMap Task.coming = [] :=
      List.filterMap_eq_nil_iff.mpr fun t ht => (hmore t ht).1
    rw [State.ids, htasks, List.filterMap_append, hnil, List.append_nil]
    exact (h.calmer.ids.append_left _).subperm
  · rw [htasks] at ht
    rcases List.mem_append.mp ht with ht | ht
    · exact .inl ht
    · exact absurd hclose (hmore t ht).2

/-- A call goes on, and what it was about to make is made or still to be made. -/
theorem ids_goOn {i : Nat} {task : Task} (hi : st.tasks[i]? = some task) {next : Option Task}
    {sockets : List Nat}
    (h : next.toList.filterMap Task.coming ++ sockets <+~
      [task].filterMap Task.coming ++ st.sockets.map Prod.fst) :
    (goOn st.tasks i next).filterMap Task.coming ++ sockets <+~ ids st := by
  have hnew := ((goOn_perm hi next).filterMap Task.coming).append_right sockets
  have hold := ((perm_cons_eraseIdx hi).filterMap Task.coming).append_right
    (st.sockets.map Prod.fst)
  have hrest := (List.subperm_append_left ((st.tasks.eraseIdx i).filterMap Task.coming)).mpr h
  refine (hnew.trans ?_).subperm.trans (hrest.trans (hold.trans ?_).symm.subperm)
  · rw [List.filterMap_append, List.append_assoc]
    exact List.perm_append_comm_assoc ..
  · rw [show task :: st.tasks.eraseIdx i = [task] ++ st.tasks.eraseIdx i from rfl,
      List.filterMap_append, List.append_assoc]
    exact List.perm_append_comm_assoc ..

theorem step_turn {i : Nat} {r : Reply} {task : Task} {res : State × Option Task}
    (hi : st.tasks[i]? = some task) (hturn : Turn st task res) (hsame : SameCalls st res.1) :
    let st' := { res.1 with tasks := goOn res.1.tasks i res.2 }
    SocketStep st (.resume i r) st' ∧ Makes st st' := by
  have hrenews : st.renews (.resume i r) = st.ends task := by
    rw [renews, hi]
    rfl
  have hids : ∀ {res : State × Option Task}, SameCalls st res.1 →
      (∀ t ∈ res.2, t.coming = none ∨ t.coming = task.coming) →
      res.1.sockets.map Prod.fst <+ st.sockets.map Prod.fst →
      ids { res.1 with tasks := goOn res.1.tasks i res.2 } <+~ ids st := by
    intro res hsame hcoming hsockets
    have hnext : res.2.toList.filterMap Task.coming <+ [task].filterMap Task.coming := by
      cases h : res.2 with
      | none => exact List.nil_sublist _
      | some t =>
          rcases hcoming t h with hnone | heq
          · rw [Option.toList_some, List.filterMap_cons_none hnone]
            exact List.nil_sublist _
          · simp only [Option.toList_some, List.filterMap_cons, heq]
            exact List.Sublist.refl _
    rw [hsame.tasks]
    exact ids_goOn hi (hnext.append hsockets).subperm
  have hbetween : ∀ {res : State × Option Task}, SameCalls st res.1 →
      (∀ t ∈ res.2, t.AtCloseWs → res.1.wsBackpressureActive = false) →
      ∀ t ∈ goOn res.1.tasks i res.2, t.AtCloseWs →
        t ∈ st.tasks ∨ res.1.wsBackpressureActive = false := by
    intro res hsame hnext t ht hclose
    rw [hsame.tasks] at ht
    rcases mem_goOn ht with ht | ht
    · exact .inl ht
    · exact .inr (hnext t ht hclose)
  cases hturn with
  | calm quiet calmer coming between =>
      exact ⟨.calm (hrenews.trans quiet) { calmer with },
        .inl ⟨hids hsame coming calmer.ids, hsame.starts⟩, hbetween hsame between⟩
  | ends ended calmer coming =>
      refine ⟨.ends (hrenews.trans ended) { calmer with },
        .inl ⟨hids hsame coming calmer.ids, hsame.starts⟩, hbetween hsame fun _ _ _ => ?_⟩
      rcases calmer.flag with ⟨hflag, -⟩ | ⟨hflag, -⟩
      · exact hflag
      · exact hflag
  | @connects st₁ n p htask flag sockets =>
      subst htask
      refine ⟨.connects (hrenews.trans rfl) (List.mem_of_getElem? hi) flag rfl ?_,
        .inl ⟨?_, hsame.starts⟩, ?_⟩
      · show (n, ReadyState.connecting) :: st₁.sockets = _
        rw [sockets]
      · show (goOn st₁.tasks i (some (.start n p .socket))).filterMap Task.coming ++
          n :: st₁.sockets.map Prod.fst <+~ _
        rw [show st₁.tasks = st.tasks from hsame.tasks, sockets]
        exact ids_goOn hi (List.Sublist.refl _).subperm
      · refine @hbetween (st₁.newWebSocket n p) hsame ?_
        intro t ht hclose
        cases ht
        cases hclose

/-- The start that is called is the next one, and its socket is still to be made. -/
theorem step_start (p : Payload) :
    SocketStep st (.start p) (st.start p) ∧ Makes st (st.start p) := by
  have hadd : ∀ {st₁ : State} {task : Task}, Calmer st st₁ → st₁.tasks = st.tasks →
      st₁.starts = st.starts + 1 → task.coming = none ∨ task.coming = some (st.starts + 1) →
      ¬ task.AtCloseWs → SocketStep st (.start p) { st₁ with tasks := st₁.tasks ++ [task] } ∧
        Makes st { st₁ with tasks := st₁.tasks ++ [task] } := by
    intro st₁ task hcalmer htasks hstarts hcoming hclose
    refine ⟨.calm rfl { hcalmer with }, .inr ⟨?_, hstarts⟩, fun t ht hc => ?_⟩
    · have hone : [task].filterMap Task.coming <+ [st.starts + 1] := by
        rcases hcoming with hnone | hsome
        · rw [List.filterMap_cons_none hnone]
          exact List.nil_sublist _
        · rw [List.filterMap_cons_some hsome]
          exact List.Sublist.refl _
      show (st₁.tasks ++ [task]).filterMap Task.coming ++ _ <+~ _
      rw [htasks, List.filterMap_append, List.append_assoc]
      refine ((List.Sublist.refl _).append (hone.append hcalmer.ids)).subperm.trans ?_
      exact List.perm_middle.subperm
    · have ht : t ∈ st₁.tasks ++ [task] := ht
      rw [htasks] at ht
      rcases List.mem_append.mp ht with ht | ht
      · exact .inl ht
      · exact absurd hc (List.mem_singleton.mp ht ▸ hclose)
  have hset : ∀ strict, Calmer st { st with
      starts := st.starts + 1, stopAsked := false, strictWs := strict } :=
    fun _ => .of_eq rfl rfl rfl
  simp only [State.start]
  split
  · exact hadd ((hset p.strictWs).trans (.stopAll .restart (.start (st.starts + 1) p))) rfl rfl
      (.inr rfl) id
  · exact hadd ((hset st.strictWs).trans (.stopAll .startError .done)) rfl rfl (.inl rfl) id

theorem step_sockets {l : Label} (hl : ∀ n bytes amount, l ≠ .chunk n bytes amount)
    (hstep : st.step l = some st') : SocketStep st l st' ∧ Makes st st' := by
  have haside : ∀ {l st'}, st.renews l = false → Aside st st' →
      SocketStep st l st' ∧ Makes st st' :=
    fun hquiet h => ⟨.calm hquiet h.calmer, makes_of_aside h⟩
  cases step_takes hstep with
  | start => exact step_start _
  | stop => exact haside rfl (.stopAllNow .refl .refl _)
  | @resume i r _ hstep =>
      obtain ⟨task, st₁, next, hi, hres, rfl⟩ := step_resume hstep
      cases task with
      | message m =>
          injection hres with hres
          injection hres with hst₁ hnext
          have haside : Aside st st₁ := hst₁ ▸ .handleServerTextMessage m
          have hmakes := makes_of_aside haside
          rw [← hnext]
          refine ⟨.calm ?_ { haside.calmer with }, ?_, fun t ht hclose => ?_⟩
          · rw [renews, hi]
            rfl
          · refine hmakes.ids.imp (And.imp_left fun hids => ?_) (And.imp_left fun hids => ?_)
            all_goals
              refine List.Subperm.trans (List.Sublist.subperm ?_) hids
              exact ((List.eraseIdx_sublist st₁.tasks i).filterMap Task.coming).append_right _
          · exact hmakes.between t (List.mem_of_mem_eraseIdx ht) hclose
      | start n p w =>
          have hsame : SameCalls st st₁ := .resumeStart hres
          exact @step_turn st i r _ (st₁, next) hi (.resumeStart hres) hsame
      | stop began reason w after =>
          injection hres with hres
          have hsame : SameCalls st (st.resumeStop began reason after r w).1 := .resumeStop ..
          have hturn : Turn st (.stop began reason w after)
              (st.resumeStop began reason after r w) := .resumeStop began reason after r w
          rw [hres] at hsame hturn
          exact @step_turn st i r _ (st₁, next) hi hturn hsame
  | @socketOpen k hk =>
      refine ⟨.opens rfl hk rfl, .inl ⟨?_, rfl⟩, fun t ht _ => .inl ht⟩
      show st.tasks.filterMap Task.coming ++ (setReady k .opened st.sockets).map Prod.fst <+~ _
      rw [map_fst_setReady]
      exact List.Subperm.refl _
  | socketClose => exact haside rfl (.onclose _ _)
  | socketError => exact haside rfl (.onerror _)
  | @connectTimeout k _ =>
      let off : State := { st with connectTimer := none }
      have hoff : Calmer st ((off.send .wsError).close k) :=
        (Calmer.of_eq rfl rfl rfl : Calmer st (off.send .wsError)).trans (.close k)
      have hsame : SameCalls st ((off.send .wsError).close k) := ⟨rfl, rfl, rfl⟩
      exact haside rfl (.of_same (hoff.trans (.settle k false)) (hsame.trans (.settle k false)))
  | handshakeTimeout => exact haside rfl (.of_same (.settle _ false) (.settle _ false))
  | @message k m _ =>
      refine haside rfl ⟨.of_eq rfl rfl rfl, rfl, [.message m], rfl, fun t ht => ?_⟩
      rw [List.mem_singleton.mp ht]
      exact ⟨rfl, id⟩
  | chunk => exact absurd rfl (hl _ _ _)
  | trackEnded => exact haside rfl (.stopAllNow (.send _) (.send _) _)
  | windowError => exact haside rfl (.stopAllNow (.send _) (.send _) _)

/-- No two sockets have one number, and the flag is off where a socket is made and while
it connects. -/
structure Apart (st : State) : Prop where
  nodup : st.ids.Nodup
  counted : ∀ k ∈ st.ids, k ≤ st.starts
  connecting : ∀ k, st.ws = some k → (k, .connecting) ∈ st.sockets →
    st.wsBackpressureActive = false
  between : ∀ task ∈ st.tasks, task.AtCloseWs → st.wsBackpressureActive = false

namespace Apart

theorem init : Apart .init where
  nodup := List.nodup_nil
  counted _ hk := absurd hk List.not_mem_nil
  connecting _ _ hk := absurd hk List.not_mem_nil
  between _ ht := absurd ht List.not_mem_nil

theorem ids_of_makes (h : Apart st) (hmakes : Makes st st') :
    st'.ids.Nodup ∧ ∀ k ∈ st'.ids, k ≤ st'.starts := by
  have hsub : ∀ {ks ks' : List Nat}, ks' <+~ ks → ks.Nodup → ks'.Nodup := by
    intro ks ks' hks hnodup
    obtain ⟨l, hperm, hl⟩ := hks
    exact hperm.nodup_iff.mp (hl.nodup hnodup)
  rcases hmakes.ids with ⟨hids, hstarts⟩ | ⟨hids, hstarts⟩
  · exact ⟨hsub hids h.nodup, fun k hk => hstarts ▸ h.counted k (hids.subset hk)⟩
  · have hnew : st.starts + 1 ∉ st.ids := fun hk => absurd (h.counted _ hk) (Nat.not_succ_le_self _)
    refine ⟨hsub hids (List.nodup_cons.mpr ⟨hnew, h.nodup⟩), fun k hk => ?_⟩
    rw [hstarts]
    rcases List.mem_cons.mp (hids.subset hk) with rfl | hk
    · exact Nat.le_refl _
    · exact Nat.le_succ_of_le (h.counted k hk)

/-- One number stands for one socket. -/
theorem ready_unique (h : Apart st) {k : Nat} {r r' : ReadyState} (hr : (k, r) ∈ st.sockets)
    (hr' : (k, r') ∈ st.sockets) : r = r' := by
  have hsockets : (st.sockets.map Prod.fst).Nodup := (List.nodup_append.mp h.nodup).2.1
  exact congrArg Prod.snd (List.inj_on_of_nodup_map hsockets hr hr' rfl)

/-- A socket is not there before it is made. -/
theorem not_mem_of_coming (h : Apart st) {task : Task} (htask : task ∈ st.tasks) {n : Nat}
    (hn : task.coming = some n) (r : ReadyState) : (n, r) ∉ st.sockets := by
  intro hmem
  have hcoming : n ∈ st.tasks.filterMap Task.coming := List.mem_filterMap.mpr ⟨task, htask, hn⟩
  exact (List.nodup_append.mp h.nodup).2.2 n hcoming n (List.mem_map.mpr ⟨_, hmem, rfl⟩) rfl

theorem step {l : Label} (h : Apart st) (hl : ∀ n bytes amount, l ≠ .chunk n bytes amount)
    (hstep : st.step l = some st') : Apart st' := by
  obtain ⟨hsocket, hmakes⟩ := step_sockets hl hstep
  obtain ⟨hnodup, hcounted⟩ := h.ids_of_makes hmakes
  have hoff : st'.wsBackpressureActive = false → Apart st' :=
    fun hoff => ⟨hnodup, hcounted, fun _ _ _ => hoff, fun _ _ _ => hoff⟩
  cases hsocket with
  | calm quiet calmer =>
      rcases calmer.flag with ⟨hflag, hws⟩ | ⟨hflag, -⟩
      · refine ⟨hnodup, hcounted, fun k hk hmem => ?_, fun t ht hclose => ?_⟩
        · have hmem' := (calmer.ready k _ hmem).resolve_left ReadyState.noConfusion
          exact hflag.trans (h.connecting k (hws ▸ hk) hmem')
        · exact (hmakes.between t ht hclose).elim
            (fun hold => hflag.trans (h.between t hold hclose)) id
      · exact hoff hflag
  | ends ended calmer => exact hoff (calmer.flag.elim And.left And.left)
  | connects quiet coming flag ws sockets => exact hoff (flag.trans (h.between _ coming rfl))
  | opens hl hk hst' =>
      subst hst'
      refine ⟨hnodup, hcounted, fun j hj hmem => ?_, fun t ht hclose => h.between t ht hclose⟩
      rcases mem_setReady_iff hmem with ⟨-, hready⟩ | ⟨-, hmem⟩
      · cases hready
      · exact h.connecting j hj hmem

end Apart

end State

end VTranser.Offscreen

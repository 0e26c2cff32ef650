import VTranser.Proofs.Handler
import VTranser.Translator.Connection

/-!
# What goes through the lock

The lock changes nothing of what the coroutines do: a run of a connection is a run of its
handler (`run_handler`), in which some interleavings are ruled out. And it changes nothing of
the order: what was written, followed by what waits for the lock, is what the handler sent
(`sent_of_run`). So what is proved of the messages that a handler sends, in this order, is so of
those that are written.
-/

namespace VTranser.Translator

open Run

section

variable {σ : Type} {cfg : HandlerConfig σ}

/-- The new sends of a step. A commit or a delta is of a worker that has something to send. -/
theorem Handler.step_called {h h' : Handler σ} {l : Handler.Label}
    (hstep : Handler.step cfg h l = some h') :
    ∃ new, h'.sent = h.sent ++ new ∧
      ∀ o ∈ new, o.out.IsDraft ∨ o.epoch = h'.epoch ∧ h.commitWorker ≠ .idle := by
  have hbeside : ∀ {h₁ : Handler σ} {passed}, Beside h₁ passed h' → h₁.sent = h.sent →
      ∃ new, h'.sent = h.sent ++ new ∧
        ∀ o ∈ new, o.out.IsDraft ∨ o.epoch = h'.epoch ∧ h.commitWorker ≠ .idle := by
    intro h₁ passed hb hsent
    obtain ⟨drafts, hdrafts, hall⟩ := hb.sent
    exact ⟨drafts, by rw [hdrafts, hsent], fun o ho => .inl (hall o ho)⟩
  have hemit : ∀ todo, h.commitWorker ≠ .idle → h' = emitCommits todo h →
      ∃ new, h'.sent = h.sent ++ new ∧
        ∀ o ∈ new, o.out.IsDraft ∨ o.epoch = h'.epoch ∧ h.commitWorker ≠ .idle := by
    intro todo hbusy heq
    rcases emitCommits_cases todo h with hidle | ⟨seg, vi, rest, -, hsend⟩
    · exact ⟨[], by rw [heq, hidle, List.append_nil], fun _ ho => absurd ho List.not_mem_nil⟩
    · rw [heq, hsend]
      refine ⟨[_], rfl, fun o ho => .inr ⟨?_, hbusy⟩⟩
      rw [List.mem_singleton.mp ho]
      rfl
  cases step_effect hstep with
  | beside _ hb => exact hbeside hb rfl
  | released hb => exact hbeside hb rfl
  | updated _ _ hb => exact hbeside hb rfl
  | reset _ hbegins _ hb => exact hbeside hb hbegins.sent
  | baseline _ hbegins _ _ _ hb => exact hbeside hb hbegins.sent
  | commitTake => exact ⟨[], (List.append_nil _).symm, fun _ ho => absurd ho List.not_mem_nil⟩
  | commitFailed => exact ⟨[], (List.append_nil _).symm, fun _ ho => absurd ho List.not_mem_nil⟩
  | commitTranslated hworker => exact hemit _ (by rw [hworker]; exact CommitWorker.noConfusion) rfl
  | deltaSent _ hworker =>
      have hbusy : h.commitWorker ≠ .idle := by
        rw [hworker]
        exact CommitWorker.noConfusion
      refine ⟨[_], rfl, fun o ho => .inr ⟨?_, hbusy⟩⟩
      rw [List.mem_singleton.mp ho]
      rfl
  | @commitsGoOn rest hworker =>
      refine hemit rest ?_ rfl
      rcases hworker with hworker | ⟨-, app, seg, seq, hworker⟩
      · rw [hworker]
        exact CommitWorker.noConfusion
      · rw [hworker]
        exact CommitWorker.noConfusion

namespace Connection

variable {c c' : Connection σ} {l : Label}

/-- The step of the handler in a step. -/
def Label.handler? : Label → Option Handler.Label
  | .go l _ => some l
  | .notified _ | .grant => none

/-- Who can take which step, and what is then. -/
inductive Takes (cfg : HandlerConfig σ) (c : Connection σ) : Label → Connection σ → Prop
  | go {l notices h} : Handler.step cfg c.handler l = some h →
      Takes cfg c (.go l notices) (c.goOn l notices h)
  | notified {s n} : Takes cfg c (.notified s) (c.noticeOver cfg s n)
  | grant {lock} : c.lock.grant c.handler.epoch = some lock → Takes cfg c .grant { c with lock }

theorem step_takes (hstep : c.step cfg l = some c') : Takes cfg c l c' := by
  cases l with
  | go l notices =>
      simp only [step] at hstep
      split at hstep
      · obtain ⟨h, hh, rfl⟩ := Option.map_eq_some_iff.mp hstep
        exact .go hh
      · cases hstep
  | notified s =>
      simp only [step] at hstep
      split at hstep
      · obtain ⟨n, -, rfl⟩ := Option.map_eq_some_iff.mp hstep
        exact .notified
      · cases hstep
  | grant =>
      obtain ⟨lock, hlock, rfl⟩ := Option.map_eq_some_iff.mp hstep
      exact .grant hlock

/-! ## The functions of a step -/

/-- From `c` to `c'` the handler stays, and these are called for. -/
structure Calls (c : Connection σ) (new : List SentOut) (c' : Connection σ) : Prop where
  handler : c'.handler = c.handler
  outs : c'.lock.calls.filterMap Message.out? = c.lock.calls.filterMap Message.out? ++ new
  stamped : ∀ P : Message → Nat → Prop, (∀ n e, P (.notice n) e) →
    (∀ o ∈ new, P (.out o) c.handler.epoch) → c.lock.Stamped P c.handler.epoch →
      c'.lock.Stamped P c.handler.epoch

theorem Calls.refl (c : Connection σ) : Calls c [] c where
  handler := rfl
  outs := (List.append_nil _).symm
  stamped _ _ _ h := h

theorem Calls.trans {new new' : List SentOut} {c'' : Connection σ} (h : Calls c new c')
    (h' : Calls c' new' c'') : Calls c (new ++ new') c'' where
  handler := h'.handler.trans h.handler
  outs := by rw [h'.outs, h.outs, List.append_assoc]
  stamped P hnotice hnew hc := by
    have hepoch : c'.handler.epoch = c.handler.epoch := by rw [h.handler]
    have hfirst := h.stamped P hnotice (fun o ho => hnew o (List.mem_append_left _ ho)) hc
    have hsecond := h'.stamped P hnotice
    rw [hepoch] at hsecond
    exact hsecond (fun o ho => hnew o (List.mem_append_right _ ho)) hfirst

theorem calls_out (s : Sender) (o : SentOut) (c : Connection σ) :
    Calls c [o] (c.call s (.out o)) where
  handler := rfl
  outs := by rw [call, FairLock.calls_call, List.filterMap_append]; rfl
  stamped _ _ hnew hc := hc.call s (hnew o List.mem_cons_self)

theorem calls_notify (s : Sender) (n : Notice) (c : Connection σ) : Calls c [] (c.notify s n) where
  handler := rfl
  outs := by rw [notify, call, FairLock.calls_call, List.filterMap_append]; rfl
  stamped _ hnotice _ hc := hc.call s (hnotice n _)

theorem calls_outs (s : Sender) (new : List SentOut) (c : Connection σ) :
    Calls c new (new.foldl (fun c o => c.call s (.out o)) c) := by
  induction new generalizing c with
  | nil => exact .refl c
  | cons o new ih => exact (calls_out s o c).trans (ih _)

theorem calls_noticeOver (cfg : HandlerConfig σ) (s : Sender) (n : Notice) (c : Connection σ) :
    Calls c [] (c.noticeOver cfg s n) := by
  have hreleased : Calls c []
      { c with aside := c.aside.filter fun a => a.1 ≠ s, lock := c.lock.release } :=
    ⟨rfl, (List.append_nil _).symm, fun _ _ _ hc => hc.release⟩
  rw [noticeOver]
  split
  · exact hreleased.trans (calls_notify s .error _)
  · exact hreleased

/-- What a handler sends in its step is called for when the handler has gone on. -/
theorem calls_goOn (l : Handler.Label) {h : Handler σ} {new : List SentOut} (notices : Bool)
    (hsent : h.sent = c.handler.sent ++ new) :
    ∃ lock, (lock = c.lock ∨ lock = c.lock.release) ∧
      Calls { c with handler := h, lock } new (c.goOn l notices h) := by
  have hdrop : h.sent.drop c.handler.sent.length = new := by rw [hsent, List.drop_left]
  refine ⟨if l.isResume then c.lock.release else c.lock, ?_, ?_⟩
  · split
    · exact .inr rfl
    · exact .inl rfl
  · simp only [goOn, hdrop]
    generalize (if l.isResume then c.lock.release else c.lock) = lock
    have houts := calls_outs l.sender new { c with handler := h, lock }
    cases notices with
    | false => exact houts
    | true =>
        cases notice h l with
        | none => exact houts
        | some n =>
            have hall := houts.trans (calls_notify l.sender n _)
            rwa [List.append_nil] at hall

/-! ## Runs -/

/-- The lock keeps the order of the sends. -/
def InOrder (c : Connection σ) : Prop := c.lock.calls.filterMap Message.out? = c.handler.sent

theorem InOrder.step (h : c.InOrder) (hstep : c.step cfg l = some c') : c'.InOrder := by
  rw [InOrder] at h ⊢
  cases step_takes hstep with
  | @go l notices h₁ hh =>
      obtain ⟨new, hsent, -⟩ := Handler.step_called hh
      obtain ⟨lock, hlock, hcalls⟩ := calls_goOn l notices hsent
      have hsame : lock.calls = c.lock.calls := by
        rcases hlock with rfl | rfl
        · rfl
        · rfl
      rw [hcalls.handler, hcalls.outs, hsame, h, hsent]
  | @notified s n =>
      have hcalls := calls_noticeOver cfg s n c
      rw [hcalls.handler, hcalls.outs, List.append_nil, h]
  | grant hgrant => rw [FairLock.calls_grant hgrant, h]

/-- A run of the connection is a run of its handler. -/
theorem run_handler {ls : List Label} (h : run (step cfg) c ls = some c') :
    run (Handler.step cfg) c.handler (ls.filterMap Label.handler?) = some c'.handler := by
  induction ls generalizing c with
  | nil =>
      rw [← Option.some.inj h]
      rfl
  | cons l ls ih =>
      obtain ⟨c₁, hstep, hrun⟩ := run_cons_some.mp h
      have hrest := ih hrun
      cases step_takes hstep with
      | @go l notices h₁ hh =>
          obtain ⟨new, hsent, -⟩ := Handler.step_called hh
          obtain ⟨lock, -, hcalls⟩ := calls_goOn l notices hsent
          rw [hcalls.handler] at hrest
          exact run_cons_some.mpr ⟨h₁, hh, hrest⟩
      | @notified s n =>
          rw [(calls_noticeOver cfg s n c).handler] at hrest
          exact hrest
      | grant => exact hrest

/-- What was written is what the handler has sent, but for what waits for the lock. -/
theorem sent_of_run {seg : σ} {ls : List Label} (h : run (step cfg) (init seg) ls = some c) :
    c.handler.sent = c.lock.done.filterMap (fun m => m.1.out?) ++
      c.lock.waiting.filterMap fun p => p.2.out? := by
  have hinit : (init seg).InOrder := rfl
  have hfree : Guarded (step cfg) (fun _ _ => True) (init seg) ls :=
    Guarded.of_labels fun _ _ => trivial
  have horder : c.InOrder := run_guarded (fun _ _ _ h _ hstep => h.step hstep) hinit hfree h
  rw [← horder, FairLock.calls, List.filterMap_append, List.filterMap_map, List.filterMap_map]
  rfl

end Connection

end

end VTranser.Translator

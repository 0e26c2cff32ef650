import Mathlib.Data.Nat.Basic
import Mathlib.Order.MinMax
import VTranser.Proofs.Sockets

/-!
# The buffers of the sockets stay small

The flag is off when a socket opens and when a `stopAll` has ended, and from then on it
is what a trigger with the two watermarks makes of the amounts that are read. A chunk is
dropped when the trigger is on, and what is sent goes on top of less than the high
watermark.
-/

namespace VTranser.Offscreen

open State
open scoped List

/-! ## What the handler does -/

/-- The two watermarks. -/
def watermarks : Trigger Nat := ⟨resumeWatermark, highWatermark⟩

theorem next_watermarks {on : Bool} {amount : Nat} :
    watermarks.next on amount = true ↔
      (on = true ∨ highWatermark ≤ amount) ∧ resumeWatermark < amount := Trigger.next_iff

namespace State

variable {st : State}

theorem shouldDrop_eq (amount : Nat) :
    (st.shouldDropPcmByBackpressure amount).2 = watermarks.next st.wsBackpressureActive amount ∧
      (st.shouldDropPcmByBackpressure amount).1.wsBackpressureActive =
        watermarks.next st.wsBackpressureActive amount := by
  rw [shouldDropPcmByBackpressure]
  simp only [Bool.or_eq_true, decide_eq_true_eq]
  split
  · next hhigh =>
      split
      · next hlow =>
          have hon := next_watermarks.mpr ⟨hhigh, hlow⟩
          exact ⟨hon.symm, hon.symm⟩
      · next hlow =>
          have hoff : watermarks.next st.wsBackpressureActive amount = false :=
            Bool.eq_false_iff.mpr fun hon => hlow (next_watermarks.mp hon).2
          exact ⟨hoff.symm, hoff.symm⟩
  · next hhigh =>
      have hoff : watermarks.next st.wsBackpressureActive amount = false :=
        Bool.eq_false_iff.mpr fun hon => hhigh (next_watermarks.mp hon).1
      have hactive : st.wsBackpressureActive = false :=
        Bool.eq_false_iff.mpr fun hactive => hhigh (.inl hactive)
      exact ⟨hoff.symm, hactive.trans hoff.symm⟩

theorem resolveHandshakeIfAny_active :
    st.resolveHandshakeIfAny.wsBackpressureActive = st.wsBackpressureActive := by
  simp only [resolveHandshakeIfAny, settleHandshake, settle]
  repeat' split
  all_goals rfl

/-- A chunk on a socket that is ready is a reading. -/
theorem onChunk_active (n : Nat) (first : Bool) (bytes amount : Nat) :
    (st.onChunk n first bytes amount).wsBackpressureActive =
      if st.ready.isSome then watermarks.next st.wsBackpressureActive amount
      else st.wsBackpressureActive := by
  have hactive := (@shouldDrop_eq st amount).2
  rw [onChunk, ready]
  split
  · next hready =>
      have hws : st.ws.isSome := by
        simp only [Bool.and_eq_true, List.any_eq_true, decide_eq_true_eq] at hready
        obtain ⟨-, _, -, hws, -⟩ := hready
        rw [hws]
        rfl
      rw [if_pos hws]
      dsimp only
      split
      · exact hactive
      · split
        · exact hactive
        · rw [resolveHandshakeIfAny_active]
          exact hactive
  · exact (if_neg (by simp)).symm

theorem onChunk_sockets (n : Nat) (first : Bool) (bytes amount : Nat) :
    (st.onChunk n first bytes amount).sockets = st.sockets ∧
      (st.onChunk n first bytes amount).ws = st.ws := by
  have hdrop : (st.shouldDropPcmByBackpressure amount).1.sockets = st.sockets ∧
      (st.shouldDropPcmByBackpressure amount).1.ws = st.ws := by
    rw [shouldDropPcmByBackpressure]
    split
    · split <;> exact ⟨rfl, rfl⟩
    · exact ⟨rfl, rfl⟩
  have hresolve : ∀ st : State, st.resolveHandshakeIfAny.sockets = st.sockets ∧
      st.resolveHandshakeIfAny.ws = st.ws := by
    intro st
    simp only [resolveHandshakeIfAny, settleHandshake, settle]
    repeat' split
    all_goals exact ⟨rfl, rfl⟩
  rw [onChunk]
  split
  · dsimp only
    split
    · exact hdrop
    · split
      · exact hdrop
      · exact ⟨(hresolve _).1.trans hdrop.1, (hresolve _).2.trans hdrop.2⟩
  · exact ⟨rfl, rfl⟩

/-- What is ready is `ws`, and it is open. -/
theorem opened_of_ready {k : Nat} (h : st.ready = some k) :
    st.ws = some k ∧ (k, .opened) ∈ st.sockets := by
  rw [ready] at h
  split at h
  · next hready =>
      simp only [Bool.and_eq_true, List.any_eq_true, decide_eq_true_eq] at hready
      obtain ⟨-, ⟨j, r⟩, hmem, hws, hopen⟩ := hready
      have hj : j = k := Option.some.inj (hws.symm.trans h)
      have hr : r = .opened := hopen
      exact ⟨h, hj ▸ hr ▸ hmem⟩
  · cases h

/-- A chunk that finds a socket ready finds none that connects. -/
theorem Apart.onChunk (h : Apart st) (hclose : ∀ task ∈ st.tasks, ¬ task.AtCloseWs) (n : Nat)
    (first : Bool) (bytes amount : Nat) : Apart (st.onChunk n first bytes amount) := by
  have hsame : SameCalls st (st.onChunk n first bytes amount) := .onChunk ..
  obtain ⟨hsockets, hws⟩ := @onChunk_sockets st n first bytes amount
  have hids : (st.onChunk n first bytes amount).ids = st.ids := by
    rw [ids, hsame.tasks, hsockets, ids]
  refine ⟨hids ▸ h.nodup, fun k hk => ?_, fun k hk hmem => ?_, fun t ht hc => ?_⟩
  · rw [hsame.starts]
    exact h.counted k (hids ▸ hk)
  · rw [hsockets] at hmem
    rw [hws] at hk
    rw [onChunk_active]
    split
    · next hready =>
        obtain ⟨j, hj⟩ := Option.isSome_iff_exists.mp hready
        obtain ⟨hj, hopen⟩ := opened_of_ready hj
        cases Option.some.inj (hj.symm.trans hk)
        cases h.ready_unique hmem hopen
    · exact h.connecting k hk hmem
  · rw [hsame.tasks] at ht
    exact absurd hc (hclose t ht)

end State

namespace Sender

variable {s s' : Sender}

theorem fate_eq (s : Sender) :
    s.fate = match s.st.ready with
      | none => .notReady
      | some k =>
          if watermarks.next s.st.wsBackpressureActive s.amount then .dropped else .sent k := by
  have hdrop := (@State.shouldDrop_eq s.st s.amount).1
  cases hready : s.st.ready with
  | none => simp only [fate, hready]
  | some k => simp only [fate, hready, hdrop]

theorem fate_eq_notReady : s.fate = .notReady ↔ s.st.ready = none := by
  rw [fate_eq]
  split
  · next hready => exact iff_of_true rfl hready
  · next k hready =>
      refine iff_of_false ?_ (by simp [hready])
      split <;> exact fun h => by cases h

/-- What is sent goes on top of less than the high watermark. -/
theorem amount_lt_of_sent {k : Nat} (h : s.fate = .sent k) :
    s.bufferedAmount k < highWatermark := by
  rw [fate_eq] at h
  split at h
  · cases h
  · next j hready =>
      split at h
      · cases h
      · next hoff =>
          cases h
          have hamount : s.amount = s.bufferedAmount k := by
            rw [amount, (State.opened_of_ready hready).1]
            rfl
          rw [hamount, next_watermarks, not_and_or, not_or, not_le, not_lt] at hoff
          rcases hoff with ⟨-, hlt⟩ | hle
          · exact hlt
          · exact lt_of_le_of_lt hle (by decide)

/-- Which step is taken when, and what is then. -/
inductive Takes (s : Sender) : SenderLabel → Sender → Prop
  | chunk {n payload first} (h : s.st.worklets.lookup n = some first) :
      Takes s (.chunk n payload)
        (s.chunk payload (s.st.onChunk n first (byteLength payload) s.amount))
  | drain {k bytes} : Takes s (.drain k bytes) (s.setAmount k (s.bufferedAmount k - bytes))
  | socketOpen {k bytes st} (h : s.st.step (.socketOpen k) = some st) :
      Takes s (.socketOpen k bytes) ((s.goOn (.socketOpen k) st).setAmount k bytes)
  | other {l st} (hl : ∀ n bytes amount, l ≠ .chunk n bytes amount)
      (h : s.st.step l = some st) : Takes s (.other l) (s.goOn l st)

theorem step_takes {l : SenderLabel} (h : s.step l = some s') : Takes s l s' := by
  cases l with
  | chunk n payload =>
      obtain ⟨st, hst, rfl⟩ := Option.map_eq_some_iff.mp h
      obtain ⟨first, hlookup, rfl⟩ := Option.map_eq_some_iff.mp hst
      exact .chunk hlookup
  | drain k bytes => exact Option.some.inj h ▸ .drain
  | socketOpen k bytes =>
      obtain ⟨st, hst, rfl⟩ := Option.map_eq_some_iff.mp h
      exact .socketOpen hst
  | other l =>
      cases l with
      | chunk | socketOpen => cases h
      | _ =>
          simp only [Sender.step] at h
          obtain ⟨st, hst, rfl⟩ := Option.map_eq_some_iff.mp h
          exact .other (fun _ _ _ => by simp) hst

end Sender

/-! ## Runs -/

/-- The chunks and the first texts are not longer than so many bytes. -/
def SenderLabel.Small (texts bytes : Nat) : SenderLabel → Prop
  | .chunk _ payload => byteLength payload ≤ bytes
  | .socketOpen _ n => n ≤ texts
  | _ => True

instance (texts bytes : Nat) : DecidablePred (SenderLabel.Small texts bytes)
  | .chunk _ payload => inferInstanceAs (Decidable (byteLength payload ≤ bytes))
  | .socketOpen _ n => inferInstanceAs (Decidable (n ≤ texts))
  | .drain .. | .other _ => .isTrue trivial

namespace Sender

variable {s s' : Sender} {texts bytes : Nat} {l : SenderLabel}

/-- No chunk comes between `closeWs` and the new socket: `closeWs` awaits nothing that
takes a turn of its own. -/
def NotBetween (s : Sender) : SenderLabel → Prop
  | .chunk .. => ∀ task ∈ s.st.tasks, ¬ task.AtCloseWs
  | .drain .. | .socketOpen .. | .other _ => True

/-- No buffer is large, and while `ws` is open the flag is that of the trigger. -/
structure Steady (texts bytes : Nat) (s : Sender) : Prop where
  small : ∀ k, s.bufferedAmount k < max (texts + 1) (highWatermark + bytes)
  apart : s.st.Apart
  active : ∀ k, s.st.ws = some k → (k, .opened) ∈ s.st.sockets →
    s.st.wsBackpressureActive = watermarks.after s.readings

theorem Steady.setAmount (h : Steady texts bytes s) {k n : Nat}
    (hn : n < max (texts + 1) (highWatermark + bytes)) : Steady texts bytes (s.setAmount k n) := by
  refine ⟨fun j => ?_, h.apart, h.active⟩
  show (if j = k then n else s.bufferedAmount j) < _
  split
  · exact hn
  · exact h.small j

theorem Steady.goOn (h : Steady texts bytes s) {l : Label} {st : State}
    (hl : ∀ n bytes amount, l ≠ .chunk n bytes amount) (hstep : s.st.step l = some st) :
    Steady texts bytes (s.goOn l st) := by
  refine ⟨h.small, h.apart.step hl hstep, fun k hk hopen => ?_⟩
  have hk : st.ws = some k := hk
  have hopen : (k, .opened) ∈ st.sockets := hopen
  show st.wsBackpressureActive = watermarks.after (if s.st.renews l then [] else s.readings)
  cases (step_sockets hl hstep).1 with
  | calm quiet calmer =>
      rw [if_neg (Bool.eq_false_iff.mp quiet)]
      rcases calmer.flag with ⟨hflag, hws⟩ | ⟨-, hws⟩
      · have hold := (calmer.ready k _ hopen).resolve_left ReadyState.noConfusion
        exact hflag.trans (h.active k (hws ▸ hk) hold)
      · cases hws.symm.trans hk
  | ends ended calmer =>
      rw [if_pos ended]
      exact calmer.flag.elim And.left And.left
  | @connects n p quiet coming flag ws sockets =>
      cases Option.some.inj (ws.symm.trans hk)
      rw [sockets] at hopen
      rcases List.mem_cons.mp hopen with heq | hopen
      · cases heq
      · exact absurd hopen (h.apart.not_mem_of_coming coming rfl _)
  | @opens j heq hconnecting hst =>
      subst heq hst
      have hws : s.st.ws = some k := hk
      have hrenews : s.st.renews (.socketOpen j) = true ↔ s.st.ws = some j := decide_eq_true_iff
      show s.st.wsBackpressureActive = _
      by_cases hj : k = j
      · subst hj
        rw [if_pos (hrenews.mpr hws)]
        exact h.apart.connecting k hws hconnecting
      · have hne : s.st.ws ≠ some j := fun heq => hj (Option.some.inj (hws.symm.trans heq))
        rw [if_neg (mt hrenews.mp hne)]
        rcases mem_setReady_iff hopen with ⟨heq, -⟩ | ⟨-, hopen⟩
        · exact absurd heq hj
        · exact h.active k hws hopen

theorem Steady.deliver (h : Steady texts bytes s) {payload : List Int}
    (hpayload : byteLength payload ≤ bytes) : Steady texts bytes (s.deliver payload) := by
  rw [Sender.deliver]
  split
  · next k hfate =>
      have hlt := amount_lt_of_sent hfate
      exact h.setAmount (lt_max_of_lt_right (by omega))
  · exact h

theorem Steady.step (h : Steady texts bytes s) (hl : l.Small texts bytes) (hturn : s.NotBetween l)
    (hstep : s.step l = some s') : Steady texts bytes s' := by
  cases step_takes hstep with
  | @chunk n payload first _ =>
      refine ⟨(h.deliver hl).small, h.apart.onChunk hturn .., fun k hk hopen => ?_⟩
      obtain ⟨hsockets, hws⟩ := @State.onChunk_sockets s.st n first (byteLength payload) s.amount
      have hactive := h.active k (hws.symm.trans hk) (hsockets ▸ hopen)
      show (s.st.onChunk n first (byteLength payload) s.amount).wsBackpressureActive =
        watermarks.after (if s.fate = .notReady then s.readings else s.readings ++ [s.amount])
      rw [State.onChunk_active, hactive]
      by_cases hready : s.st.ready = none
      · rw [if_pos (fate_eq_notReady.mpr hready), if_neg (by simp [hready])]
      · rw [if_neg (mt fate_eq_notReady.mp hready), Trigger.after_concat,
          if_pos (Option.isSome_iff_ne_none.mpr hready)]
  | @drain k n =>
      have hsmall := h.small k
      exact h.setAmount (by omega)
  | @socketOpen k n st hst =>
      have hle : n ≤ texts := hl
      exact (h.goOn (fun _ _ _ => Label.noConfusion) hst).setAmount (lt_max_of_lt_left (by omega))
  | other hother hst => exact h.goOn hother hst

instance : DecidablePred Task.AtCloseWs
  | .start _ _ wait => inferInstanceAs (Decidable (wait = .closeWs))
  | .stop .. | .message _ => .isFalse id

instance (s : Sender) : DecidablePred s.NotBetween
  | .chunk .. => inferInstanceAs (Decidable (∀ task ∈ s.st.tasks, ¬ task.AtCloseWs))
  | .drain .. | .socketOpen .. | .other _ => .isTrue trivial

end Sender

end VTranser.Offscreen

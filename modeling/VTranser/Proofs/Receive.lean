import VTranser.Lib.Run
import VTranser.Server.Receive

/-!
# What a text message can do

`TextEffect` is the inversion of the text branch of the receive loop, `AudioEffect`
that of a step of the session: each way through it, with the tests that led there.
From them follows when text messages do a session no harm. The fields of a message are
read outside any `try`, but for the audio itself, so a value of another shape than
expected ends the loop by an exception; and an audio message that cannot be read has
started the session by then.
-/

namespace VTranser.Server

open Run

variable {α : Type*} {cfg : AudioConfig α}

/-- Silence, in frames of two samples. -/
def silence : AudioConfig Unit := { defaultAudio silentLib with hop := 2, hop_pos := by decide }

/-- The ways through `onText`. -/
inductive TextEffect (cfg : AudioConfig α) (s : AudioSession α) (now : Int) :
    Option PyJson → AudioSession α → Prop
  | notJson : TextEffect cfg s now none s
  | noDict {obj : PyJson} (h : obj.items? = none) :
      TextEffect cfg s now (some obj) (s.leave .raised)
  | noEvent {obj : PyJson} {items : List (PyStr × PyJson)} (hi : obj.items? = some items)
      (h : AudioSession.eventOf items = none) : TextEffect cfg s now (some obj) (s.leave .raised)
  | start {obj : PyJson} {items : List (PyStr × PyJson)} (hi : obj.items? = some items)
      (h : AudioSession.eventOf items = some "start".toList) :
      TextEffect cfg s now (some obj) (s.startEvent items)
  | stop {obj : PyJson} {items : List (PyStr × PyJson)} {event : PyStr}
      (hi : obj.items? = some items) (h : AudioSession.eventOf items = some event)
      (hstart : event ≠ "start".toList) (hstop : event ∈ AudioSession.stopEvents) :
      TextEffect cfg s now (some obj) (s.leave .stop)
  | audio {obj : PyJson} {items : List (PyStr × PyJson)} {event : PyStr}
      (hi : obj.items? = some items) (h : AudioSession.eventOf items = some event)
      (hstart : event ≠ "start".toList) (hstop : event ∉ AudioSession.stopEvents)
      (haudio : (getKey items "audio").isSome) (hs : s.sessionStarted) :
      TextEffect cfg s now (some obj) (s.jsonAudio cfg items now)
  | autoStart {obj : PyJson} {items : List (PyStr × PyJson)} {event : PyStr}
      (hi : obj.items? = some items) (h : AudioSession.eventOf items = some event)
      (hstart : event ≠ "start".toList) (hstop : event ∉ AudioSession.stopEvents)
      (haudio : (getKey items "audio").isSome) (hs : ¬ s.sessionStarted) (hauto : cfg.autoStart) :
      TextEffect cfg s now (some obj) { s with sessionStarted := true, recv := .ackAudio items }
  | notStarted {obj : PyJson} {items : List (PyStr × PyJson)} {event : PyStr}
      (hi : obj.items? = some items) (h : AudioSession.eventOf items = some event)
      (hstart : event ≠ "start".toList) (hstop : event ∉ AudioSession.stopEvents)
      (haudio : (getKey items "audio").isSome) (hs : ¬ s.sessionStarted)
      (hauto : ¬ cfg.autoStart) : TextEffect cfg s now (some obj) s
  | other {obj : PyJson} {items : List (PyStr × PyJson)} {event : PyStr}
      (hi : obj.items? = some items) (h : AudioSession.eventOf items = some event)
      (hstart : event ≠ "start".toList) (hstop : event ∉ AudioSession.stopEvents)
      (haudio : ¬ (getKey items "audio").isSome) : TextEffect cfg s now (some obj) s

/-- The ways through `step`. -/
inductive AudioEffect (cfg : AudioConfig α) (s : AudioSession α) :
    AudioEvent → AudioSession α → Prop
  | binary {raw : List UInt8} {now : Int} :
      AudioEffect cfg s (.binary raw now) (s.onBinary cfg raw now)
  | text {obj : Option PyJson} {now : Int} {s' : AudioSession α}
      (h : TextEffect cfg s now obj s') : AudioEffect cfg s (.text obj now) s'
  | idleTimeout : AudioEffect cfg s .idleTimeout { s with recv := .idleSend }
  | closed : AudioEffect cfg s .closed (s.leave .closed)
  | recvError : AudioEffect cfg s .recvError (s.leave .recvError)
  /-- The receive loop goes on, and that is all. -/
  | goOn {now : Int} (wait : RecvWait) : AudioEffect cfg s (.goOn now) { s with recv := wait }
  | ackBinary {now : Int} (raw : List UInt8) :
      AudioEffect cfg s (.goOn now) (s.binaryAudio cfg raw now)
  | ackAudio {now : Int} (items : List (PyStr × PyJson)) :
      AudioEffect cfg s (.goOn now) (s.jsonAudio cfg items now)
  | put {now : Int} (item : AudioItem) (hroom : ¬ s.q.Full cfg) :
      AudioEffect cfg s (.goOn now) { s with recv := .recv, q := s.q.put cfg item }
  | idleSend {now : Int} (hrecv : s.recv = .idleSend) :
      AudioEffect cfg s (.goOn now) (s.leave .idle)
  | putEnd {now : Int} (hroom : ¬ s.q.Full cfg) :
      AudioEffect cfg s (.goOn now) { s with recv := .joinWorker, q := s.q.putEnd }
  | joinTimeout (hover : s.worker.over = false) :
      AudioEffect cfg s .joinTimeout { s with recv := .left, worker := .cancelled }
  | takeEnd {status : Bool} {queue : List (Option AudioItem)} (hget : s.worker = .get)
      (hq : s.q.queue = none :: queue) :
      AudioEffect cfg s (.work status) ({ s with q := s.q.get }.nextDrain cfg)
  | takeItem {status : Bool} {item : AudioItem} {queue : List (Option AudioItem)}
      (hget : s.worker = .get) (hq : s.q.queue = some item :: queue) :
      AudioEffect cfg s (.work status) ({ s with q := s.q.get }.takeItem cfg item status)
  | frame {status : Bool} (hw : s.worker = .frame) :
      AudioEffect cfg s (.work status) (s.nextFrame cfg status)
  | status {status : Bool} (hw : s.worker = .status) :
      AudioEffect cfg s (.work status) { s with worker := .get }
  | drain {status : Bool} (hw : s.worker = .drain) :
      AudioEffect cfg s (.work status) (s.nextDrain cfg)
  | silence {status : Bool} (frames : Nat) (hw : s.worker = .silence frames) :
      AudioEffect cfg s (.work status) (s.nextSilence frames)

namespace AudioSession

variable {s s' : AudioSession α}

theorem onText_effect (s : AudioSession α) (obj : Option PyJson) (now : Int) :
    TextEffect cfg s now obj (s.onText cfg obj now) := by
  cases obj with
  | none => exact .notJson
  | some obj =>
      rw [onText]
      split
      · next hi => exact .noDict hi
      · next items hi =>
          split
          · next h => exact .noEvent hi h
          · next event h =>
              split
              · next hstart =>
                  subst hstart
                  exact .start hi h
              · next hstart =>
                  split
                  · next hstop => exact .stop hi h hstart hstop
                  · next hstop =>
                      split
                      · next haudio =>
                          split
                          · next hs => exact .audio hi h hstart hstop haudio hs
                          · next hs =>
                              split
                              · next hauto => exact .autoStart hi h hstart hstop haudio hs hauto
                              · next hauto => exact .notStarted hi h hstart hstop haudio hs hauto
                      · next haudio => exact .other hi h hstart hstop haudio

theorem resumeRecv_effect {now : Int} (h : s.resumeRecv cfg now = some s') :
    AudioEffect cfg s (.goOn now) s' := by
  rw [resumeRecv] at h
  split at h
  · injection h with h
    exact h ▸ .goOn .recv
  · next raw _ =>
      injection h with h
      exact h ▸ .ackBinary raw
  · next items _ =>
      injection h with h
      exact h ▸ .ackAudio items
  · next item _ =>
      split at h
      · cases h
      · next hroom =>
          injection h with h
          exact h ▸ .put item hroom
  · next hrecv =>
      injection h with h
      exact h ▸ .idleSend hrecv
  · injection h with h
    exact h ▸ .goOn .putEnd
  · split at h
    · cases h
    · next hroom =>
        injection h with h
        exact h ▸ .putEnd hroom
  · split at h
    · injection h with h
      exact h ▸ .goOn .left
    · cases h
  · cases h

theorem work_effect {status : Bool} (h : s.work cfg status = some s') :
    AudioEffect cfg s (.work status) s' := by
  rw [work] at h
  split at h
  · next hget =>
      split at h
      · cases h
      · next hq =>
          injection h with h
          exact h ▸ .takeEnd hget hq
      · next hq =>
          injection h with h
          exact h ▸ .takeItem hget hq
  · next hw =>
      injection h with h
      exact h ▸ .frame hw
  · next hw =>
      injection h with h
      exact h ▸ .status hw
  · next hw =>
      injection h with h
      exact h ▸ .drain hw
  · next frames hw =>
      injection h with h
      exact h ▸ .silence frames hw
  · cases h

theorem step_effect {e : AudioEvent} (h : s.step cfg e = some s') : AudioEffect cfg s e s' := by
  cases e with
  | goOn now => exact resumeRecv_effect h
  | work status => exact work_effect h
  | joinTimeout =>
      rw [step] at h
      split at h
      · split at h
        · cases h
        · next hover =>
            injection h with h
            exact h ▸ .joinTimeout (by simpa using hover)
      · cases h
  | binary raw now =>
      rw [step] at h
      split at h
      · injection h with h
        exact h ▸ .binary
      · cases h
  | text obj now =>
      rw [step] at h
      split at h
      · injection h with h
        exact h ▸ .text (onText_effect s obj now)
      · cases h
  | idleTimeout =>
      rw [step] at h
      split at h
      · injection h with h
        exact h ▸ .idleTimeout
      · cases h
  | closed =>
      rw [step] at h
      split at h
      · injection h with h
        exact h ▸ .closed
      · cases h
  | recvError =>
      rw [step] at h
      split at h
      · injection h with h
        exact h ▸ .recvError
      · cases h

end AudioSession

/-! ## Messages that do no harm -/

section Messages

variable (cfg) (s : AudioSession α)

/-- A message the receive loop can use: a start event with a rate, an event that ends
the session, or audio it can read, in a session that is started or starts by itself. -/
def Usable : Option PyJson → Prop
  | none => False
  | some obj => ∃ items event, obj.items? = some items ∧ AudioSession.eventOf items = some event ∧
      if event = "start".toList then (s.startRate items).isSome = true
      else event ∈ AudioSession.stopEvents ∨ (getKey items "audio").isSome ∧
        (s.sessionStarted ∨ cfg.autoStart) ∧ (s.audioFields items).isSome = true

/-- What is well formed about a text: as JSON it is an object, whose event is missing,
false or a string; a start event has no rate, or one that `int` takes; audio that would
start the session has bytes in base 64, and no rate or one that `int` takes. -/
def WellFormed : Option PyJson → Prop
  | none => True
  | some obj => ∃ items event, obj.items? = some items ∧ AudioSession.eventOf items = some event ∧
      if event = "start".toList then (s.startRate items).isSome = true
      else event ∉ AudioSession.stopEvents → (getKey items "audio").isSome →
        ¬ s.sessionStarted → cfg.autoStart → (s.audioFields items).isSome = true

/-- What the loop knows of the session, and the queue. -/
def inputs : Int × Option Dtype × Bool × AudioQueue :=
  (s.sessionSrcSr, s.sessionForceDtype, s.sessionStarted, s.q)

/-- What may end the loop: an event that says so, the timeout, and the connection. -/
def MayEnd : AudioEvent → Prop
  | .text obj _ => ∃ items, obj.bind PyJson.items? = some items ∧
      ∃ event ∈ AudioSession.stopEvents, AudioSession.eventOf items = some event
  | .goOn _ => s.recv = .idleSend
  | .closed | .recvError => True
  | _ => False

/-- A step does not raise, ends the loop only when it may, and leaves all as it is for
a message that is of no use. -/
def Unharmed (e : AudioEvent) : Prop :=
  ∀ s', s.step cfg e = some s' →
    s'.exit ≠ some .raised ∧ (s'.exit ≠ s.exit → MayEnd s e) ∧
      ∀ obj now, e = .text obj now → ¬ Usable cfg s obj → inputs s' = inputs s

/-- A text that comes is well formed. -/
def Proper : AudioEvent → Prop
  | .text obj _ => WellFormed cfg s obj
  | _ => True

end Messages

namespace AudioSession

variable {s s' : AudioSession α}

theorem awaitPut_exit (item : AudioItem) (s : AudioSession α) :
    (s.awaitPut cfg item).exit = s.exit := by
  rw [awaitPut]
  split <;> rfl

theorem jsonAudio_exit (items : List (PyStr × PyJson)) (now : Int) (s : AudioSession α) :
    (s.jsonAudio cfg items now).exit = s.exit := by
  rw [jsonAudio]
  split
  · exact awaitPut_exit ..
  · rfl

/-- Audio that cannot be read changes nothing, once the session is started. -/
theorem inputs_jsonAudio {items : List (PyStr × PyJson)} (h : ¬ (s.audioFields items).isSome)
    (now : Int) : inputs (s.jsonAudio cfg items now) = inputs s := by
  rw [jsonAudio]
  split
  · next hsome => simp [hsome] at h
  · rfl

@[simp] theorem nextFrame_exit (status : Bool) (s : AudioSession α) :
    (s.nextFrame cfg status).exit = s.exit := by
  rw [nextFrame]
  split <;> rfl

@[simp] theorem nextSilence_exit (frames : Nat) (s : AudioSession α) :
    (s.nextSilence frames).exit = s.exit := by
  cases frames <;> rfl

@[simp] theorem nextDrain_exit (s : AudioSession α) : (s.nextDrain cfg).exit = s.exit := by
  rw [nextDrain]
  split
  · rfl
  · exact nextSilence_exit ..

@[simp] theorem takeItem_exit (item : AudioItem) (status : Bool) (s : AudioSession α) :
    (s.takeItem cfg item status).exit = s.exit := by
  rw [takeItem]
  split
  · rfl
  · exact nextFrame_exit ..

theorem onBinary_exit (raw : List UInt8) (now : Int) (s : AudioSession α) :
    (s.onBinary cfg raw now).exit = s.exit := by
  rw [onBinary]
  split
  · exact awaitPut_exit ..
  · split <;> rfl

section Fields

variable {obj : PyJson} {items : List (PyStr × PyJson)} {event : PyStr}

/-- With the items and the event of a message known. -/
theorem fields_iff (hi : obj.items? = some items) (he : eventOf items = some event)
    (p : List (PyStr × PyJson) → PyStr → Prop) :
    (∃ items event, obj.items? = some items ∧ eventOf items = some event ∧ p items event) ↔
      p items event := by
  refine ⟨?_, fun h => ⟨items, event, hi, he, h⟩⟩
  rintro ⟨items', event', hi', he', h⟩
  obtain rfl : items = items' := Option.some.inj (hi.symm.trans hi')
  obtain rfl : event = event' := Option.some.inj (he.symm.trans he')
  exact h

theorem usable_iff (hi : obj.items? = some items) (he : eventOf items = some event) :
    Usable cfg s (some obj) ↔
      if event = "start".toList then (s.startRate items).isSome = true
      else event ∈ stopEvents ∨ (getKey items "audio").isSome ∧
        (s.sessionStarted ∨ cfg.autoStart) ∧ (s.audioFields items).isSome = true :=
  fields_iff hi he _

theorem wellFormed_iff (hi : obj.items? = some items) (he : eventOf items = some event) :
    WellFormed cfg s (some obj) ↔
      if event = "start".toList then (s.startRate items).isSome = true
      else event ∉ stopEvents → (getKey items "audio").isSome →
        ¬ s.sessionStarted → cfg.autoStart → (s.audioFields items).isSome = true :=
  fields_iff hi he _

end Fields

/-- No other step can do harm. -/
theorem unharmed_other {e : AudioEvent} (hs : s.exit ≠ some .raised)
    (he : ∀ obj now, e ≠ .text obj now) : Unharmed cfg s e := by
  intro s' h
  suffices hexit : s'.exit = s.exit ∨ MayEnd s e ∧ s'.exit ≠ some .raised by
    rcases hexit with hexit | ⟨hend, hexit⟩
    · exact ⟨hexit ▸ hs, fun hne => absurd hexit hne, fun obj now h => absurd h (he obj now)⟩
    · exact ⟨hexit, fun _ => hend, fun obj now h => absurd h (he obj now)⟩
  cases step_effect h with
  | text => exact absurd rfl (he _ _)
  | binary => exact .inl (onBinary_exit ..)
  | idleTimeout | goOn | put | putEnd | joinTimeout | status => exact .inl rfl
  | closed | recvError => exact .inr ⟨trivial, nofun⟩
  | ackBinary => exact .inl (awaitPut_exit ..)
  | ackAudio => exact .inl (jsonAudio_exit ..)
  | idleSend hrecv => exact .inr ⟨hrecv, nofun⟩
  | takeEnd | drain => exact .inl (nextDrain_exit _)
  | takeItem => exact .inl (takeItem_exit ..)
  | frame => exact .inl (nextFrame_exit ..)
  | silence => exact .inl (nextSilence_exit ..)

/-- What is to show of the one state after a text. -/
theorem unharmed_text {obj : Option PyJson} {now : Int}
    (h : s.step cfg (.text obj now) = some s') :
    Unharmed cfg s (.text obj now) ↔ s'.exit ≠ some .raised ∧
      (s'.exit ≠ s.exit → MayEnd s (.text obj now)) ∧
        (¬ Usable cfg s obj → inputs s' = inputs s) := by
  constructor
  · intro hun
    obtain ⟨hraise, hend, hsame⟩ := hun s' h
    exact ⟨hraise, hend, hsame obj now rfl⟩
  · rintro ⟨hraise, hend, hsame⟩ s'' h'
    rw [h] at h'
    injection h' with h'
    subst h'
    refine ⟨hraise, hend, fun obj' now' heq => ?_⟩
    injection heq with hobj
    exact hobj ▸ hsame

theorem step_text_effect {obj : Option PyJson} {now : Int}
    (h : s.step cfg (.text obj now) = some s') : TextEffect cfg s now obj s' := by
  cases step_effect h with
  | text heffect => exact heffect

/-- A text does no harm exactly when it is well formed. -/
theorem unharmed_text_iff {obj : Option PyJson} {now : Int} (hs : s.exit ≠ some .raised)
    (h : s.step cfg (.text obj now) = some s') :
    Unharmed cfg s (.text obj now) ↔ WellFormed cfg s obj := by
  rw [unharmed_text h]
  cases step_text_effect h with
  | notJson => exact ⟨fun _ => trivial, fun _ => ⟨hs, fun hne => absurd rfl hne, fun _ => rfl⟩⟩
  | noDict hi =>
      refine ⟨fun hun => absurd rfl hun.1, ?_⟩
      rintro ⟨items, event, hi', -⟩
      rw [hi] at hi'
      cases hi'
  | noEvent hi he =>
      refine ⟨fun hun => absurd rfl hun.1, ?_⟩
      rintro ⟨items, event, hi', he', -⟩
      obtain rfl := Option.some.inj (hi.symm.trans hi')
      rw [he] at he'
      cases he'
  | @start obj items hi he =>
      rw [wellFormed_iff hi he, usable_iff hi he, if_pos rfl, if_pos rfl, startEvent]
      cases hrate : s.startRate items with
      | none => exact ⟨fun hun => absurd rfl hun.1, nofun⟩
      | some rate =>
          exact ⟨fun _ => rfl, fun _ => ⟨hs, fun hne => absurd rfl hne, fun hno => absurd rfl hno⟩⟩
  | @stop obj items event hi he hstart hstop =>
      rw [wellFormed_iff hi he, usable_iff hi he, if_neg hstart, if_neg hstart]
      refine ⟨fun _ hno => absurd hstop hno, fun _ => ⟨nofun, fun _ => ?_, fun hno => ?_⟩⟩
      · exact ⟨items, hi, event, hstop, he⟩
      · exact absurd (.inl hstop) hno
  | @audio obj items event hi he hstart hstop haudio hstarted =>
      rw [wellFormed_iff hi he, usable_iff hi he, if_neg hstart, if_neg hstart, jsonAudio_exit]
      refine ⟨fun _ _ _ hno => absurd hstarted hno,
        fun _ => ⟨hs, fun hne => absurd rfl hne, fun hno => ?_⟩⟩
      exact inputs_jsonAudio (fun hfields => hno (.inr ⟨haudio, .inl hstarted, hfields⟩)) now
  | @autoStart obj items event hi he hstart hstop haudio hstarted hauto =>
      rw [wellFormed_iff hi he, usable_iff hi he, if_neg hstart, if_neg hstart]
      constructor
      · rintro ⟨-, -, hsame⟩ _ _ _ _
        by_contra hfields
        -- The session was started, and there is nothing to start it for.
        have hflag : true = s.sessionStarted := by
          refine congrArg (fun x => x.2.2.1) (hsame ?_)
          rintro (hstop' | ⟨-, -, hfields'⟩)
          · exact hstop hstop'
          · exact hfields hfields'
        exact hstarted hflag.symm
      · intro hwell
        have hfields := hwell hstop haudio hstarted hauto
        refine ⟨hs, fun hne => absurd rfl hne, fun hno => ?_⟩
        exact absurd (.inr ⟨haudio, .inr hauto, hfields⟩) hno
  | @notStarted obj items event hi he hstart hstop haudio hstarted hauto =>
      rw [wellFormed_iff hi he, if_neg hstart]
      exact ⟨fun _ _ _ _ h => absurd h hauto, fun _ => ⟨hs, fun hne => absurd rfl hne, fun _ => rfl⟩⟩
  | @other obj items event hi he hstart hstop haudio =>
      rw [wellFormed_iff hi he, if_neg hstart]
      exact ⟨fun _ _ h => absurd h haudio, fun _ => ⟨hs, fun hne => absurd rfl hne, fun _ => rfl⟩⟩

theorem unharmed_iff {e : AudioEvent} (hs : s.exit ≠ some .raised)
    (h : s.step cfg e = some s') : Unharmed cfg s e ↔ Proper cfg s e := by
  cases e with
  | text obj now => exact unharmed_text_iff hs h
  | binary | idleTimeout | closed | recvError | goOn | joinTimeout | work =>
      exact ⟨fun _ => trivial, fun _ => unharmed_other hs nofun⟩

end AudioSession

/-- In every run: no step raises, the loop ends only by an event that says so, the
timeout or the connection, and messages of no use leave the session and its queue as
they are, exactly when every text that comes is well formed. -/
theorem text_harmless_iff {es : List AudioEvent} {s : AudioSession α}
    (h : run (AudioSession.step cfg) (.init cfg) es = some s) :
    Guarded (AudioSession.step cfg) (Unharmed cfg) (.init cfg) es ↔
      Guarded (AudioSession.step cfg) (Proper cfg) (.init cfg) es :=
  guarded_congr (I := fun s => s.exit ≠ some .raised)
    (fun _ _ _ hs hstep => AudioSession.unharmed_iff hs hstep)
    (fun _ _ s' _ hun hstep => (hun s' hstep).1) nofun h

/-- `{"event": " Start ", "sample_rate": "44_100"}`, and then no JSON. -/
theorem text_harmless_start :
    let es : List AudioEvent := [.text (some (.dict [("event".toList, .str " Start ".toList),
      ("sample_rate".toList, .str "44_100".toList)])) 0, .goOn 1, .text none 2]
    ∃ s, run (AudioSession.step silence) (.init silence) es = some s ∧ s.sessionSrcSr = 44100 ∧
      Guarded (AudioSession.step silence) (Unharmed silence) (.init silence) es := by
  intro es
  refine ⟨_, rfl, by decide +kernel, (@text_harmless_iff _ silence es _ rfl).mpr ?_⟩
  refine ⟨⟨_, "start".toList, rfl, by decide +kernel, by decide +kernel⟩, ?_⟩
  intro s hs
  refine ⟨trivial, fun s' hs' => ⟨trivial, fun s'' _ => trivial⟩⟩

/-- The text `[]`. -/
theorem text_raises :
    ¬ ∀ (cfg : AudioConfig Unit) (obj : PyJson) (now : Int) (s : AudioSession Unit),
      run (AudioSession.step cfg) (.init cfg) [.text (some obj) now] = some s →
        s.exit ≠ some .raised := by
  intro h
  exact h silence (.list []) 0 _ rfl rfl

end VTranser.Server

import Mathlib.Algebra.Order.Ring.Int
import VTranser.Proofs.AudioBuffer
import VTranser.Proofs.AudioQueue

/-!
# When the feed worker lives

The loop of the feed worker is in one `try`, so an item that cannot be decoded is
its end. Which items these are can be read off their length, type and rate. As long
as there is none, the worker comes back to the queue after each item, for every frame
it feeds makes the buffer shorter, until it takes the end of the stream.
-/

namespace VTranser.Server

open Run

variable {α : Type*} {cfg : AudioConfig α}

/-! ## Decoding -/

/-- The bytes of a sample, at the least, of a type that may have to be guessed. -/
def Dtype.size : Option Dtype → Nat
  | some .f32 => 4
  | _ => 2

/-- The rates that the resampler takes. -/
def Resamplable (cfg : AudioConfig α) (sr : Int) : Prop :=
  sr = cfg.tgtSr ∨
    if cfg.lib.resampleUsesScipy ∧ cfg.tgtSr ∣ sr then 0 < sr ∧ sr ≤ cfg.lib.maxFactor * cfg.tgtSr
    else floatFits sr ∧ (if cfg.lib.librosa.isSome then 0 < sr else sr ≠ 0)

/-- An item with no bytes, or with whole samples at a rate that can be converted. -/
def Decodable (cfg : AudioConfig α) (item : AudioItem) : Prop :=
  item.buf = [] ∨ Dtype.size item.dtype ∣ item.buf.length ∧ Resamplable cfg item.sr

section Decode

variable {lib : AudioLib α}

theorem frombufferI16_isSome (b : List UInt8) :
    (frombufferI16 lib b).isSome ↔ 2 ∣ b.length := by
  induction b using frombufferI16.induct with
  | case1 => simp [frombufferI16]
  | case2 => simp [frombufferI16]
  | case3 b₀ b₁ bs ih =>
      rw [frombufferI16, Option.isSome_map, ih, List.length_cons, List.length_cons]
      omega

theorem frombufferF32_isSome (b : List UInt8) :
    (frombufferF32 lib b).isSome ↔ 4 ∣ b.length := by
  induction b using frombufferF32.induct with
  | case1 => simp [frombufferF32]
  | case2 b₀ b₁ b₂ b₃ bs ih =>
      simp only [frombufferF32, Option.isSome_map, ih, List.length_cons]
      omega
  | case3 b hnil hmore =>
      match b, hnil, hmore with
      | [], hnil, _ => exact absurd rfl hnil
      | [_], _, _ => simp [frombufferF32]
      | [_, _], _, _ => simp [frombufferF32]
      | [_, _, _], _, _ => simp [frombufferF32]
      | b₀ :: b₁ :: b₂ :: b₃ :: bs, _, hmore => exact absurd rfl (hmore b₀ b₁ b₂ b₃ bs)

theorem frombufferI16_ne_nil {b : List UInt8} {f32 : List α} (hb : b ≠ [])
    (h : frombufferI16 lib b = some f32) : f32 ≠ [] := by
  match b, hb, h with
  | [], hb, _ => exact absurd rfl hb
  | [_], _, h => cases h
  | b₀ :: b₁ :: bs, _, h =>
      obtain ⟨rest, -, rfl⟩ := Option.map_eq_some_iff.mp h
      exact List.cons_ne_nil _ _

theorem frombufferF32_ne_nil {b : List UInt8} {f32 : List α} (hb : b ≠ [])
    (h : frombufferF32 lib b = some f32) : f32 ≠ [] := by
  match b, hb, h with
  | [], hb, _ => exact absurd rfl hb
  | [_], _, h => cases h
  | [_, _], _, h => cases h
  | [_, _, _], _, h => cases h
  | b₀ :: b₁ :: b₂ :: b₃ :: bs, _, h =>
      obtain ⟨rest, -, rfl⟩ := Option.map_eq_some_iff.mp h
      exact List.cons_ne_nil _ _

/-- Bytes are decoded when they are whole samples. -/
theorem bytesToF32Auto_isSome (b : List UInt8) (dt : Option Dtype) :
    (bytesToF32Auto lib b dt).isSome ↔ Dtype.size dt ∣ b.length := by
  unfold bytesToF32Auto
  split
  · next hempty =>
      have hb : b = [] := by simpa using hempty
      simp [hb]
  · cases dt with
    | none =>
        show (if b.length % 4 = 0 then _ else frombufferI16 lib b).isSome ↔ 2 ∣ b.length
        split
        · next h4 =>
            obtain ⟨f32, hf32⟩ := Option.isSome_iff_exists.mp
              ((@frombufferF32_isSome _ lib b).mpr (by omega))
            rw [hf32, Option.bind_some]
            split
            · exact iff_of_true rfl (by omega)
            · exact frombufferI16_isSome b
        · exact frombufferI16_isSome b
    | some dt =>
        cases dt with
        | i16 => exact frombufferI16_isSome b
        | f32 => exact frombufferF32_isSome b

theorem bytesToF32Auto_eq_nil_iff {b : List UInt8} {dt : Option Dtype} {f32 : List α}
    (h : bytesToF32Auto lib b dt = some f32) : f32 = [] ↔ b = [] := by
  unfold bytesToF32Auto at h
  split at h
  · next hempty =>
      have hb : b = [] := by simpa using hempty
      injection h with h
      exact iff_of_true h.symm hb
  · next hempty =>
      have hb : b ≠ [] := by simpa using hempty
      refine iff_of_false ?_ hb
      split at h
      · exact frombufferI16_ne_nil hb h
      · exact frombufferF32_ne_nil hb h
      · split at h
        · obtain ⟨xs, hxs, h⟩ := Option.bind_eq_some_iff.mp h
          split at h
          · injection h with h
            exact h ▸ frombufferF32_ne_nil hb hxs
          · exact frombufferI16_ne_nil hb h
        · exact frombufferI16_ne_nil hb h

theorem resamplePoly_isSome (f32 : List α) (up down : Int) :
    (resamplePoly lib f32 up down).isSome ↔
      1 ≤ up ∧ 1 ≤ down ∧ max up down ≤ lib.maxFactor := by
  rw [resamplePoly]
  split
  · next h => exact iff_of_true rfl h
  · next h => exact iff_of_false nofun h

theorem resampleOther_isSome {tgtSr : Int} (htgt : 0 < tgtSr) (f32 : List α) (sr : Int) :
    (resampleOther lib tgtSr f32 sr).isSome ↔
      floatFits sr ∧ (if lib.librosa.isSome then 0 < sr else sr ≠ 0) := by
  rw [resampleOther]
  cases lib.librosa with
  | none =>
      by_cases h : sr ≠ 0 ∧ floatFits sr
      · exact iff_of_true (by simp [h]) ⟨h.2, h.1⟩
      · exact iff_of_false (by simpa using h) fun h' => h ⟨h'.2, h'.1⟩
  | some resample =>
      by_cases h : 0 < sr ∧ 0 < tgtSr ∧ floatFits sr
      · exact iff_of_true (by simp [h]) ⟨h.2.2, h.1⟩
      · exact iff_of_false (by simpa using h) fun h' => h ⟨h'.2, htgt, h'.1⟩

/-- The factor for 48 kHz is the quotient too, so its branch is like the next one. -/
theorem resampleTo16k_isSome {f32 : List α} (hf32 : f32 ≠ []) (sr : Int) :
    (resampleTo16k cfg.lib cfg.tgtSr f32 sr).isSome ↔ Resamplable cfg sr := by
  have hpos := cfg.tgtSr_pos
  have hne : f32.isEmpty = false := by simpa using hf32
  -- Whole factors.
  have hpoly : ∀ k : Int, sr = cfg.tgtSr * k →
      ((resamplePoly cfg.lib f32 1 k).isSome ↔ 0 < sr ∧ sr ≤ cfg.lib.maxFactor * cfg.tgtSr) := by
    intro k hk
    rw [resamplePoly_isSome, hk, Int.mul_comm cfg.lib.maxFactor,
      Int.mul_le_mul_left hpos]
    have hmul : 0 < cfg.tgtSr * k ↔ 0 < k := mul_pos_iff_of_pos_left hpos
    rw [hmul]
    omega
  rw [resampleTo16k, hne, if_neg nofun, Option.isSome_map, resampleCpuTo16k, hne, if_neg nofun,
    Resamplable]
  split
  · next heq => exact iff_of_true rfl (.inl heq)
  · next hsr =>
      rw [Option.isSome_map, or_iff_right hsr]
      by_cases hscipy : cfg.lib.resampleUsesScipy = true
      · rw [if_pos hscipy]
        by_cases hdvd : cfg.tgtSr ∣ sr
        · have hyes : cfg.lib.resampleUsesScipy = true ∧ cfg.tgtSr ∣ sr := ⟨hscipy, hdvd⟩
          rw [if_pos hyes]
          obtain ⟨k, hk⟩ := hdvd
          by_cases h48 : sr = 48000 ∧ cfg.tgtSr = 16000
          · rw [if_pos h48]
            exact hpoly 3 (by rw [h48.1, h48.2]; rfl)
          · rw [if_neg h48, if_neg hpos.ne']
            have hmod : sr.fmod cfg.tgtSr = 0 := by rw [hk, Int.mul_fmod_right]
            have hdiv : sr.fdiv cfg.tgtSr = k := by rw [hk, Int.mul_fdiv_cancel_left _ hpos.ne']
            rw [if_pos hmod, hdiv]
            exact hpoly k hk
        · have hno : ¬ (cfg.lib.resampleUsesScipy = true ∧ cfg.tgtSr ∣ sr) := fun h => hdvd h.2
          rw [if_neg hno]
          have h48 : ¬ (sr = 48000 ∧ cfg.tgtSr = 16000) := by
            rintro ⟨h1, h2⟩
            exact hdvd (by rw [h1, h2]; decide)
          have hmod : ¬ sr.fmod cfg.tgtSr = 0 := fun h => hdvd (Int.dvd_of_fmod_eq_zero h)
          rw [if_neg h48, if_neg hpos.ne', if_neg hmod]
          exact resampleOther_isSome hpos f32 sr
      · have hno : ¬ (cfg.lib.resampleUsesScipy = true ∧ cfg.tgtSr ∣ sr) := fun h => hscipy h.1
        rw [if_neg hscipy, if_neg hno]
        exact resampleOther_isSome hpos f32 sr

end Decode

theorem decode_isSome (item : AudioItem) :
    (AudioSession.decode cfg item).isSome ↔ Decodable cfg item := by
  rw [AudioSession.decode, Decodable]
  cases hdec : bytesToF32Auto cfg.lib item.buf item.dtype with
  | none =>
      have hnot : ¬ Dtype.size item.dtype ∣ item.buf.length := by
        rw [← @bytesToF32Auto_isSome _ cfg.lib, hdec]
        exact nofun
      refine iff_of_false nofun ?_
      rintro (hnil | ⟨hdvd, -⟩)
      · exact hnot (by rw [hnil]; exact Nat.dvd_zero _)
      · exact hnot hdvd
  | some f32 =>
      have hdvd : Dtype.size item.dtype ∣ item.buf.length := by
        rw [← @bytesToF32Auto_isSome _ cfg.lib, hdec]
        rfl
      rw [Option.bind_some]
      by_cases hb : item.buf = []
      · have hf32 : f32 = [] := (bytesToF32Auto_eq_nil_iff hdec).mpr hb
        exact iff_of_true (by rw [hf32]; rfl) (.inl hb)
      · have hf32 : f32 ≠ [] := fun h => hb ((bytesToF32Auto_eq_nil_iff hdec).mp h)
        rw [resampleTo16k_isSome hf32, or_iff_right hb, and_iff_right hdvd]

/-! ## The worker in a session -/

/-- The worker takes no item that it cannot decode. -/
def Decodes (cfg : AudioConfig α) (s : AudioSession α) : AudioEvent → Prop
  | .work _ =>
      s.worker = .get → ∀ item, s.q.queue.head? = some (some item) → Decodable cfg item
  | _ => True

namespace AudioSession

variable {s s' : AudioSession α}

/-- The worker, the feed and the recorder are as they were. -/
structure SameWorker (s s' : AudioSession α) : Prop where
  worker : s'.worker = s.worker
  feed : s'.feed = s.feed
  recorded : s'.recorded = s.recorded

namespace SameWorker

theorem awaitPut (item : AudioItem) (s : AudioSession α) : SameWorker s (s.awaitPut cfg item) := by
  rw [AudioSession.awaitPut]
  split <;> exact ⟨rfl, rfl, rfl⟩

theorem jsonAudio (items : List (PyStr × PyJson)) (now : Int) (s : AudioSession α) :
    SameWorker s (s.jsonAudio cfg items now) := by
  rw [AudioSession.jsonAudio]
  split
  · exact { awaitPut _ { s with q := s.q.guard cfg } with }
  · exact ⟨rfl, rfl, rfl⟩

theorem text {obj : Option PyJson} {now : Int} (h : TextEffect cfg s now obj s') :
    SameWorker s s' := by
  cases h with
  | @start obj items hi he =>
      rw [startEvent]
      split <;> exact ⟨rfl, rfl, rfl⟩
  | audio hi he hstart hstop haudio hs => exact jsonAudio ..
  | notJson | noDict | noEvent | stop | autoStart | notStarted | other => exact ⟨rfl, rfl, rfl⟩

theorem binaryAudio (raw : List UInt8) (now : Int) (s : AudioSession α) :
    SameWorker s (s.binaryAudio cfg raw now) :=
  { awaitPut _ { s with q := s.q.guard cfg } with }

theorem onBinary (raw : List UInt8) (now : Int) (s : AudioSession α) :
    SameWorker s (s.onBinary cfg raw now) := by
  rw [AudioSession.onBinary]
  split
  · exact binaryAudio ..
  · split <;> exact ⟨rfl, rfl, rfl⟩

end SameWorker

/-- The receive loop leaves the worker alone; only the handler cancels it, in the end. -/
theorem step_worker {e : AudioEvent} (he : ∀ status, e ≠ .work status)
    (h : s.step cfg e = some s') :
    (s'.feed = s.feed ∧ s'.recorded = s.recorded) ∧
      (s'.worker = s.worker ∨ s.worker.over = false ∧ s'.worker = .cancelled) := by
  have hsame : SameWorker s s' → (s'.feed = s.feed ∧ s'.recorded = s.recorded) ∧
      (s'.worker = s.worker ∨ s.worker.over = false ∧ s'.worker = .cancelled) :=
    fun h => ⟨⟨h.feed, h.recorded⟩, .inl h.worker⟩
  cases step_effect h with
  | binary => exact hsame (.onBinary ..)
  | text heffect => exact hsame (.text heffect)
  | idleTimeout | closed | recvError | goOn | put | idleSend | putEnd =>
      exact hsame ⟨rfl, rfl, rfl⟩
  | ackBinary => exact hsame (.binaryAudio ..)
  | ackAudio => exact hsame (.jsonAudio ..)
  | joinTimeout hover => exact ⟨⟨rfl, rfl⟩, .inr ⟨hover, rfl⟩⟩
  | takeEnd | takeItem | frame | status | drain | silence => exact absurd rfl (he _)

/-! ### No item kills the worker but one that cannot be decoded -/

theorem nextFrame_worker (status : Bool) (s : AudioSession α) :
    (s.nextFrame cfg status).worker ≠ .crashed := by
  rw [nextFrame]
  split
  · simp
  · cases status <;> simp

theorem nextSilence_worker (frames : Nat) (s : AudioSession α) :
    (s.nextSilence frames).worker ≠ .crashed := by
  cases frames <;> exact nofun

theorem nextDrain_worker (s : AudioSession α) : (s.nextDrain cfg).worker ≠ .crashed := by
  rw [nextDrain]
  split
  · simp
  · exact nextSilence_worker _ _

theorem takeItem_worker_iff (item : AudioItem) (status : Bool) (s : AudioSession α) :
    (s.takeItem cfg item status).worker ≠ .crashed ↔ Decodable cfg item := by
  rw [← decode_isSome, takeItem]
  split
  · next hnone => exact iff_of_false (fun h => h rfl) (by simp [hnone])
  · next f32 hsome => exact iff_of_true (nextFrame_worker _ _) (by rw [hsome]; rfl)

theorem work_worker_iff {status : Bool} (h : s.step cfg (.work status) = some s') :
    s'.worker ≠ .crashed ↔ Decodes cfg s (.work status) := by
  -- Unless the worker waits for an item, it takes none.
  have hbusy : s.worker ≠ .get → Decodes cfg s (.work status) := fun hne hget => absurd hget hne
  cases step_effect h with
  | @takeEnd _ queue hget hq =>
      refine iff_of_true (nextDrain_worker _) fun _ item hitem => ?_
      rw [hq] at hitem
      cases hitem
  | @takeItem _ item queue hget hq =>
      rw [takeItem_worker_iff]
      constructor
      · intro hitem _ item' hitem'
        rw [hq] at hitem'
        injection hitem' with hitem'
        injection hitem' with hitem'
        exact hitem' ▸ hitem
      · exact fun hdec => hdec hget item (by rw [hq]; rfl)
  | frame hw => exact iff_of_true (nextFrame_worker _ _) (hbusy (by rw [hw]; exact nofun))
  | status hw => exact iff_of_true nofun (hbusy (by rw [hw]; exact nofun))
  | drain hw => exact iff_of_true (nextDrain_worker _) (hbusy (by rw [hw]; exact nofun))
  | silence frames hw =>
      exact iff_of_true (nextSilence_worker _ _) (hbusy (by rw [hw]; exact nofun))

theorem step_crashed_iff {e : AudioEvent} (hs : s.worker ≠ .crashed)
    (h : s.step cfg e = some s') : s'.worker ≠ .crashed ↔ Decodes cfg s e := by
  cases e with
  | work status => exact work_worker_iff h
  | binary | text | idleTimeout | closed | recvError | goOn | joinTimeout =>
      refine iff_of_true ?_ trivial
      rcases (step_worker (by exact nofun) h).2 with hw | ⟨-, hw⟩
      · exact hw ▸ hs
      · rw [hw]
        exact nofun

theorem step_crashed {e : AudioEvent} (hs : ¬ s.worker ≠ .crashed)
    (h : s.step cfg e = some s') : ¬ s'.worker ≠ .crashed := by
  rw [not_not] at hs ⊢
  by_cases he : ∀ status, e ≠ .work status
  · rcases (step_worker he h).2 with hw | ⟨hover, -⟩
    · rw [hw, hs]
    · rw [hs] at hover
      cases hover
  · simp only [not_forall, not_not] at he
    obtain ⟨status, rfl⟩ := he
    rw [step, work, hs] at h
    cases h

/-! ### The worker comes back to the queue -/

/-- What has become of the buffer is what some steps make of it. -/
def Fed (cfg : AudioConfig α) (s : AudioSession α) : Prop := ∃ ops, s.feed = Feed.run cfg.hop ops

theorem Fed.step_feed {f : Feed α Int} (h : ∃ ops, f = Feed.run cfg.hop ops) (op : FeedOp α Int) :
    ∃ ops, f.step cfg.hop op = Feed.run cfg.hop ops := by
  obtain ⟨ops, rfl⟩ := h
  exact ⟨ops ++ [op], by rw [Feed.run, Feed.run, List.foldl_append]; rfl⟩

theorem Fed.nextFrame (h : Fed cfg s) (status : Bool) : Fed cfg (s.nextFrame cfg status) := by
  rw [AudioSession.nextFrame]
  split
  · exact Fed.step_feed h .feed
  · exact h

theorem Fed.nextSilence (h : Fed cfg s) (frames : Nat) : Fed cfg (s.nextSilence frames) := by
  cases frames <;> exact h

theorem Fed.nextDrain (h : Fed cfg s) : Fed cfg (s.nextDrain cfg) := by
  rw [AudioSession.nextDrain]
  split
  · exact Fed.step_feed h .feed
  · exact h.nextSilence _

theorem Fed.takeItem (h : Fed cfg s) (item : AudioItem) (status : Bool) :
    Fed cfg (s.takeItem cfg item status) := by
  rw [AudioSession.takeItem]
  split
  · exact h
  · next f32 hdec =>
      refine Fed.nextFrame ?_ status
      have happend := Fed.step_feed h (.append f32 item.enqTs)
      rw [Fed, bufferItem]
      dsimp only
      split
      · exact Fed.step_feed happend (.dropOldest cfg.dropBufTo)
      · exact happend

theorem Fed.step {e : AudioEvent} (h : Fed cfg s) (hs : s.step cfg e = some s') : Fed cfg s' := by
  by_cases he : ∀ status, e ≠ .work status
  · rw [Fed, (step_worker he hs).1.1]
    exact h
  · simp only [not_forall, not_not] at he
    obtain ⟨status, rfl⟩ := he
    cases step_effect hs with
    | takeEnd => exact Fed.nextDrain h
    | takeItem => exact Fed.takeItem (s := { s with q := s.q.get }) h _ _
    | frame => exact h.nextFrame _
    | status => exact h
    | drain => exact h.nextDrain
    | silence => exact h.nextSilence _

/-- A frame makes the buffer shorter. -/
theorem Fed.frame (h : Fed cfg s) (hhop : cfg.hop ≤ s.feed.buf.bufSamples) :
    (s.feed.feedFrame cfg.hop).buf.bufSamples.toNat < s.feed.buf.bufSamples.toNat := by
  obtain ⟨ops, hops⟩ := h
  have hfollows : s.feed.Follows (queueRun cfg.hop ops) := hops ▸ Feed.follows_run cfg.hop ops
  have hcount := hfollows.buf.count
  have hcount' := (hfollows.step cfg.hop .feed).buf.count
  have hpos := cfg.hop_pos
  rw [queueStep, if_pos (by omega), Fifo.take, List.length_drop] at hcount'
  show (s.feed.step cfg.hop .feed).buf.bufSamples.toNat < _
  omega

/-- The worker gets to a place where it waits for an item, or is through. -/
def ComesBack (cfg : AudioConfig α) (s : AudioSession α) : Prop :=
  ∃ n s', run (AudioSession.step cfg) s (List.replicate n (.work false)) = some s' ∧
    (s'.worker = .get ∨ s'.worker = .ended)

theorem ComesBack.step (hs : s.work cfg false = some s') (h : ComesBack cfg s') :
    ComesBack cfg s := by
  obtain ⟨n, s'', hrun, hback⟩ := h
  exact ⟨n + 1, s'', run_cons_some.mpr ⟨s', hs, hrun⟩, hback⟩

theorem comesBack_silence (frames : Nat) (hw : s.worker = .silence frames) : ComesBack cfg s := by
  induction frames generalizing s with
  | zero =>
      have hstep : s.work cfg false = some { s with worker := .ended } := by
        rw [AudioSession.work, hw]
        rfl
      exact ComesBack.step hstep ⟨0, _, rfl, .inr rfl⟩
  | succ frames ih =>
      have hstep : s.work cfg false = some { s with
          recorded := s.recorded ++ [.silence], worker := .silence frames } := by
        rw [AudioSession.work, hw]
        rfl
      exact ComesBack.step hstep (ih rfl)

/-- The induction is on what is left in the buffer. -/
theorem Fed.comesBack (h : Fed cfg s) (hcrash : s.worker ≠ .crashed)
    (hcancel : s.worker ≠ .cancelled) : ComesBack cfg s := by
  generalize hn : s.feed.buf.bufSamples.toNat = n
  induction n using Nat.strong_induction_on generalizing s with
  | _ n ih =>
      cases hw : s.worker with
      | get => exact ⟨0, s, rfl, .inl hw⟩
      | ended => exact ⟨0, s, rfl, .inr hw⟩
      | crashed => exact absurd hw hcrash
      | cancelled => exact absurd hw hcancel
      | silence frames => exact comesBack_silence frames hw
      | status =>
          have hstep : s.work cfg false = some { s with worker := .get } := by
            rw [AudioSession.work, hw]
          exact ComesBack.step hstep ⟨0, _, rfl, .inl rfl⟩
      | frame =>
          have hstep : s.work cfg false = some (s.nextFrame cfg false) := by
            rw [AudioSession.work, hw]
          refine ComesBack.step hstep ?_
          rw [AudioSession.nextFrame]
          split
          · next hhop =>
              exact ih _ (hn ▸ h.frame hhop) (Fed.step_feed h .feed) (by simp) (by simp) rfl
          · exact ⟨0, _, rfl, .inl rfl⟩
      | drain =>
          have hstep : s.work cfg false = some (s.nextDrain cfg) := by
            rw [AudioSession.work, hw]
          refine ComesBack.step hstep ?_
          rw [AudioSession.nextDrain]
          split
          · next hhop =>
              exact ih _ (hn ▸ h.frame hhop) (Fed.step_feed h .feed) (by simp) (by simp) rfl
          · cases htail : cfg.tailFrames with
            | zero => exact ⟨0, _, rfl, .inr rfl⟩
            | succ frames => exact comesBack_silence frames rfl

end AudioSession

/-- In every run, the worker lives exactly when it took no item but such as have no
bytes, or whole samples at a rate the resampler takes; and a worker that lives, and is
not cancelled, comes back to the queue for the next item, or has come to the end of the
stream. -/
theorem worker_lives_iff {es : List AudioEvent} {s : AudioSession α}
    (h : run (AudioSession.step cfg) (.init cfg) es = some s) :
    (s.worker ≠ .crashed ↔ Guarded (AudioSession.step cfg) (Decodes cfg) (.init cfg) es) ∧
      (s.worker ≠ .crashed → s.worker ≠ .cancelled →
        ∃ n s', run (AudioSession.step cfg) s (List.replicate n (.work false)) = some s' ∧
          (s'.worker = .get ∨ s'.worker = .ended)) := by
  constructor
  · exact holds_iff_guarded (fun _ _ _ hs hstep => AudioSession.step_crashed_iff hs hstep)
      (fun _ _ _ hs hstep => AudioSession.step_crashed hs hstep) nofun h
  · have hfed : AudioSession.Fed cfg s :=
      run_guarded (fun _ _ _ hs _ hstep => AudioSession.Fed.step hs hstep) ⟨[], rfl⟩
        (Guarded.of_labels (q := fun _ => True) fun _ _ => trivial) h
    exact hfed.comesBack

/-- Eight bytes of silence at 48 kHz, and the worker takes them. -/
theorem worker_lives_silence :
    let es : List AudioEvent := [.binary (List.replicate 8 0) 0, .goOn 0, .work false]
    ∃ s, run (AudioSession.step silence) (.init silence) es = some s ∧
      s.q.gone.length = 1 ∧ s.worker ≠ .crashed := by
  intro es
  refine ⟨_, rfl, by decide +kernel, (@worker_lives_iff _ silence es _ rfl).1.mpr ?_⟩
  refine ⟨trivial, fun s₁ hs₁ => ⟨trivial, fun s₂ hs₂ => ⟨fun _ item hitem => ?_, fun _ _ => trivial⟩⟩⟩
  -- The one item in the queue.
  obtain rfl := Option.some.inj hs₁
  obtain rfl := Option.some.inj hs₂
  obtain rfl := Option.some.inj (Option.some.inj hitem)
  exact .inr ⟨by decide +kernel, .inr (by decide +kernel)⟩

/-- A binary message of one byte. -/
theorem worker_dies :
    ¬ ∀ (cfg : AudioConfig Unit) (raw : List UInt8) (s : AudioSession Unit),
      run (AudioSession.step cfg) (.init cfg) [.binary raw 0, .goOn 0, .work false] = some s →
        s.worker ≠ .crashed := by
  intro h
  refine h silence [0] _ rfl ?_
  decide +kernel

end VTranser.Server

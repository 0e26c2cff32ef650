import VTranser.Proofs.Transcript

/-!
# Runs of the transcript path

Two statements over whole runs. `patches_endToEnd` is about patches alone, cut
into messages in any way: the overlay drops every message whose number it has
seen, so only a patch whose first message has all of its text arrives whole.
`client_in_step` is about patches and stable texts together, each patch one
message: what it asks of a step is that the patch or the stable text lands.
-/

namespace VTranser.Transcript

open EndPatch Overlay
open Server (PatchMsg StableMsg Patch)

instance (removed : PyStr) : Decidable (OneUnit removed) :=
  inferInstanceAs (Decidable (_ ∧ _))

instance : ∀ (out : Option Output) (pieces : List PyStr), Decidable (WholeFirst out pieces)
  | some (.patch _), _ => inferInstanceAs (Decidable (_ = _))
  | some (.stable _), _ => isTrue trivial
  | none, _ => isTrue trivial

instance (st : Server.State) : ∀ out : Option Output, Decidable (DeletesOneUnit st out)
  | some (.patch _) => inferInstanceAs (Decidable (OneUnit _))
  | some (.stable _) => isTrue trivial
  | none => isTrue trivial

/-- The settings when nothing is configured. -/
def defaultConfig : Config := ⟨⟨true, 66, false, false, 200⟩, 5200⟩

def defaultStabilizer : Server.TranscriptStabilizer := .new 2 18 120 true true

/-! ## Patches alone -/

section Patches

/-- A text that the overlay keeps whole. -/
def Fits (cfg : Config) (t : PyStr) : Prop :=
  0 < cfg.enStateMaxChars → (t.toJs.length : Int) ≤ cfg.enStateMaxChars

/-- A callback that sends no stable message, and after which the server shows a
text that the overlay keeps whole. -/
def OnlyPatches (cfg : Config) (st : State) : Label → Prop
  | .callback (.stable ..) _ _ => False
  | .callback e _ _ => Fits cfg (callback cfg.server e st.server).1.lastEmitted
  | _ => True

/-- A callback whose patch travels in one piece and deletes characters that are
one code unit each. -/
def SentWhole (cfg : Config) (st : State) : Label → Prop
  | .callback e pieces _ =>
      WholeFirst (callback cfg.server e st.server).2 pieces ∧
        DeletesOneUnit st.server (callback cfg.server e st.server).2
  | _ => True

instance (cfg : Config) (t : PyStr) : Decidable (Fits cfg t) :=
  inferInstanceAs (Decidable (_ → _))

instance (cfg : Config) (st : State) : ∀ l, Decidable (OnlyPatches cfg st l)
  | .callback (.stable ..) .. => isFalse id
  | .callback (.shown ..) .. => inferInstanceAs (Decidable (Fits _ _))
  | .callback (.update ..) .. => inferInstanceAs (Decidable (Fits _ _))
  | .relay => isTrue trivial
  | .frame => isTrue trivial

instance (cfg : Config) (st : State) : ∀ l, Decidable (SentWhole cfg st l)
  | .callback .. => inferInstanceAs (Decidable (_ ∧ _))
  | .relay => isTrue trivial
  | .frame => isTrue trivial

/-- After any run of patches, cut in any way, the overlay shows what the server
shows. -/
def EndToEnd (cfg : Config) (stabilizer : Server.TranscriptStabilizer) (ls : List Label) : Prop :=
  Run.Guarded (step cfg) (OnlyPatches cfg) (State.init stabilizer) ls →
    ∀ st, Run.run (step cfg) (State.init stabilizer) ls = some st → st.processed = true →
      st.overlay.fullText = st.server.lastEmitted.toJs

/-- In step, with short texts and patches only. -/
structure PatchRun (cfg : Config) (st : State) : Prop where
  inStep : InStep (Fits cfg) st
  heard : Fits cfg st.heard
  wire : ∀ x ∈ st.wire, Fits cfg x.after ∧ ∀ m, x.msg ≠ .stable m

theorem messages_patches {cfg : Server.Config} {e : Event} {st : Server.State}
    {pieces : List PyStr} {tMs : Int} {ms : List Msg} (he : ∀ clock text, e ≠ .stable clock text)
    (hms : messages (callback cfg e st).2 pieces tMs = some ms) {m : Msg} (hm : m ∈ ms) :
    ∀ m', m ≠ .stable m' := by
  have hout : ∀ m', (callback cfg e st).2 ≠ some (.stable m') := by
    cases e with
    | shown nowMs text => simp [callback]
    | update clock rawText => simp [callback]
    | stable clock text => exact absurd rfl (he clock text)
  cases hc : (callback cfg e st).2 with
  | none =>
      rw [hc] at hms
      injection hms with hms
      rw [← hms] at hm
      cases hm
  | some out =>
      cases out with
      | patch p =>
          rw [hc] at hms
          simp only [messages, Option.ite_none_right_eq_some, Option.some.injEq] at hms
          rw [← hms.2, List.mem_map] at hm
          obtain ⟨q, -, rfl⟩ := hm
          simp
      | stable m' => exact absurd hc (hout m')

theorem step_patchRun {cfg : Config} {st st' : State} {l : Label} (h : PatchRun cfg st)
    (hok : OnlyPatches cfg st l ∧ SentWhole cfg st l) (hstep : step cfg st l = some st') :
    PatchRun cfg st' := by
  have hin : InStep (Fits cfg) st' := by
    refine step_inStep (fun t ht => boundEN_of_le ht) h.inStep ?_ ?_ ?_ hstep
    · rintro e pieces tMs rfl
      exact hok.2
    · rintro rfl m after rest - -
      exact Or.inl (h.inStep.holds.2 h.heard)
    · rintro rfl m after rest hwire
      exact absurd rfl ((h.wire ⟨.stable m, after⟩ (by simp [hwire])).2 m)
  cases l with
  | callback e pieces tMs =>
      simp only [step, Option.map_eq_some_iff] at hstep
      obtain ⟨ms, hms, rfl⟩ := hstep
      have he : ∀ clock text, e ≠ .stable clock text := by
        rintro clock text rfl
        exact hok.1
      have hfits : Fits cfg (callback cfg.server e st.server).1.lastEmitted := by
        cases e with
        | shown nowMs text => exact hok.1
        | update clock rawText => exact hok.1
        | stable clock text => exact absurd rfl (he clock text)
      refine ⟨hin, h.heard, fun x hx => ?_⟩
      simp only [List.mem_append, List.mem_map] at hx
      rcases hx with hx | ⟨m, hm, rfl⟩
      · exact h.wire x hx
      · exact ⟨hfits, messages_patches he hms hm⟩
  | relay =>
      obtain ⟨srv, wire, heard, ov⟩ := st
      cases wire with
      | nil => cases hstep
      | cons x rest =>
          injection hstep with hstep
          subst hstep
          exact ⟨hin, (h.wire x (by simp)).1, fun y hy => h.wire y (by simp [hy])⟩
  | frame =>
      injection hstep with hstep
      subst hstep
      exact ⟨hin, h.heard, h.wire⟩

/-- Patches bring the server's text to the overlay in every run in which each
travels in one piece and deletes only characters of one code unit. -/
theorem patches_endToEnd (cfg : Config) (stabilizer : Server.TranscriptStabilizer)
    (ls : List Label)
    (hwhole : Run.Guarded (step cfg) (SentWhole cfg) (State.init stabilizer) ls) :
    EndToEnd cfg stabilizer ls := by
  intro honly st hrun hdone
  have hinit : PatchRun cfg (State.init stabilizer) :=
    ⟨init_inStep stabilizer, Int.le_of_lt, fun x hx => by cases hx⟩
  have hend := Run.run_guarded (fun s l s' h hok hs => step_patchRun h hok hs) hinit
    (honly.and hwhole) hrun
  have hheard : st.heard = st.server.lastEmitted := by
    rw [State.processed, Bool.and_eq_true, List.isEmpty_iff] at hdone
    have hchain := hend.inStep.chain
    rw [hdone.1] at hchain
    exact hchain.1
  exact (hend.inStep.processed hdone).2 (hheard ▸ hend.heard)

/-- One update, its patch cut into the given pieces, each relayed and all of
them flushed. -/
def updateRun (nowMs : Int) (text : PyStr) (pieces : List PyStr) : List Label :=
  .callback (.update ⟨false, nowMs, nowMs⟩ text) pieces nowMs ::
    (pieces.map fun _ => .relay) ++ [.frame]

/-- The end of the text is corrected, which takes two updates: the second patch deletes
three characters. -/
theorem patches_endToEnd_whole :
    EndToEnd defaultConfig defaultStabilizer
      (updateRun 1000 "Hello world.".toList ["Hello world.".toList] ++
        updateRun 2000 "Hello word, yes.".toList [] ++
        updateRun 3000 "Hello word, yes.".toList ["d, yes.".toList]) :=
  patches_endToEnd _ _ _ (by decide +kernel)

/-- `Hello world.` cut into two messages: the overlay has seen the number of the
second one, and shows `Hello `. -/
theorem patches_lose_continuation :
    ¬ EndToEnd defaultConfig defaultStabilizer
      (updateRun 1000 "Hello world.".toList ["Hello ".toList, "world.".toList]) := by
  intro h
  have hrun : (Run.run (step defaultConfig) (State.init defaultStabilizer)
      (updateRun 1000 "Hello world.".toList ["Hello ".toList, "world.".toList])).map
        (fun st => (st.processed, st.overlay.fullText, st.server.lastEmitted)) =
      some (true, PyStr.toJs "Hello ".toList, "Hello world.".toList) := by decide
  obtain ⟨st, hst, heq⟩ := Option.map_eq_some_iff.mp hrun
  simp only [Prod.mk.injEq] at heq
  have hsame := h (by decide) st hst heq.1
  rw [heq.2.1, heq.2.2] at hsame
  exact absurd hsame (by decide)

end Patches

/-! ## Patches and stable texts -/

section Stables

/-- Shorter than what either side trims to. -/
def ShorterThanLimits (cfg : Config) (t : PyStr) : Prop :=
  (t.toJs.length : Int) < Worker.overlayEnStableMaxChars ∧
    (0 < cfg.enStateMaxChars → (t.toJs.length : Int) < cfg.enStateMaxChars)

/-- A patch is sent as one message. -/
def Label.uncut : Label → Prop
  | .callback _ pieces _ => pieces.length ≤ 1
  | _ => True

/-- A callback whose patch deletes characters of one code unit, and a relayed
message that lands. -/
def Lands (cfg : Config) (st : State) : Label → Prop
  | .callback e _ _ => DeletesOneUnit st.server (callback cfg.server e st.server).2
  | .relay =>
      match st.wire with
      | [] => True
      | ⟨.patch m, after⟩ :: _ => PatchLands (ShorterThanLimits cfg) st.overlay st.heard m after
      | ⟨.stable m, _⟩ :: _ => StableLands cfg.enStateMaxChars st.overlay m
  | .frame => True

instance (cfg : Config) (t : PyStr) : Decidable (ShorterThanLimits cfg t) :=
  inferInstanceAs (Decidable (_ ∧ _))

instance (cfg : Config) (ov : English) (heard : PyStr) (m : PatchMsg) (after : PyStr) :
    Decidable (PatchLands (ShorterThanLimits cfg) ov heard m after) :=
  inferInstanceAs (Decidable (_ → _))

instance (maxChars : Int) (ov : English) (m : StableMsg) : Decidable (StableLands maxChars ov m) :=
  inferInstanceAs (Decidable (_ ∨ _))

instance (cfg : Config) : ∀ st l, Decidable (Lands cfg st l)
  | _, .callback .. => inferInstanceAs (Decidable (DeletesOneUnit _ _))
  | ⟨_, [], _, _⟩, .relay => isTrue trivial
  | ⟨_, ⟨.patch _, _⟩ :: _, _, _⟩, .relay => inferInstanceAs (Decidable (PatchLands _ _ _ _ _))
  | ⟨_, ⟨.stable _, _⟩ :: _, _, _⟩, .relay => inferInstanceAs (Decidable (StableLands _ _ _))
  | _, .frame => isTrue trivial

/-- Once everything is processed the overlay holds an end of what the server
shows, all of it while that is short; and a patch that arrives finds an end of
the text it was computed against. -/
def Agree (cfg : Config) (st : State) : Prop :=
  (st.processed = true →
      Holds (ShorterThanLimits cfg) st.overlay.fullText st.server.lastEmitted) ∧
    ∀ m after rest, st.wire = ⟨.patch m, after⟩ :: rest →
      Holds (ShorterThanLimits cfg) (pending st.overlay) st.heard ∧
        applyEnd st.heard m.delete m.insert = after

/-- After any run of callbacks that sends its patches uncut, client and server
agree. -/
def ClientInStep (cfg : Config) (stabilizer : Server.TranscriptStabilizer) (ls : List Label) :
    Prop :=
  (∀ l ∈ ls, l.uncut) →
    ∀ st, Run.run (step cfg) (State.init stabilizer) ls = some st → Agree cfg st

theorem wholeFirst_of_uncut {out : Option Output} {pieces : List PyStr} {tMs : Int}
    {ms : List Msg} (hms : messages out pieces tMs = some ms) (h : pieces.length ≤ 1) :
    WholeFirst out pieces := by
  cases out with
  | none => trivial
  | some out =>
      cases out with
      | patch p =>
          simp only [messages, Option.ite_none_right_eq_some] at hms
          obtain ⟨⟨hne, hflat⟩, -⟩ := hms
          cases pieces with
          | nil => exact absurd rfl hne
          | cons x xs =>
              have hxs : xs = [] := List.length_eq_zero_iff.mp (by simpa using h)
              rw [hxs, List.flatten_cons, List.flatten_nil, List.append_nil] at hflat
              rw [WholeFirst, List.head?_cons, hflat]
      | stable m => trivial

theorem arriving_of_short {cfg : Config} {m : StableMsg} (h : ShorterThanLimits cfg m.full) :
    arriving cfg.enStateMaxChars m = m.full.toJs := by
  rw [arriving, trimTailForOverlay_of_le (Int.le_of_lt h.1),
    boundEN_of_le fun hpos => Int.le_of_lt (h.2 hpos)]

theorem step_lands {cfg : Config} {st st' : State} {l : Label}
    (h : InStep (ShorterThanLimits cfg) st) (hok : l.uncut ∧ Lands cfg st l)
    (hstep : step cfg st l = some st') : InStep (ShorterThanLimits cfg) st' := by
  refine step_inStep (fun t ht => boundEN_of_le fun hpos => Int.le_of_lt (ht.2 hpos)) h
    ?_ ?_ ?_ hstep
  · rintro e pieces tMs rfl
    simp only [step, Option.map_eq_some_iff] at hstep
    obtain ⟨ms, hms, -⟩ := hstep
    exact ⟨wholeFirst_of_uncut hms hok.1, hok.2⟩
  · rintro rfl m after rest hwire
    have hland := hok.2
    rw [Lands, hwire] at hland
    exact hland
  · rintro rfl m after rest hwire
    have hland := hok.2
    rw [Lands, hwire] at hland
    exact ⟨hland, arriving_of_short⟩

theorem InStep.agree {cfg : Config} {st : State} (h : InStep (ShorterThanLimits cfg) st) :
    Agree cfg st := by
  refine ⟨h.processed, fun m after rest hwire => ⟨h.holds, ?_⟩⟩
  have hchain := h.chain
  rw [hwire] at hchain
  exact hchain.1.applyEnd_eq

/-- Client and server agree along every run in which each patch deletes only
characters of one code unit and each relayed message lands. -/
theorem client_in_step (cfg : Config) (stabilizer : Server.TranscriptStabilizer)
    (ls : List Label) (hlands : Run.Guarded (step cfg) (Lands cfg) (State.init stabilizer) ls) :
    ClientInStep cfg stabilizer ls := by
  intro huncut st hrun
  have hend := Run.run_guarded (fun s l s' h hok hs => step_lands h hok hs)
    (init_inStep stabilizer) ((Run.Guarded.of_labels huncut).and hlands) hrun
  exact hend.agree

/-- An update, its patch relayed and flushed, then a stable text, relayed. -/
def correctionRun (text stable : PyStr) : List Label :=
  updateRun 1000 text [text] ++ [.callback (.stable ⟨false, 2000, 2000⟩ stable) [] 2000, .relay]

theorem client_in_step_append :
    ClientInStep defaultConfig defaultStabilizer
      (correctionRun "Hello wor".toList "Hello world.".toList) :=
  client_in_step _ _ _ (by decide)

/-- `Hello wrld again` corrected to `Hello world`: the stable text is five
characters shorter and no prefix, so the overlay declines it. -/
theorem client_declines_correction :
    ¬ ClientInStep defaultConfig defaultStabilizer
      (correctionRun "Hello wrld again".toList "Hello world".toList) := by
  intro h
  have hrun : (Run.run (step defaultConfig) (State.init defaultStabilizer)
      (correctionRun "Hello wrld again".toList "Hello world".toList)).map
        (fun st => (st.processed, st.overlay.fullText, st.server.lastEmitted)) =
      some (true, PyStr.toJs "Hello wrld again".toList, "Hello world".toList) := by decide
  obtain ⟨st, hst, heq⟩ := Option.map_eq_some_iff.mp hrun
  simp only [Prod.mk.injEq] at heq
  have huncut : ∀ l ∈ correctionRun "Hello wrld again".toList "Hello world".toList, l.uncut := by
    simp [correctionRun, updateRun, Label.uncut]
  have hsuffix := ((h huncut st hst).1 heq.1).1
  rw [heq.2.1, heq.2.2] at hsuffix
  exact absurd hsuffix (by decide)

end Stables

end VTranser.Transcript

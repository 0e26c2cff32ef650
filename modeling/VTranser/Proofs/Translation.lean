import VTranser.Proofs.Handler
import VTranser.Translation

/-!
# When the overlay shows the whole translation

Commits and drafts come from two workers at different speeds, but one guard
keeps one English number for both. A draft, or the message that clears it, for a
later update overtakes a commit that is being translated, and the commit is
dropped for good: its delta carries the same numbers.

Where no commit falls behind what was sent before it, every commit passes the
guard once, and its delta never does. `LogOk` says what the translator sends in
any run; `Shows` is the state of the overlay after the relayed part of it.
-/

namespace VTranser.Translation

open Translator Overlay Run

/-! ## What is sent -/

def enSeqOf : Out → Option Int
  | .viCommit _ _ enSeq => some enSeq
  | .viDelta _ _ enSeq => some enSeq
  | .viDraft _ _ enSeq _ => enSeq

/-- The two numbers of a commit. -/
def commitNumbers : Out → Option (Nat × Int)
  | .viCommit _ seq enSeq => some (seq, enSeq)
  | .viDelta .. | .viDraft .. => none

/-- The text that a commit appends. -/
def commitAppend : Out → JsStr
  | .viCommit append _ _ => append.toJs
  | .viDelta .. | .viDraft .. => []

/-- The commits of what was sent, one after the other. -/
def committed (log : List Out) : JsStr := log.flatMap commitAppend

/-- If `m'` is a commit, it does not fall behind the earlier `m`: its English
number is no lower, and its own number is higher than that of a commit. -/
def NotBehind (m m' : Out) : Prop :=
  ∀ c' ∈ commitNumbers m', (∀ enSeq ∈ enSeqOf m, enSeq ≤ c'.2) ∧
    ∀ c ∈ commitNumbers m, c.1 < c'.1

instance (m m' : Out) : Decidable (NotBehind m m') :=
  inferInstanceAs (Decidable (∀ c' ∈ commitNumbers m', (∀ enSeq ∈ enSeqOf m, enSeq ≤ c'.2) ∧
    ∀ c ∈ commitNumbers m, c.1 < c'.1))

theorem committed_concat (log : List Out) (m : Out) :
    committed (log ++ [m]) = committed log ++ commitAppend m := by
  rw [committed, List.flatMap_append, ← committed, List.flatMap_singleton]

def IsDelta : Out → Prop
  | .viDelta .. => True
  | .viCommit .. | .viDraft .. => False

/-- A delta has the number of an earlier commit, or none that counts. -/
def DeltasFollow (log : List Out) : Prop :=
  ∀ pre append seq enSeq, pre ++ [.viDelta append seq enSeq] <+: log →
    ∃ m ∈ pre, ∃ c ∈ commitNumbers m, seq = c.1 ∨ seq = 0

theorem DeltasFollow.append {log new : List Out} (h : DeltasFollow log)
    (hnew : ∀ m ∈ new, ¬ IsDelta m) : DeltasFollow (log ++ new) := by
  induction new using List.reverseRecOn with
  | nil => simpa using h
  | append_singleton new m ih =>
      intro pre append seq enSeq hpre
      rw [← List.append_assoc, List.prefix_concat_iff] at hpre
      rcases hpre with heq | hpre
      · obtain ⟨-, heq⟩ := List.append_inj' heq rfl
        have hm := hnew m (by simp)
        rw [← List.head_eq_of_cons_eq heq] at hm
        exact (hm trivial).elim
      · exact ih (fun m hm => hnew m (by simp [hm])) pre append seq enSeq hpre

section Sent

variable {σ : Type} {cfg : HandlerConfig σ}

/-- What was sent, without the marks. -/
def sentLog (h : Handler σ) : List Out := h.sent.map SentOut.out

/-- Commits count from one, and the worker that owes a delta has sent its commit. -/
structure LogOk (h : Handler σ) : Prop where
  positive : ∀ m ∈ sentLog h, ∀ c ∈ commitNumbers m, 0 < c.1
  follow : DeltasFollow (sentLog h)
  pending : ∀ app seg seq rest, h.commitWorker = .commitSent app seg seq rest →
    (∃ m ∈ sentLog h, ∃ c ∈ commitNumbers m, c.1 = seq) ∧
      (h.stream.viSeq = seq ∨ h.stream.viSeq = 0)

theorem LogOk.init (seg : σ) : LogOk (Handler.init seg) where
  positive := nofun
  follow pre append seq enSeq hpre := by
    have hnil := List.prefix_nil.mp hpre
    simp at hnil
  pending := nofun

theorem sentLog_beside {h h' : Handler σ} {new : List (PyStr × Released)}
    (hb : Handler.Beside h new h') :
    ∃ drafts, sentLog h' = sentLog h ++ drafts ∧ ∀ m ∈ drafts, m.IsDraft := by
  obtain ⟨drafts, hsent, hdrafts⟩ := hb.sent
  refine ⟨drafts.map SentOut.out, by rw [sentLog, hsent, List.map_append, sentLog], fun m hm => ?_⟩
  obtain ⟨o, ho, rfl⟩ := List.mem_map.mp hm
  exact hdrafts o ho

theorem IsDraft_facts {m : Out} (h : m.IsDraft) : ¬ IsDelta m ∧ commitNumbers m = none := by
  cases m with
  | viCommit => exact h.elim
  | viDelta => exact h.elim
  | viDraft => exact ⟨id, rfl⟩

theorem LogOk.beside {h h' : Handler σ} {new : List (PyStr × Released)} (hl : LogOk h)
    (hb : Handler.Beside h new h') : LogOk h' := by
  obtain ⟨drafts, hlog, hdrafts⟩ := sentLog_beside hb
  refine ⟨?_, ?_, ?_⟩
  · rw [hlog]
    intro m hm c hc
    rcases List.mem_append.mp hm with hm | hm
    · exact hl.positive m hm c hc
    · rw [(IsDraft_facts (hdrafts m hm)).2] at hc
      cases hc
  · rw [hlog]
    exact hl.follow.append fun m hm => (IsDraft_facts (hdrafts m hm)).1
  · intro app seg seq rest hworker
    rw [hb.worker] at hworker
    obtain ⟨⟨m, hm, hc⟩, hseq⟩ := hl.pending app seg seq rest hworker
    rw [hb.viSeq, hlog]
    exact ⟨⟨m, List.mem_append_left _ hm, hc⟩, hseq⟩

/-- An epoch begins: the number of commits stays, or starts again. -/
theorem LogOk.begins {h h' : Handler σ} (hl : LogOk h) (hb : Handler.Begins h h')
    (hseq : h'.stream.viSeq = h.stream.viSeq ∨ h'.stream.viSeq = 0) : LogOk h' := by
  have hlog : sentLog h' = sentLog h := by rw [sentLog, hb.sent, sentLog]
  refine ⟨by rw [hlog]; exact hl.positive, by rw [hlog]; exact hl.follow, ?_⟩
  intro app seg seq rest hworker
  rw [hb.worker] at hworker
  obtain ⟨hsent, hold⟩ := hl.pending app seg seq rest hworker
  rw [hlog]
  refine ⟨hsent, ?_⟩
  rcases hseq with hseq | hseq
  · rwa [hseq]
  · exact .inr hseq

/-- A step that sends nothing and leaves the worker no delta to send. -/
theorem LogOk.quiet {h h' : Handler σ} (hl : LogOk h) (hsent : h'.sent = h.sent)
    (hworker : ∀ app seg seq rest, h'.commitWorker ≠ .commitSent app seg seq rest) : LogOk h' := by
  have hlog : sentLog h' = sentLog h := by rw [sentLog, hsent, sentLog]
  exact ⟨by rw [hlog]; exact hl.positive, by rw [hlog]; exact hl.follow,
    fun app seg seq rest h => absurd h (hworker app seg seq rest)⟩

theorem sentLog_send (out : Out) (textEpoch commitSeq : Nat) (h : Handler σ) :
    sentLog (h.send out textEpoch commitSeq) = sentLog h ++ [out] := by
  rw [sentLog, Handler.send, List.map_append, sentLog]
  rfl

theorem LogOk.emitCommits {h : Handler σ} (hl : LogOk h) (todo : List (Segment × PyStr)) :
    LogOk (Handler.emitCommits todo h) ∧ sentLog h <+: sentLog (Handler.emitCommits todo h) := by
  rcases Handler.emitCommits_cases todo h with heq | ⟨seg, vi, rest, -, heq⟩
  · rw [heq]
    exact ⟨hl.quiet rfl nofun, List.prefix_rfl⟩
  · rw [heq]
    have hlog : sentLog (Handler.sendCommit seg (joinVi h.stream.viFull vi) rest h) =
        sentLog h ++ [.viCommit (joinVi h.stream.viFull vi) (h.stream.viSeq + 1) seg.enSeq] :=
      sentLog_send _ _ _ _
    refine ⟨⟨?_, ?_, ?_⟩, by rw [hlog]; exact List.prefix_append _ _⟩
    · rw [hlog]
      intro m hm c hc
      rcases List.mem_append.mp hm with hm | hm
      · exact hl.positive m hm c hc
      · rw [List.mem_singleton.mp hm] at hc
        cases hc
        exact Nat.succ_pos _
    · rw [hlog]
      exact hl.follow.append fun m hm => by rw [List.mem_singleton.mp hm]; exact id
    · intro app' seg' seq' rest' hworker
      simp only [Handler.sendCommit, Handler.send, CommitWorker.commitSent.injEq] at hworker
      obtain ⟨-, -, rfl, -⟩ := hworker
      rw [hlog]
      exact ⟨⟨_, List.mem_append_right _ (List.mem_singleton_self _), _, rfl, rfl⟩, .inl rfl⟩

theorem LogOk.step {h h' : Handler σ} {l : Handler.Label} (hl : LogOk h)
    (hstep : Handler.step cfg h l = some h') : LogOk h' ∧ sentLog h <+: sentLog h' := by
  have hbeside : ∀ {h₁ h' : Handler σ} {new : List (PyStr × Released)}, LogOk h₁ →
      sentLog h₁ = sentLog h → Handler.Beside h₁ new h' → LogOk h' ∧ sentLog h <+: sentLog h' := by
    intro h₁ h' new hl₁ hlog hb
    obtain ⟨drafts, hlog', -⟩ := sentLog_beside hb
    exact ⟨hl₁.beside hb, by rw [hlog', hlog]; exact List.prefix_append _ _⟩
  cases Handler.step_effect hstep with
  | beside _ hb => exact hbeside hl rfl hb
  | released hb => exact hbeside hl rfl hb
  | @updated msg clocks h' _ _ hb =>
      obtain ⟨hseq, -, -⟩ := Handler.updateStream_keeps cfg msg clocks h.stream
      generalize Handler.updateStream cfg msg clocks h.stream = stream at hseq hb
      have hnext : LogOk { h with stream } :=
        ⟨hl.positive, hl.follow, fun app seg seq rest hworker => by
          obtain ⟨hsent, hold⟩ := hl.pending app seg seq rest hworker
          rw [← hseq] at hold
          exact ⟨hsent, hold⟩⟩
      exact hbeside hnext rfl hb
  | reset _ hbegins hseq hb =>
      exact hbeside (hl.begins hbegins (.inr hseq)) (by rw [sentLog, hbegins.sent, sentLog]) hb
  | baseline _ hbegins hseq _ _ hb =>
      exact hbeside (hl.begins hbegins (.inl hseq)) (by rw [sentLog, hbegins.sent, sentLog]) hb
  | commitTake =>
      refine ⟨hl.quiet rfl fun app seg seq rest hworker => ?_, List.prefix_rfl⟩
      simp only [Handler.commitTake] at hworker
      split at hworker <;> cases hworker
  | commitTranslated => exact hl.emitCommits _
  | commitFailed => exact ⟨hl.quiet rfl nofun, List.prefix_rfl⟩
  | @deltaSent app seg seq rest _ hworker =>
      obtain ⟨⟨m, hm, c, hc, rfl⟩, hseq⟩ := hl.pending app seg seq rest hworker
      have hlog := sentLog_send (.viDelta app h.stream.viSeq seg.enSeq) seg.epoch c.1
        { h with commitWorker := .deltaSent rest }
      refine ⟨⟨?_, ?_, nofun⟩, by rw [hlog]; exact List.prefix_append _ _⟩
      · rw [hlog]
        intro m' hm' c' hc'
        rcases List.mem_append.mp hm' with hm' | hm'
        · exact hl.positive m' hm' c' hc'
        · rw [List.mem_singleton.mp hm'] at hc'
          cases hc'
      · rw [hlog]
        intro pre append seq' enSeq hpre
        rw [List.prefix_concat_iff] at hpre
        rcases hpre with heq | hpre
        · obtain ⟨rfl, hlast⟩ := List.append_inj' heq rfl
          injection hlast with hlast
          injection hlast with _ hseq'
          subst hseq'
          exact ⟨m, hm, c, hc, hseq⟩
        · exact hl.follow pre append seq' enSeq hpre
  | commitsGoOn => exact hl.emitCommits _

end Sent

/-! ## What the overlay does with it -/

/-- An operation that only appends, with both numbers and no others. -/
theorem enqueueOpVI_eq (ins : JsStr) (enSeq seq : Int) (st : Vietnamese) :
    enqueueOpVI 0 ins ⟨none, none, some enSeq, some seq⟩ st =
      if enSeq < st.lastEnSeq then st
      else if seq ≤ st.lastCommitSeq then { st with lastEnSeq := enSeq }
      else
        { st with
          lastEnSeq := enSeq, lastCommitSeq := seq, ops := st.ops ++ [⟨0, ins⟩],
          scheduled := true } := by
  by_cases hen : enSeq < st.lastEnSeq
  · simp [enqueueOpVI, viGuardAndUpdate, guardEpoch, guardReqId, guardEnSeq, andCheck, hen]
  · by_cases hseq : seq ≤ st.lastCommitSeq
    · simp [enqueueOpVI, viGuardAndUpdate, guardEpoch, guardReqId, guardEnSeq, guardSeq, andCheck,
        hen, hseq]
    · have hmax : max st.lastCommitSeq seq = seq := by omega
      simp [enqueueOpVI, viGuardAndUpdate, guardEpoch, guardReqId, guardEnSeq, guardSeq, andCheck,
        hen, hseq, hmax, toInt32]

/-- Of a message without an epoch only the English number may stick. -/
structure Ignored (enSeq : Option Int) (st st' : Vietnamese) : Prop where
  commitText : st'.commitText = st.commitText
  ops : st'.ops = st.ops
  lastCommitSeq : st'.lastCommitSeq = st.lastCommitSeq
  lastEnSeq : st'.lastEnSeq = st.lastEnSeq ∨ enSeq = some st'.lastEnSeq

theorem guardDraft_ignored (reqId enSeq seq : Option Int) (st : Vietnamese) :
    Ignored enSeq st (viGuardAndUpdate ⟨none, reqId, enSeq, seq⟩ .draft st).1 := by
  have hreq : Ignored enSeq st (guardReqId reqId st).1 := by
    unfold guardReqId
    split
    · exact ⟨rfl, rfl, rfl, .inl rfl⟩
    · split <;> exact ⟨rfl, rfl, rfl, .inl rfl⟩
  have hen : ∀ st₁, Ignored enSeq st st₁ → Ignored enSeq st (guardEnSeq enSeq st₁).1 := by
    intro st₁ h₁
    unfold guardEnSeq
    split
    · exact h₁
    · split
      · exact h₁
      · exact ⟨h₁.commitText, h₁.ops, h₁.lastCommitSeq, .inr rfl⟩
  have hseq : ∀ st₁, Ignored enSeq st st₁ → Ignored enSeq st (guardSeq seq .draft st₁).1 := by
    intro st₁ h₁
    unfold guardSeq
    split
    · exact h₁
    · rw [if_pos rfl]
      split
      · exact h₁
      · exact ⟨h₁.commitText, h₁.ops, h₁.lastCommitSeq, h₁.lastEnSeq⟩
  have hcheck : ∀ (r : Vietnamese × Bool) (check : Vietnamese → Vietnamese × Bool),
      Ignored enSeq st r.1 → (∀ st₁, Ignored enSeq st st₁ → Ignored enSeq st (check st₁).1) →
        Ignored enSeq st (andCheck r check).1 := by
    intro r check hr hc
    rw [andCheck]
    split
    · exact hc r.1 hr
    · exact hr
  exact hcheck _ _ (hcheck _ _ hreq hen) hseq

theorem applyDraftVI_ignored (full : JsStr) (reqId enSeq seq : Option Int) (st : Vietnamese) :
    Ignored enSeq st (applyDraftVI full ⟨none, reqId, enSeq, seq⟩ st) := by
  have hguard := guardDraft_ignored reqId enSeq seq st
  simp only [applyDraftVI]
  split
  · split
    · exact ⟨hguard.commitText, hguard.ops, hguard.lastCommitSeq, hguard.lastEnSeq⟩
    · exact hguard
  · exact ⟨rfl, rfl, rfl, .inl rfl⟩

section Shows

variable {σ : Type} (cfg : Config σ)

/-- A text that the overlay keeps whole. -/
def Fits (t : JsStr) : Prop :=
  0 < cfg.viStateMaxChars → (t.length : Int) ≤ cfg.viStateMaxChars

/-- The service worker and the overlay after `log`: each commit passed once, and
nothing else changed the text. -/
structure Shows (log : List Out) (st : State σ) : Prop where
  passed : ∀ m ∈ log, ∀ c ∈ commitNumbers m,
    (c.1 : Int) ≤ st.lastRxViCommitSeq ∧ (c.1 : Int) ≤ st.overlay.lastCommitSeq
  lastCommit : st.overlay.lastCommitSeq = -1 ∨
    ∃ m ∈ log, ∃ c ∈ commitNumbers m, (c.1 : Int) = st.overlay.lastCommitSeq
  lastEn : st.overlay.lastEnSeq = -1 ∨ ∃ m ∈ log, enSeqOf m = some st.overlay.lastEnSeq
  appends : ∀ op ∈ st.overlay.ops, op.del = 0
  text : Fits cfg (committed log) →
    st.overlay.commitText ++ st.overlay.ops.flatMap Op.ins = committed log

variable {cfg}

theorem Fits.of_append {t u : JsStr} (h : Fits cfg (t ++ u)) : Fits cfg t := by
  intro hmax
  have hlen := h hmax
  rw [List.length_append] at hlen
  omega

theorem Shows.ignored {log : List Out} {st : State σ} (hs : Shows cfg log st) {m : Out}
    (hm : commitNumbers m = none) {overlay : Vietnamese}
    (hi : Ignored (enSeqOf m) st.overlay overlay) (relayed : Nat) :
    Shows cfg (log ++ [m]) { st with relayed, overlay } := by
  have happend : commitAppend m = [] := by
    cases m with
    | viCommit => cases hm
    | viDelta => rfl
    | viDraft => rfl
  refine ⟨?_, ?_, ?_, ?_, ?_⟩
  · intro m' hm' c hc
    rcases List.mem_append.mp hm' with hm' | hm'
    · rw [hi.lastCommitSeq]
      exact hs.passed m' hm' c hc
    · rw [List.mem_singleton.mp hm', hm] at hc
      cases hc
  · rw [hi.lastCommitSeq]
    rcases hs.lastCommit with hnone | ⟨m', hm', hc⟩
    · exact .inl hnone
    · exact .inr ⟨m', List.mem_append_left _ hm', hc⟩
  · rcases hi.lastEnSeq with heq | heq
    · dsimp only
      rw [heq]
      rcases hs.lastEn with hnone | ⟨m', hm', he⟩
      · exact .inl hnone
      · exact .inr ⟨m', List.mem_append_left _ hm', he⟩
    · exact .inr ⟨m, by simp, heq⟩
  · dsimp only
    rw [hi.ops]
    exact hs.appends
  · rw [committed_concat, happend, List.append_nil, hi.commitText, hi.ops]
    exact hs.text

/-- A commit that does not fall behind passes the guard. -/
theorem Shows.commit {log : List Out} {st : State σ} (hs : Shows cfg log st) {append : PyStr}
    {seq : Nat} {enSeq : Int} (hpos : 0 < seq) (hstart : -1 ≤ enSeq)
    (hbehind : ∀ m ∈ log, NotBehind m (.viCommit append seq enSeq)) :
    Shows cfg (log ++ [.viCommit append seq enSeq]) (relay (.viCommit append seq enSeq) st) := by
  have hen : ¬ enSeq < st.overlay.lastEnSeq := by
    rcases hs.lastEn with hnone | ⟨m, hm, he⟩
    · omega
    · have hle := (hbehind m hm _ rfl).1 _ he
      omega
  have hseq : ¬ (seq : Int) ≤ st.overlay.lastCommitSeq := by
    rcases hs.lastCommit with hnone | ⟨m, hm, c, hc, heq⟩
    · omega
    · have hlt := (hbehind m hm _ rfl).2 c hc
      dsimp only at hlt
      omega
  have hrelay : relay (.viCommit append seq enSeq) st = { st with
      relayed := st.relayed + 1
      lastRxViCommitSeq := max st.lastRxViCommitSeq seq
      overlay := { st.overlay with
        lastEnSeq := enSeq, lastCommitSeq := seq, ops := st.overlay.ops ++ [⟨0, append.toJs⟩],
        scheduled := true } } := by
    simp only [relay, onViMessage, handleVi, if_pos hpos, if_true]
    rw [enqueueOpVI_eq, if_neg hen, if_neg hseq]
  rw [hrelay]
  refine ⟨?_, ?_, ?_, ?_, ?_⟩
  · intro m hm c hc
    rcases List.mem_append.mp hm with hm | hm
    · have hlast := hs.passed m hm c hc
      have hlt := (hbehind m hm _ rfl).2 c hc
      dsimp only at hlt ⊢
      omega
    · rw [List.mem_singleton.mp hm] at hc
      cases hc
      dsimp only
      omega
  · exact .inr ⟨_, List.mem_append_right _ (List.mem_singleton_self _), _, rfl, rfl⟩
  · exact .inr ⟨_, List.mem_append_right _ (List.mem_singleton_self _), rfl⟩
  · intro op hop
    rcases List.mem_append.mp hop with hop | hop
    · exact hs.appends op hop
    · rw [List.mem_singleton.mp hop]
  · rw [committed_concat]
    intro hfits
    dsimp only
    rw [List.flatMap_append, ← List.append_assoc, hs.text hfits.of_append, List.flatMap_singleton]
    rfl

/-- A delta goes no further than its commit went. -/
theorem Shows.delta {log : List Out} {st : State σ} (hs : Shows cfg log st)
    (hpositive : ∀ m ∈ log, ∀ c ∈ commitNumbers m, 0 < c.1) {append : PyStr} {seq : Nat}
    {enSeq : Int} (hfollow : ∃ m ∈ log, ∃ c ∈ commitNumbers m, seq = c.1 ∨ seq = 0) :
    Shows cfg (log ++ [.viDelta append seq enSeq]) (relay (.viDelta append seq enSeq) st) := by
  obtain ⟨m, hm, c, hc, hseq⟩ := hfollow
  have hpos := hpositive m hm c hc
  obtain ⟨hrx, hlast⟩ := hs.passed m hm c hc
  rw [relay, onViMessage]
  rcases Nat.eq_zero_or_pos seq with hzero | hseqpos
  · -- The number of a delta whose commit was sent before a reset.
    subst hzero
    refine hs.ignored rfl ?_ _
    simp only [lt_irrefl, decide_false, Bool.false_and, Bool.not_false, if_true, handleVi]
    rw [enqueueOpVI_eq]
    split
    · exact ⟨rfl, rfl, rfl, .inl rfl⟩
    · rw [if_pos (by omega)]
      exact ⟨rfl, rfl, rfl, .inr rfl⟩
  · have hle : (seq : Int) ≤ st.lastRxViCommitSeq := by omega
    refine hs.ignored rfl ?_ _
    simp only [hseqpos, hle, decide_true, Bool.and_self, Bool.not_true, Bool.false_eq_true,
      if_false]
    exact ⟨rfl, rfl, rfl, .inl rfl⟩

theorem Shows.draft {log : List Out} {st : State σ} (hs : Shows cfg log st) (text : PyStr)
    (seq : Nat) (enSeq : Option Int) (reqId : Nat) :
    Shows cfg (log ++ [.viDraft text seq enSeq reqId]) (relay (.viDraft text seq enSeq reqId) st) :=
  hs.ignored rfl (applyDraftVI_ignored _ _ _ _ _) _

theorem applyOps_append {ops : List Op} (hops : ∀ op ∈ ops, op.del = 0) (text : JsStr) :
    ops.foldl applyOneOp text = text ++ ops.flatMap Op.ins := by
  induction ops generalizing text with
  | nil => simp
  | cons op ops ih =>
      have hdel := hops op (by simp)
      rw [List.foldl_cons, ih fun o ho => hops o (by simp [ho]), applyOneOp, List.flatMap_cons]
      simp [hdel]

theorem Shows.flush {log : List Out} {st : State σ} (hs : Shows cfg log st) :
    Shows cfg log { st with overlay := flushVI cfg.viStateMaxChars st.overlay } := by
  have hdrop : ∀ v : Vietnamese, Ignored none v (dropDiverged v) := by
    intro v
    rw [dropDiverged]
    split <;> exact ⟨rfl, rfl, rfl, .inl rfl⟩
  rw [flushVI]
  split
  · exact ⟨hs.passed, hs.lastCommit, hs.lastEn, hs.appends, hs.text⟩
  · generalize hv : ({ st.overlay with
      commitText := boundVI cfg.viStateMaxChars (st.overlay.ops.foldl applyOneOp
        st.overlay.commitText)
      ops := [], scheduled := false } : Vietnamese) = v
    have hd := hdrop v
    have hen : (dropDiverged v).lastEnSeq = v.lastEnSeq := by
      rcases hd.lastEnSeq with heq | heq
      · exact heq
      · cases heq
    subst hv
    refine ⟨?_, ?_, ?_, ?_, ?_⟩ <;> dsimp only
    · rw [hd.lastCommitSeq]
      exact hs.passed
    · rw [hd.lastCommitSeq]
      exact hs.lastCommit
    · rw [hen]
      exact hs.lastEn
    · rw [hd.ops]
      exact nofun
    · intro hfits
      rw [hd.commitText, hd.ops, applyOps_append hs.appends, hs.text hfits, boundVI, boundEN,
        if_neg (by rintro ⟨hmax, hlong⟩; have hle := hfits hmax; omega)]
      simp

/-! ## Runs -/

variable (cfg) in
/-- What holds in every state of a run: the overlay shows what was relayed. -/
structure Relaying (st : State σ) : Prop where
  sent : LogOk st.handler
  relayed : st.relayed ≤ (sentLog st.handler).length
  shows : Shows cfg ((sentLog st.handler).take st.relayed) st

/-- The message that is relayed next is no commit that falls behind an earlier
message, or behind the number with which the overlay begins. -/
def RelaysInOrder (st : State σ) : Label → Prop
  | .relay => ∀ m ∈ (sentLog st.handler)[st.relayed]?,
      (∀ m' ∈ (sentLog st.handler).take st.relayed, NotBehind m' m) ∧
        ∀ c ∈ commitNumbers m, -1 ≤ c.2
  | .handler _ | .frame => True

instance (st : State σ) : (l : Label) → Decidable (RelaysInOrder st l)
  | .relay => inferInstanceAs (Decidable (∀ m ∈ (sentLog st.handler)[st.relayed]?,
      (∀ m' ∈ (sentLog st.handler).take st.relayed, NotBehind m' m) ∧
        ∀ c ∈ commitNumbers m, -1 ≤ c.2))
  | .handler _ | .frame => isTrue trivial

theorem Relaying.init (seg : σ) (overlay : Vietnamese) :
    Relaying cfg (State.init cfg seg overlay) where
  sent := .init seg
  relayed := Nat.zero_le _
  shows := ⟨nofun, .inl rfl, .inl rfl, nofun, fun _ => rfl⟩

theorem Relaying.relay {st : State σ} (hr : Relaying cfg st) {m : Out}
    (hm : (sentLog st.handler)[st.relayed]? = some m)
    (hbehind : ∀ m' ∈ (sentLog st.handler).take st.relayed, NotBehind m' m)
    (hstart : ∀ c ∈ commitNumbers m, -1 ≤ c.2) : Relaying cfg (relay m st) := by
  have htake : (sentLog st.handler).take (st.relayed + 1) =
      (sentLog st.handler).take st.relayed ++ [m] := by
    rw [List.take_add_one, hm]
    rfl
  have hprefix : (sentLog st.handler).take st.relayed ++ [m] <+: sentLog st.handler := by
    rw [← htake]
    exact List.take_prefix _ _
  have hpositive : ∀ m ∈ (sentLog st.handler).take st.relayed, ∀ c ∈ commitNumbers m,
      0 < c.1 := fun m hm => hr.sent.positive m (List.mem_of_mem_take hm)
  refine ⟨hr.sent, (List.getElem?_eq_some_iff.mp hm).1, ?_⟩
  have hrelayed : (Translation.relay m st).relayed = st.relayed + 1 := rfl
  have hhandler : (Translation.relay m st).handler = st.handler := rfl
  rw [hhandler, hrelayed, htake]
  cases m with
  | viCommit append seq enSeq =>
      have hpos := hr.sent.positive _ (List.mem_of_getElem? hm) (seq, enSeq) rfl
      exact hr.shows.commit hpos (hstart _ rfl) hbehind
  | viDelta append seq enSeq =>
      exact hr.shows.delta hpositive (hr.sent.follow _ append seq enSeq hprefix)
  | viDraft text seq enSeq reqId => exact hr.shows.draft text seq enSeq reqId

theorem Relaying.step {st st' : State σ} {l : Label} (hr : Relaying cfg st)
    (horder : RelaysInOrder st l) (hstep : step cfg st l = some st') : Relaying cfg st' := by
  cases l with
  | handler l =>
      simp only [Translation.step, Option.map_eq_some_iff] at hstep
      obtain ⟨handler, hstep, rfl⟩ := hstep
      obtain ⟨hsent, new, hnew⟩ := hr.sent.step hstep
      have htake : (sentLog handler).take st.relayed = (sentLog st.handler).take st.relayed := by
        rw [← hnew, List.take_append_of_le_length hr.relayed]
      refine ⟨hsent, ?_, ?_⟩ <;> dsimp only
      · rw [← hnew, List.length_append]
        exact hr.relayed.trans (Nat.le_add_right _ _)
      · rw [htake]
        obtain ⟨h₁, h₂, h₃, h₄, h₅⟩ := hr.shows
        exact ⟨h₁, h₂, h₃, h₄, h₅⟩
  | relay =>
      simp only [Translation.step, Option.map_eq_some_iff] at hstep
      obtain ⟨o, ho, rfl⟩ := hstep
      have hm : (sentLog st.handler)[st.relayed]? = some o.out := by
        rw [sentLog, List.getElem?_map, ho, Option.map_some]
      obtain ⟨hbehind, hstart⟩ := horder _ hm
      exact hr.relay hm hbehind hstart
  | frame =>
      injection hstep with hstep
      rw [← hstep]
      exact ⟨hr.sent, hr.relayed, hr.shows.flush⟩

variable (cfg)

/-- After any run the overlay shows every commit that was sent, each once. -/
def AllShown (seg : σ) (overlay : Vietnamese) (ls : List Label) : Prop :=
  ∀ st ∈ run (step cfg) (.init cfg seg overlay) ls, st.processed = true →
    Fits cfg (committed (sentLog st.handler)) →
      st.overlay.commitText = committed (sentLog st.handler)

instance (t : JsStr) : Decidable (Fits cfg t) := inferInstanceAs (Decidable (_ → _))

instance (seg : σ) (overlay : Vietnamese) (ls : List Label) :
    Decidable (AllShown cfg seg overlay ls) :=
  inferInstanceAs (Decidable (∀ st ∈ run (step cfg) (.init cfg seg overlay) ls,
    st.processed = true → Fits cfg (committed (sentLog st.handler)) →
      st.overlay.commitText = committed (sentLog st.handler)))

/-- The overlay shows the whole translation in every run in which no commit
falls behind what was sent before it. -/
theorem commits_shown (seg : σ) (overlay : Vietnamese) (ls : List Label)
    (horder : Guarded (step cfg) RelaysInOrder (.init cfg seg overlay) ls) :
    AllShown cfg seg overlay ls := by
  intro st hrun hprocessed hfits
  have hr : Relaying cfg st :=
    run_guarded (fun _ _ _ hr ho hs => Relaying.step hr ho hs) (.init seg overlay) horder hrun
  rw [State.processed, Bool.and_eq_true, beq_iff_eq, List.isEmpty_iff] at hprocessed
  have htext := hr.shows.text
  rw [hprocessed.1, sentLog, List.take_of_length_le (by rw [List.length_map]), ← sentLog] at htext
  have hshown := htext hfits
  rwa [hprocessed.2, List.flatMap_nil, List.append_nil] at hshown

end Shows

/-! ## Runs with drafts -/

/-- The settings when drafts are asked for. -/
def draftConfig : Config Unit := ⟨{ defaultHandler with enableViDraft := true }, 4200⟩

/-- A sentence that is seen twice and goes to the machine translation. -/
def translatesHi : List Label :=
  [.handler (.receive (message .stable 1 "Hi. Yo.") ⟨1, 1⟩), .handler (.readerResume 1),
    .handler (.receive (message .stable 2 "Hi. Yo.") ⟨2, 2⟩), .handler (.readerResume 2),
    .handler .commitTake]

theorem commits_shown_in_time : AllShown draftConfig () .init (translatesHi ++
    [.handler (.commitTranslated ["Chào.".toList]), .handler .commitResume,
      .relay, .relay, .relay, .relay, .frame]) :=
  commits_shown _ _ _ _ (by decide)

/-- The next update clears the draft before the translation is there: the commit
comes with a lower English number and is dropped. -/
theorem draft_clear_overtakes : ¬ AllShown draftConfig () .init (translatesHi ++
    [.handler (.receive (message .stable 3 "Hi. Yo. No") ⟨3, 3⟩), .handler (.readerResume 3),
      .handler (.commitTranslated ["Chào.".toList]), .handler .commitResume,
      .relay, .relay, .relay, .relay, .relay, .frame]) := by
  decide

end VTranser.Translation

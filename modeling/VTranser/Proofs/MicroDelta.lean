import VTranser.Server.MicroDelta

/-!
# When micro deltas send the text of the patch

The packing loop neither drops nor reorders units: whatever the limits are, its
messages are `cutMsgs` of pieces that concatenate to the units
(`emit_micro_cut`). So the micro deltas agree with the plain message exactly
when the units concatenate to the text, and that is a property of the text
alone. A match of `_TK` starts with a token character and takes the blanks
behind it; what it cannot take is a blank with no token before it, or a
character of no class. `microCovered` says that the text has neither.

The patches of a growing transcript begin with a blank as a rule, since what is
kept ends with the last old word.
-/

namespace VTranser.Server

open Regex EndPatch

/-- A character group 1 of `_TK` can take. -/
def tokenChar (k : TokenClasses) (c : Char) : Bool :=
  onChar k.word c || onChar tokenPunct c || onChar tokenMark c

/-- The text starts with a token character, if it has any, and holds nothing
but token characters and blanks. -/
def microCovered (k : TokenClasses) (ins : PyStr) : Bool :=
  (ins.take 1).all (tokenChar k) && ins.all fun c => tokenChar k c || onChar k.space c

/-! ## One match of the tokenizer -/

section Tokenizer

variable {k : TokenClasses}

theorem tkCore_rests_length {s t : List Char} (h : t ∈ (tkCore k).rests s) :
    t.length < s.length := by
  simp only [tkCore, Re.rests, List.mem_append] at h
  rcases h with h | h | h
  · exact plus_rests_length h
  · exact plus_rests_length h
  · cases s with
    | nil => cases h
    | cons c cs =>
        rw [Re.rests] at h
        split at h
        · rw [List.mem_singleton.mp h]; exact Nat.lt_succ_self _
        · cases h

theorem tkCore_rests_nil : (tkCore k).rests [] = [] := by
  simp [tkCore, Re.plus, Re.rests]

theorem tkCore_rests_of_not {c : Char} {cs : List Char} (hc : tokenChar k c = false) :
    (tkCore k).rests (c :: cs) = [] := by
  simp only [tokenChar, Bool.or_eq_false_iff] at hc
  simp [tkCore, Re.plus, Re.rests, hc.1.1, hc.1.2, hc.2]

/-- From a token character on, group 1 takes a run of token characters. -/
theorem tkCore_head {c : Char} (cs : List Char) (hc : tokenChar k c = true) :
    ∃ w t, cs = w ++ t ∧ w.all (tokenChar k) = true ∧
      ((tkCore k).rests (c :: cs)).head? = some t := by
  have hrun : ∀ p : Char → Bool, (∀ d, p d = true → tokenChar k d = true) →
      ∃ w t, cs = w ++ t ∧ w.all (tokenChar k) = true ∧ cs.dropWhile p = t := by
    intro p hp
    refine ⟨cs.takeWhile p, cs.dropWhile p, List.takeWhile_append_dropWhile.symm, ?_, rfl⟩
    rw [List.all_eq_true]
    intro d hd
    exact hp d (List.mem_takeWhile_imp hd)
  cases hw : onChar k.word c with
  | true =>
      obtain ⟨w, t, hsplit, hall, ht⟩ := hrun (onChar k.word)
        fun d hd => by simp [tokenChar, hd]
      refine ⟨w, t, hsplit, hall, ?_⟩
      rw [tkCore, Re.rests, List.head?_append, plus_rests_head hw, ht]
      rfl
  | false =>
      cases hp : onChar tokenPunct c with
      | true =>
          obtain ⟨w, t, hsplit, hall, ht⟩ := hrun (onChar tokenPunct)
            fun d hd => by simp [tokenChar, hd]
          refine ⟨w, t, hsplit, hall, ?_⟩
          rw [tkCore, Re.rests, plus_rests_of_not hw, List.nil_append, Re.rests,
            List.head?_append, plus_rests_head hp, ht]
          rfl
      | false =>
          have hm : onChar tokenMark c = true := by simpa [tokenChar, hw, hp] using hc
          refine ⟨[], cs, rfl, rfl, ?_⟩
          rw [tkCore, Re.rests, plus_rests_of_not hw, List.nil_append, Re.rests,
            plus_rests_of_not hp, List.nil_append, Re.rests, if_pos hm]
          rfl

theorem tk_total (k : TokenClasses) (t : List Char) :
    ((tkBlank k).rests t).head? = some (t.dropWhile (onChar k.space)) :=
  starRests_head _ t

/-- The text of a match is its two groups. -/
theorem tk_reads (k : TokenClasses) : Reads (readPair (tkCore k) (tkBlank k)) (fun v => v.1 ++ v.2) where
  split h := by rw [List.append_assoc]; exact readPair_split h
  pos {s b t} h := by
    rw [readPair_of_total _ (tk_total k), Option.map_eq_some_iff] at h
    obtain ⟨u, hu, heq⟩ := h
    injection heq with hb _
    have hlt := tkCore_rests_length (List.mem_of_mem_head? hu)
    intro hnil
    have hlen := congrArg List.length (List.append_eq_nil_iff.mp hnil).1
    rw [← hb] at hlen
    simp only [List.length_take, List.length_nil] at hlen
    omega

theorem tk_read_of_not {c : Char} {cs : List Char} (hc : tokenChar k c = false) :
    readPair (tkCore k) (tkBlank k) (c :: cs) = none := by
  rw [readPair_of_total _ (tk_total k), tkCore_rests_of_not hc]
  rfl

/-- From a token character on there is a match: token characters, blanks, and
then no blank. -/
theorem tk_read_of_token {c : Char} (cs : List Char) (hc : tokenChar k c = true) :
    ∃ v t, readPair (tkCore k) (tkBlank k) (c :: cs) = some (v, t) ∧
      (v.1 ++ v.2).all (fun d => tokenChar k d || onChar k.space d) = true ∧
      (t.take 1).all (fun d => !onChar k.space d) = true := by
  obtain ⟨w, u, hsplit, hall, hhead⟩ := tkCore_head cs hc
  have htk := readPair_of_total (tkCore k) (tk_total k) (c :: cs)
  rw [hhead] at htk
  refine ⟨_, _, htk, ?_, ?_⟩
  · have hw : (c :: cs).take ((c :: cs).length - u.length) = c :: w :=
      take_sub_length (by rw [hsplit, List.cons_append])
    rw [hw, List.all_append, Bool.and_eq_true, List.all_eq_true, List.all_eq_true]
    refine ⟨fun d hd => ?_, fun d hd => ?_⟩
    · rcases List.mem_cons.mp hd with rfl | hd
      · simp [hc]
      · simp [List.all_eq_true.mp hall d hd]
    · have hd' : d ∈ u.takeWhile (onChar k.space) := by
        have htake : u.take (u.length - (u.dropWhile (onChar k.space)).length) =
            u.takeWhile (onChar k.space) :=
          take_sub_length List.takeWhile_append_dropWhile.symm
        rwa [htake] at hd
      have := List.mem_takeWhile_imp hd'
      simp [this]
  · exact dropWhile_head_not _ u

theorem microCovered_cons {c : Char} {cs : PyStr} :
    microCovered k (c :: cs) = true ↔
      tokenChar k c = true ∧ cs.all (fun d => tokenChar k d || onChar k.space d) = true := by
  simp only [microCovered, List.take_succ_cons, List.take_zero, List.all_cons, List.all_nil,
    Bool.and_true, Bool.and_eq_true, Bool.or_eq_true]
  exact ⟨fun h => ⟨h.1, h.2.2⟩, fun h => ⟨h.1, Or.inl h.1, h.2⟩⟩

theorem microCovered_all {ins : PyStr} (h : microCovered k ins = true) :
    ins.all (fun d => tokenChar k d || onChar k.space d) = true := by
  simp only [microCovered, Bool.and_eq_true] at h
  exact h.2

/-- What follows a match in a text of token characters and blanks is covered
again: it does not start with a blank. -/
theorem microCovered_rest (v : PyStr × PyStr) {t : PyStr}
    (hall : (v.1 ++ v.2 ++ t).all (fun d => tokenChar k d || onChar k.space d) = true)
    (hhead : (t.take 1).all (fun d => !onChar k.space d) = true) :
    microCovered k t = true := by
  rw [List.all_append, Bool.and_eq_true] at hall
  rw [microCovered, hall.2, Bool.and_true]
  cases t with
  | nil => rfl
  | cons c cs =>
      simp only [List.take_succ_cons, List.take_zero, List.all_cons, List.all_nil,
        Bool.and_true, Bool.not_eq_true', Bool.and_eq_true, Bool.or_eq_true] at hhead hall ⊢
      rcases hall.2.1 with h | h
      · exact h
      · rw [hhead] at h; cases h

/-- The tokenizer leaves nothing out exactly of the covered texts. -/
theorem tk_covers_iff (ins : PyStr) :
    ((∀ h ∈ (scan (readPair (tkCore k) (tkBlank k)) ins).1, h.skipped = []) ∧
        (scan (readPair (tkCore k) (tkBlank k)) ins).2 = []) ↔
      microCovered k ins = true := by
  refine scan_induction (tk_reads k) (motive := fun ins =>
    ((∀ h ∈ (scan (readPair (tkCore k) (tkBlank k)) ins).1, h.skipped = []) ∧
        (scan (readPair (tkCore k) (tkBlank k)) ins).2 = []) ↔
      microCovered k ins = true) ?_ ?_ ins
  · intro s hs
    rw [scan_none hs]
    cases s with
    | nil => simp [microCovered]
    | cons c cs =>
        have hc : tokenChar k c = false := by
          by_contra hc
          obtain ⟨v, t, hread, -, -⟩ := tk_read_of_token cs (by simpa using hc)
          rw [search_of_match hread] at hs
          cases hs
        simp [microCovered_cons, hc]
  · intro s sk v t hs ih
    rw [scan_some (tk_reads k) hs]
    simp only [List.forall_mem_cons]
    rw [and_assoc, ih]
    constructor
    · rintro ⟨hsk, ht⟩
      subst hsk
      have hm := search_nil_skipped hs
      cases s with
      | nil =>
          rw [readPair_of_total _ (tk_total k), tkCore_rests_nil] at hm
          cases hm
      | cons c cs =>
          have hc : tokenChar k c = true := by
            by_contra hc
            rw [tk_read_of_not (by simpa using hc)] at hm
            cases hm
          obtain ⟨v', t', hread, hall, -⟩ := tk_read_of_token cs hc
          rw [hm] at hread
          injection hread with hread
          injection hread with hv ht'
          subst hv ht'
          have hsplit : c :: cs = v.1 ++ v.2 ++ t := (tk_reads k).split hm
          have hcs : (c :: cs).all (fun d => tokenChar k d || onChar k.space d) = true := by
            rw [hsplit, List.all_append, hall, microCovered_all ht]
            rfl
          rw [List.all_cons, Bool.and_eq_true] at hcs
          exact microCovered_cons.mpr ⟨hc, hcs.2⟩
    · intro hcov
      cases s with
      | nil =>
          simp only [search, readPair_of_total _ (tk_total k), tkCore_rests_nil] at hs
          cases hs
      | cons c cs =>
          have hc := (microCovered_cons.mp hcov).1
          obtain ⟨v', t', hread, -, hhead⟩ := tk_read_of_token cs hc
          rw [search_of_match hread] at hs
          simp only [Option.some.injEq, Prod.mk.injEq] at hs
          obtain ⟨rfl, rfl, rfl⟩ := hs
          have hsplit : c :: cs = v'.1 ++ v'.2 ++ t' := (tk_reads k).split hread
          refine ⟨rfl, microCovered_rest v' ?_ hhead⟩
          rw [← hsplit]
          exact microCovered_all hcov

/-- The units of a text concatenate to it exactly when it is covered. -/
theorem joinEmits_tokenUnits_iff (ins : PyStr) :
    joinEmits (tokenUnits k ins) = ins ↔ microCovered k ins = true := by
  rw [← tk_covers_iff, ← scan_covers_iff (tk_reads k), joinEmits, tokenUnits, List.flatMap_map]

end Tokenizer

/-! ## The packing loop -/

section Packing

variable {d seq : Nat} {tMs : Int}

theorem cutMsgs_snoc {ps : List PyStr} (hps : ps ≠ []) (p : PyStr) :
    cutMsgs d seq tMs ps ++ [⟨0, p, seq, tMs⟩] = cutMsgs d seq tMs (ps ++ [p]) := by
  cases ps with
  | nil => exact absurd rfl hps
  | cons q qs => simp [cutMsgs]

theorem applyMsgs_cutMsgs {ps : List PyStr} (hps : ps ≠ []) (text : PyStr) :
    applyMsgs text (cutMsgs d seq tMs ps) = applyEnd text d ps.flatten := by
  cases ps with
  | nil => exact absurd rfl hps
  | cons p ps =>
      rw [applyMsgs, cutMsgs, List.map_cons, applyAll_cons, applyAll_appends]
      · simp [applyEnd, List.flatMap_map, Function.comp_def]
      · simp

theorem cutMsgs_inserts (ps : List PyStr) :
    (cutMsgs d seq tMs ps).flatMap PatchMsg.insert = ps.flatten := by
  cases ps with
  | nil => rfl
  | cons p ps => simp [cutMsgs, List.flatMap_map]

theorem cutMsgs_delete_sum {ps : List PyStr} (hps : ps ≠ []) :
    ((cutMsgs d seq tMs ps).map PatchMsg.delete).sum = d := by
  cases ps with
  | nil => exact absurd rfl hps
  | cons p ps =>
      have hzero : ∀ qs : List PyStr,
          ((qs.map fun q => (⟨0, q, seq, tMs⟩ : PatchMsg)).map PatchMsg.delete).sum = 0 := by
        intro qs
        induction qs with
        | nil => rfl
        | cons q qs ih => simpa using ih
      rw [cutMsgs, List.map_cons, List.sum_cons, hzero, Nat.add_zero]

theorem cutMsgs_tail_delete (ps : List PyStr) :
    ∀ m ∈ (cutMsgs d seq tMs ps).tail, m.delete = 0 := by
  cases ps with
  | nil => simp [cutMsgs]
  | cons p ps => simp [cutMsgs]

/-- Where the packing loop stands after the text `done`: nothing sent yet, or
pieces sent under the delete and the rest in a buffer that is not empty. -/
def ChunkInv (d seq : Nat) (tMs : Int) (done : PyStr) (st : ChunkState) : Prop :=
  (st.first = true ∧ st.sent = [] ∧ joinEmits st.buf = done) ∨
    (st.first = false ∧ st.buf ≠ [] ∧
      ∃ ps, ps ≠ [] ∧ st.sent = cutMsgs d seq tMs ps ∧ ps.flatten ++ joinEmits st.buf = done)

/-- What flushing the buffer sends, under the invariant. -/
theorem chunkInv_flush {done : PyStr} {st : ChunkState} (h : ChunkInv d seq tMs done st) :
    ∃ ps, ps ≠ [] ∧ ps.flatten = done ∧
      st.sent ++ [⟨if st.first then d else 0, joinEmits st.buf, seq, tMs⟩] =
        cutMsgs d seq tMs ps := by
  rcases h with ⟨hf, hs, hb⟩ | ⟨hf, -, ps, hps, hs, hb⟩
  · exact ⟨[joinEmits st.buf], by simp, by simpa using hb, by simp [hs, hf, cutMsgs]⟩
  · refine ⟨ps ++ [joinEmits st.buf], by simp, by simpa using hb, ?_⟩
    rw [hs, hf, if_neg (by simp)]
    exact cutMsgs_snoc hps _

theorem chunkStep_inv (cfg : UiConfig) {done : PyStr} {st : ChunkState}
    (h : ChunkInv d seq tMs done st) (u : PyStr × PyStr) :
    ChunkInv d seq tMs (done ++ u.1) (chunkStep cfg d seq tMs st u) := by
  rw [chunkStep]
  split
  · obtain ⟨ps, hps, hdone, hsent⟩ := chunkInv_flush h
    exact Or.inr ⟨rfl, by simp, ps, hps, hsent, by simp [joinEmits, hdone]⟩
  · rcases h with ⟨hf, hs, hb⟩ | ⟨hf, hne, ps, hps, hs, hb⟩
    · exact Or.inl ⟨hf, hs, by simp [joinEmits, ← hb]⟩
    · exact Or.inr ⟨hf, by simp, ps, hps, hs, by simp [joinEmits, ← hb]⟩

theorem chunkFold_inv (cfg : UiConfig) : ∀ (us : List (PyStr × PyStr)) {done : PyStr}
    {st : ChunkState}, ChunkInv d seq tMs done st →
    ChunkInv d seq tMs (done ++ joinEmits us) (us.foldl (chunkStep cfg d seq tMs) st) := by
  intro us
  induction us with
  | nil => intro done st h; simpa [joinEmits] using h
  | cons u us ih =>
      intro done st h
      have hrec := ih (chunkStep_inv cfg h u)
      rwa [List.append_assoc, joinEmits, ← List.flatMap_cons, ← joinEmits] at hrec

/-- With micro deltas on, a nonempty text goes out as pieces that concatenate
to its token units, the delete on the first of them. -/
theorem emit_micro_cut {cfg : UiConfig} (k : TokenClasses) (d seq : Nat) (tMs : Int) {ins : PyStr}
    (hcfg : cfg.microDeltaEnable = true) (hins : ins ≠ []) :
    ∃ ps, ps.flatten = joinEmits (tokenUnits k ins) ∧
      emitPatchInsertChunked cfg k d ins seq tMs = cutMsgs d seq tMs ps := by
  have hinit : ChunkInv d seq tMs [] ⟨[], 0, true, []⟩ := Or.inl ⟨rfl, rfl, rfl⟩
  have hinv := chunkFold_inv cfg (tokenUnits k ins) hinit
  rw [List.nil_append] at hinv
  rw [emitPatchInsertChunked, if_neg (by simpa using hins), if_neg (by simp [hcfg])]
  simp only
  split
  · next hbuf =>
      rcases hinv with ⟨-, hs, hb⟩ | ⟨-, hne, -⟩
      · rw [List.isEmpty_iff.mp hbuf] at hb
        exact ⟨[], hb, hs⟩
      · exact absurd (List.isEmpty_iff.mp hbuf) hne
  · obtain ⟨ps, -, hps, hsent⟩ := chunkInv_flush hinv
    exact ⟨ps, hps, hsent⟩

end Packing

/-! ## The two ways of sending compared -/

/-- The micro deltas do to every long enough text what the plain message does,
they insert exactly the text of the patch, and the delete is carried once, by
the first of them. -/
def MicroAgrees (cfg : UiConfig) (k : TokenClasses) (d : Nat) (ins : PyStr) (seq : Nat)
    (tMs : Int) : Prop :=
  let micro := emitPatchInsertChunked { cfg with microDeltaEnable := true } k d ins seq tMs
  let plain := emitPatchInsertChunked { cfg with microDeltaEnable := false } k d ins seq tMs
  (∀ base : PyStr, d ≤ base.length → applyMsgs base micro = applyMsgs base plain) ∧
    micro.flatMap PatchMsg.insert = ins ∧
    (micro.map PatchMsg.delete).sum = d ∧ ∀ m ∈ micro.tail, m.delete = 0

theorem emit_plain {cfg : UiConfig} (k : TokenClasses) (d seq : Nat) (tMs : Int) {ins : PyStr}
    (hcfg : cfg.microDeltaEnable = false) (hins : ins ≠ []) :
    emitPatchInsertChunked cfg k d ins seq tMs = [⟨d, ins, seq, tMs⟩] := by
  rw [emitPatchInsertChunked, if_neg (by simpa using hins), if_pos (by simp [hcfg])]

theorem microAgrees_nil (cfg : UiConfig) (k : TokenClasses) (d seq : Nat) (tMs : Int) :
    MicroAgrees cfg k d [] seq tMs := by
  simp only [MicroAgrees, emitPatchInsertChunked, List.isEmpty_nil, if_true]
  split
  · simp
  · next hd => simp only [ne_eq, Decidable.not_not] at hd; simp [hd]

/-- The micro-delta path agrees with the plain path exactly on the covered
insert texts. -/
theorem microDelta_agrees_iff (cfg : UiConfig) (k : TokenClasses) (d : Nat) (ins : PyStr)
    (seq : Nat) (tMs : Int) :
    MicroAgrees cfg k d ins seq tMs ↔ microCovered k ins = true := by
  by_cases hins : ins = []
  · subst hins
    exact iff_of_true (microAgrees_nil cfg k d seq tMs) (by simp [microCovered])
  have hon : ({ cfg with microDeltaEnable := true } : UiConfig).microDeltaEnable = true := rfl
  have hoff : ({ cfg with microDeltaEnable := false } : UiConfig).microDeltaEnable = false := rfl
  obtain ⟨ps, hps, hmicro⟩ := emit_micro_cut k d seq tMs hon hins
  have hplain := emit_plain k d seq tMs hoff hins
  rw [← joinEmits_tokenUnits_iff, ← hps, MicroAgrees]
  simp only [hmicro, hplain, cutMsgs_inserts]
  refine ⟨fun h => h.2.1, fun h => ?_⟩
  have hne : ps ≠ [] := by
    rintro rfl
    exact hins h.symm
  refine ⟨fun base _ => ?_, h, cutMsgs_delete_sum hne, cutMsgs_tail_delete ps⟩
  rw [applyMsgs_cutMsgs hne, h]
  simp [applyMsgs, applyAll]

/-- The default limits. -/
def defaultUi : UiConfig := ⟨true, 48, 12⟩

/-- `hello` shown, then `hello world`: the micro delta is `world`, without the
blank. -/
theorem microDelta_loses_leading_blank :
    ¬ MicroAgrees defaultUi reClasses 0 " world".toList 2 0 := by
  intro h
  have hlost : (emitPatchInsertChunked { defaultUi with microDeltaEnable := true } reClasses 0
      " world".toList 2 0).flatMap PatchMsg.insert = "world".toList := by decide
  rw [h.2.1] at hlost
  exact absurd hlost (by decide)

end VTranser.Server

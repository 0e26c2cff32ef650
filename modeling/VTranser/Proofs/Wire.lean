import VTranser.Lib.Run
import VTranser.Proofs.NormSpaces
import VTranser.Translator.Wire

/-!
# The socket of the translator changes nothing

What the service worker sends, the translator reads as the message it is, with its text
and its numbers, and handles as that; and its own messages are in the browser the objects
they were.
-/

namespace VTranser.Translator.Wire

open Json (Numeral Style Writable digits integer isDigit)
open Server (PyFloat PyJson getKey intOfStr)

/-! ## Integers -/

/-- The digits of a number, with a sign in front if it is negative. -/
theorem toString_int (n : Int) :
    (toString n).toList = (if n < 0 then ['-'] else []) ++ Nat.toDigits 10 n.natAbs := by
  cases n with
  | ofNat m =>
      rw [if_neg (show ¬ Int.ofNat m < 0 from Int.not_lt.mpr (Int.natCast_nonneg m))]
      exact Nat.toList_repr
  | negSucc m =>
      rw [if_pos (Int.negSucc_lt_zero m)]
      simp [toString, Int.repr]

theorem digit_bounds {c : Char} {n : Nat} (h : c ∈ Nat.toDigits 10 n) :
    48 ≤ c.toNat ∧ c.toNat ≤ 57 := by
  have hdigit := Nat.isDigit_of_mem_toDigits (by decide) (by decide) h
  simpa [Char.isDigit, UInt32.le_iff_toNat_le] using hdigit

/-- The code unit of a digit. -/
theorem units_digit {c : Char} (h : 48 ≤ c.toNat ∧ c.toNat ≤ 57) :
    ∃ u, Utf16.units c = [u] ∧ u.toNat = c.toNat := by
  have hbmp : Utf16.inBmp c = true := by
    simp only [Utf16.inBmp, decide_eq_true_eq, UInt32.lt_iff_toNat_lt]
    exact Nat.lt_of_le_of_lt h.2 (by decide)
  refine ⟨_, by rw [Utf16.units, if_pos hbmp], ?_⟩
  rw [UInt32.toNat_toUInt16]
  exact Nat.mod_eq_of_lt (Nat.lt_of_le_of_lt h.2 (by decide))

theorem isDigit_iff {u : UInt16} : isDigit u = true ↔ 48 ≤ u.toNat ∧ u.toNat ≤ 57 := by
  simp [isDigit, UInt16.le_iff_toNat_le]

theorem dropWhile_digits {cs : List Char} (h : ∀ c ∈ cs, 48 ≤ c.toNat ∧ c.toNat ≤ 57) :
    (Utf16.utf16 cs).dropWhile isDigit = [] := by
  rw [List.dropWhile_eq_nil_iff]
  intro u hu
  obtain ⟨c, hc, hu⟩ := List.mem_flatMap.mp hu
  obtain ⟨v, hv, hnat⟩ := units_digit (h c hc)
  rw [hv, List.mem_singleton] at hu
  rw [hu, isDigit_iff, hnat]
  exact h c hc

/-- A number does not begin with a zero, unless it is one. -/
theorem head_toDigits {n : Nat} (hn : 0 < n) : (Nat.toDigits 10 n).head? ≠ some '0' := by
  induction n using Nat.strongRecOn with
  | _ n ih =>
      by_cases hlt : n < 10
      · have hall : ∀ m : Fin 10, 0 < m.val → (some (Nat.digitChar m) : Option Char) ≠ some '0' := by
          decide
        rw [Nat.toDigits_of_lt_base hlt]
        exact hall ⟨n, hlt⟩ hn
      · rw [Nat.toDigits_of_base_le (by decide) (by omega), List.head?_append_of_ne_nil _
          Nat.toDigits_ne_nil]
        exact ih (n / 10) (by omega) (by omega)

theorem integer_toDigits (n : Nat) :
    integer (Utf16.utf16 (Nat.toDigits 10 n)) = some [] := by
  rcases Nat.eq_zero_or_pos n with rfl | hn
  · decide
  · have hhead := head_toDigits hn
    have hdigits : ∀ c ∈ Nat.toDigits 10 n, 48 ≤ c.toNat ∧ c.toNat ≤ 57 := fun c => digit_bounds
    cases hcs : Nat.toDigits 10 n with
    | nil => exact absurd hcs Nat.toDigits_ne_nil
    | cons c cs =>
        rw [hcs] at hhead hdigits
        obtain ⟨u, hu, hnat⟩ := units_digit (hdigits c List.mem_cons_self)
        have hzero : u ≠ 0x30 := by
          rintro rfl
          have hc : c = '0' := Char.toNat_inj.mp hnat.symm
          exact hhead (by rw [List.head?_cons, hc])
        have hdigit : isDigit u = true :=
          isDigit_iff.mpr (hnat ▸ hdigits c List.mem_cons_self)
        rw [Utf16.utf16_cons, hu, List.singleton_append, integer, if_neg hzero, digits,
          if_pos hdigit, dropWhile_digits fun c hc => hdigits c (List.mem_cons_of_mem _ hc)]

theorem numeral_toString (n : Int) : Numeral (jsText (toString n)) := by
  have hsign : Json.skipSign 0x2D 0x2D (jsText (toString n)) =
      Utf16.utf16 (Nat.toDigits 10 n.natAbs) := by
    rw [jsText, PyStr.toJs, toString_int]
    split
    · rfl
    · cases hcs : Nat.toDigits 10 n.natAbs with
      | nil => exact absurd hcs Nat.toDigits_ne_nil
      | cons c cs =>
          have hbounds := digit_bounds (hcs ▸ List.mem_cons_self : c ∈ Nat.toDigits 10 n.natAbs)
          obtain ⟨u, hu, hnat⟩ := units_digit hbounds
          rw [List.nil_append, Utf16.utf16_cons, hu, List.singleton_append, Json.skipSign, if_neg]
          rintro (rfl | rfl)
          · exact absurd (hnat ▸ hbounds.1) (by decide)
          · exact absurd (hnat ▸ hbounds.1) (by decide)
  rw [Numeral, hsign, integer_toDigits]
  rfl

theorem decimal_digit {c : Char} (h : 48 ≤ c.toNat ∧ c.toNat ≤ 57) :
    Server.decimal c = some (c.toNat - 48) := by
  have hfirst : Server.decimalZeros.find? (fun first =>
      first ≤ c.toNat && c.toNat < first + 10) = some 48 := by
    rw [Server.decimalZeros, List.find?_cons_of_pos]
    simp only [Bool.and_eq_true, decide_eq_true_eq]
    omega
  rw [Server.decimal, hfirst, Option.map_some]

theorem mapM_decimal {cs : List Char} (h : ∀ c ∈ cs, 48 ≤ c.toNat ∧ c.toNat ≤ 57) :
    cs.mapM Server.decimal = some (cs.map fun c => c.toNat - 48) := by
  induction cs with
  | nil => rfl
  | cons c cs ih =>
      rw [List.mapM_cons, decimal_digit (h c List.mem_cons_self),
        ih fun c hc => h c (List.mem_cons_of_mem _ hc)]
      rfl

/-- `int` of the digits of a number. -/
theorem digits_toDigits {n : Nat} (hn : n < 10 ^ 21) :
    Server.digits (Nat.toDigits 10 n) = some n := by
  have hsplit : (Nat.toDigits 10 n).splitOn '_' = [Nat.toDigits 10 n] :=
    List.splitOn_eq_singleton_of_beq_eq_false fun c hc => by
      rw [beq_eq_false_iff_ne]
      rintro rfl
      exact Nat.underscore_not_in_toDigits hc
  have hlength : (Nat.toDigits 10 n).length ≤ 4300 :=
    le_trans ((Nat.length_toDigits_le_iff (by decide) (by decide)).mpr hn) (by decide : 21 ≤ 4300)
  have hne : (Nat.toDigits 10 n).isEmpty = false := by
    rw [List.isEmpty_eq_false_iff]
    exact Nat.toDigits_ne_nil
  rw [Server.digits, hsplit, if_pos ⟨by simp [hne], by simpa using hlength⟩, List.flatten_singleton,
    mapM_decimal fun c => digit_bounds, Option.map_some, List.foldl_map]
  exact congrArg some Nat.ofDigitChars_ten_toDigits

/-- A sign and digits have no white space. -/
theorem trim_digits {cs : List Char} (h : ∀ c ∈ cs, c = '-' ∨ 48 ≤ c.toNat ∧ c.toNat ≤ 57) :
    (cs.dropWhile (onChar Server.intSpace)).rdropWhile (onChar Server.intSpace) = cs := by
  have hspace : ∀ c ∈ cs, onChar Server.intSpace c = false := by
    intro c hc
    rcases h c hc with rfl | hdigit
    · decide
    · have hnot : pySpace c.toNat = false := by
        simp [pySpace]
        omega
      rw [onChar, Server.intSpace, hnot, Bool.false_and]
  have hfront : cs.dropWhile (onChar Server.intSpace) = cs := by
    rw [List.dropWhile_eq_self_iff]
    intro hlen
    simp [hspace _ (List.getElem_mem hlen)]
  rw [hfront, List.rdropWhile_eq_self_iff]
  intro hne
  simp [hspace _ (List.getLast_mem hne)]

theorem intOfStr_toString {n : Int} (hn : n.natAbs < 10 ^ 21) :
    intOfStr (toString n).toList = some n := by
  have hchars : ∀ c ∈ (toString n).toList, c = '-' ∨ 48 ≤ c.toNat ∧ c.toNat ≤ 57 := by
    intro c hc
    rw [toString_int, List.mem_append] at hc
    rcases hc with hc | hc
    · split at hc
      · exact .inl (List.mem_singleton.mp hc)
      · cases hc
    · exact .inr (digit_bounds hc)
  rw [intOfStr, trim_digits hchars, toString_int]
  by_cases hneg : n < 0
  · rw [if_pos hneg, List.singleton_append]
    simp only [digits_toDigits hn]
    exact congrArg some (by omega : -(n.natAbs : Int) = n)
  · rw [if_neg hneg, List.nil_append]
    split
    · next ds hds =>
        exact absurd (digit_bounds (hds ▸ List.mem_cons_self : '+' ∈ Nat.toDigits 10 n.natAbs))
          (by decide)
    · next ds hds =>
        exact absurd (digit_bounds (hds ▸ List.mem_cons_self : '-' ∈ Nat.toDigits 10 n.natAbs))
          (by decide)
    · simp only [digits_toDigits hn]
      exact congrArg some (by omega : (n.natAbs : Int) = n)

/-! ## Messages to the translator -/

section

variable {float : PyStr → Option PyFloat}

theorem loadsValue_jsonInt {n : Int} (hn : n.natAbs < 10 ^ 21) :
    loadsValue float (jsonInt n) = some (.int n) := by
  have hchars : ∀ c ∈ (toString n).toList, ¬ (c = '.' ∨ c = 'e' ∨ c = 'E') := by
    intro c hc
    rw [toString_int, List.mem_append] at hc
    rcases hc with hc | hc
    · split at hc
      · rw [List.mem_singleton.mp hc]
        decide
      · cases hc
    · have hbounds := digit_bounds hc
      rintro (rfl | rfl | rfl) <;> exact absurd hbounds (by decide)
  have hany : ((toString n).toList.any fun c => c = '.' || c = 'e' || c = 'E') = false := by
    rw [List.any_eq_false]
    intro c hc
    simpa [or_assoc] using hchars c hc
  rw [jsonInt, loadsValue, jsText, PyStr.toJs, Utf16.chars_utf16, Option.bind_some, loadsNumber, hany]
  simp only [Bool.false_eq_true, if_false, intOfStr_toString hn, Option.map_some]

theorem loadsValue_str (t : PyStr) : loadsValue float (.str t.toJs) = some (.str t) := by
  rw [loadsValue, Utf16.chars_utf16, Option.map_some]

/-- What the translator has of a message with a text. -/
def sentDict (type : String) (text : PyStr) (seq tMs : Int) : Dict :=
  [("type".toList, .str type.toList), ("full".toList, .str text), ("seq".toList, .int seq),
    ("t_ms".toList, .int tMs)]

theorem loads_stable {type : String} {s : ServiceWorker.Stable} {text : PyStr}
    (hfull : s.full = text.toJs) (hseq : s.seq.natAbs < 10 ^ 21) (htMs : s.tMs.natAbs < 10 ^ 21) :
    loads float (Style.stringify.write (.obj [(jsText "type", jsonText type),
      (jsText "full", .str s.full), (jsText "seq", jsonInt s.seq), (jsText "t_ms", jsonInt s.tMs)])) =
      some (.dict (sentDict type text s.seq s.tMs)) := by
  have hwritable : Writable (.obj [(jsText "type", jsonText type), (jsText "full", .str s.full),
      (jsText "seq", jsonInt s.seq), (jsText "t_ms", jsonInt s.tMs)]) := by
    refine .obj fun m hm => ?_
    simp only [List.mem_cons, List.not_mem_nil, or_false] at hm
    rcases hm with rfl | rfl | rfl | rfl
    · exact .str _
    · exact .str _
    · exact .num (numeral_toString _)
    · exact .num (numeral_toString _)
  rw [loads, Style.parse_write _ hwritable, Option.bind_some, loadsValue]
  simp only [loadsMembers, loadsMember, jsText, PyStr.toJs, Utf16.chars_utf16, Option.bind_some,
    loadsValue_jsonInt hseq, loadsValue_jsonInt htMs, hfull, loadsValue_str, jsonText,
    Option.map_some]
  rfl

/-- What is taken for the text of a message: a blank text is none. -/
def textOf (text : PyStr) : PyStr := if (pyStrip text).isEmpty then [] else text

theorem candidates_sent (type : String) (text : PyStr) (seq tMs : Int) :
    iterCandidateDicts (sentDict type text seq tMs) = [sentDict type text seq tMs] := rfl

theorem extractSeqInt_sent (type : String) (text : PyStr) (seq tMs : Int) :
    extractSeqInt float (sentDict type text seq tMs) = some seq := rfl

theorem extractTMsInt_sent (type : String) (text : PyStr) (seq tMs : Int) :
    extractTMsInt float (sentDict type text seq tMs) = some tMs := rfl

theorem extractDelta_sent (type : String) (text : PyStr) (seq tMs : Int) :
    extractDelta (sentDict type text seq tMs) = [] := rfl

theorem getFirstStr_cons {d : Dict} {k : String} {keys : List String} {s : PyStr}
    (h : getKey d k = some (.str s)) :
    getFirstStr d (k :: keys) = if (pyStrip s).isEmpty then getFirstStr d keys else s := by
  simp only [getFirstStr, List.findSome?_cons, h]
  cases hblank : (pyStrip s).isEmpty <;> rfl

theorem extractText_sent (type : String) (text : PyStr) (seq tMs : Int) :
    extractText (sentDict type text seq tMs) = textOf text := by
  have hkey : getKey (sentDict type text seq tMs) "full" = some (.str text) := rfl
  have hnone : getFirstStr (sentDict type text seq tMs)
      ["text", "stable_full", "stableFull", "stableText", "stable_text", "transcript", "en",
        "en_full", "enFull"] = [] := rfl
  rw [extractText, extractStr, candidates_sent, List.map_singleton, getFirstStr_cons hkey, hnone,
    ← textOf]
  cases h : textOf text <;> simp

theorem inferMtype_stable (text : PyStr) (seq tMs : Int) :
    inferMtype (sentDict "stable" text seq tMs) = .stable := rfl

theorem inferMtype_baseline (text : PyStr) (seq tMs : Int) :
    inferMtype (sentDict "baseline" text seq tMs) = .baseline := rfl

theorem readMsg_sent {type : String} {text : PyStr} {seq tMs : Int} {sent : JsStr}
    (h : loads float sent = some (.dict (sentDict type text seq tMs))) :
    readMsg float sent =
      some ⟨inferMtype (sentDict type text seq tMs), some seq, textOf text, [], some tMs⟩ := by
  rw [readMsg, h, Option.bind_some, asDictFirst, Option.bind_some, if_neg (by simp [sentDict]),
    extractSeqInt_sent, extractText_sent, extractDelta_sent, extractTMsInt_sent]

theorem readMsg_reset : readMsg float (transText .reset) = some ⟨.reset, none, [], [], none⟩ := by
  have hwritable : Writable (transObject .reset) := by
    refine .obj fun m hm => ?_
    rw [List.mem_singleton.mp hm]
    exact .str _
  have hloads : loads float (transText .reset) =
      some (.dict [("type".toList, .str "reset".toList)]) := by
    rw [loads, transText, Style.parse_write _ hwritable, Option.bind_some, transObject, loadsValue]
    simp only [loadsMembers, loadsMember, jsText, PyStr.toJs, Utf16.chars_utf16, Option.bind_some,
      loadsValue_str, jsonText, Option.map_some]
    rfl
  rw [readMsg, hloads]
  rfl

end

theorem pySplit_blank {s : PyStr} (h : (pyStrip s).isEmpty = true) : pySplit s = [] := by
  have hdrop : ∀ c ∈ s.dropWhile (onChar pySpace), onChar pySpace c = true := by
    rw [List.isEmpty_iff, pyStrip, List.rdropWhile_eq_nil_iff] at h
    exact h
  have hall : ∀ c ∈ s, onChar pySpace c = true := by
    rw [← List.dropWhile_eq_nil_iff]
    cases hs : s.dropWhile (onChar pySpace) with
    | nil => rfl
    | cons c cs =>
        have hhead := List.head_dropWhile_not (onChar pySpace) (l := s) (by rw [hs]; simp)
        simp only [hs, List.head_cons] at hhead
        rw [hdrop c (by rw [hs]; exact List.mem_cons_self)] at hhead
        cases hhead
  clear hdrop h
  rw [pySplit]
  induction s with
  | nil => exact Words.words_nil
  | cons c s ih =>
      rw [Words.words_cons_sep (hall c List.mem_cons_self)]
      exact ih fun d hd => hall d (List.mem_cons_of_mem _ hd)

/-- A blank text is no text to the handler, whatever blanks it has. -/
theorem normSpaces_textOf (cfg : TextConfig) (text : PyStr) :
    normSpaces cfg (textOf text) = normSpaces cfg text := by
  rw [textOf]
  split
  · next hblank => rw [normSpaces_eq, normSpaces_eq, pySplit_blank hblank, pySplit, Words.words_nil]
  · rfl

/-! ## What the handler does -/

/-- The message that is meant, with its text. -/
def meant (text : PyStr) : ServiceWorker.TransMsg → InMsg
  | .reset => ⟨.reset, none, [], [], none⟩
  | .baseline s => ⟨.baseline, some s.seq, text, [], some s.tMs⟩
  | .stable s => ⟨.stable, some s.seq, text, [], some s.tMs⟩

/-- The text of a message is well formed, and its numbers are written in their digits. -/
def Sendable (text : PyStr) : ServiceWorker.TransMsg → Prop
  | .reset => True
  | .baseline s | .stable s =>
      s.full = text.toJs ∧ s.seq.natAbs < 10 ^ 21 ∧ s.tMs.natAbs < 10 ^ 21

section

variable {σ : Type} {cfg : HandlerConfig σ} {float : PyStr → Option PyFloat}

theorem receive_textOf (h : Handler σ) (mtype : MsgType) (text : PyStr) (seq tMs : Int)
    (clocks : Clocks) :
    h.receive cfg ⟨mtype, some seq, textOf text, [], some tMs⟩ clocks =
      h.receive cfg ⟨mtype, some seq, text, [], some tMs⟩ clocks := by
  cases mtype with
  | baseline => simp only [Handler.receive, Handler.receiveBaseline, normSpaces_textOf]
  | stable | patch =>
      simp only [Handler.receive, Handler.receiveUpdate, Handler.updateText, List.isEmpty_nil,
        Bool.not_true, Bool.and_false, Bool.false_eq_true, if_false, normSpaces_textOf]
  | reset | other => rfl

/-- What arrives is a message, and the handler takes it for the one that was meant. -/
theorem readMsg_transText {text : PyStr} {msg : ServiceWorker.TransMsg} (hmsg : Sendable text msg) :
    ∃ m, readMsg float (transText msg) = some m ∧ ∀ (h : Handler σ) (clocks : Clocks),
      h.receive cfg m clocks = h.receive cfg (meant text msg) clocks := by
  cases msg with
  | reset => exact ⟨_, readMsg_reset, fun _ _ => rfl⟩
  | baseline s =>
      obtain ⟨hfull, hseq, htMs⟩ := hmsg
      have hread := readMsg_sent (@loads_stable float "baseline" s text hfull hseq htMs)
      rw [inferMtype_baseline] at hread
      exact ⟨_, hread, fun h clocks => receive_textOf h .baseline text s.seq s.tMs clocks⟩
  | stable s =>
      obtain ⟨hfull, hseq, htMs⟩ := hmsg
      have hread := readMsg_sent (@loads_stable float "stable" s text hfull hseq htMs)
      rw [inferMtype_stable] at hread
      exact ⟨_, hread, fun h clocks => receive_textOf h .stable text s.seq s.tMs clocks⟩

/-- What the handler is handed when a message comes off the socket. -/
inductive Arrives (float : PyStr → Option PyFloat) : Handler.Label → Handler.Label → Prop
  | sent {text : PyStr} {msg : ServiceWorker.TransMsg} {m : InMsg} {clocks : Clocks}
      (hmsg : Sendable text msg) (hread : readMsg float (transText msg) = some m) :
      Arrives float (.receive (meant text msg) clocks) (.receive m clocks)
  | other (l : Handler.Label) : Arrives float l l

theorem step_arrives {l l' : Handler.Label} (h : Handler σ) (harrives : Arrives float l l') :
    h.step cfg l' = h.step cfg l := by
  cases harrives with
  | other => rfl
  | @sent text msg m clocks hmsg hread =>
      obtain ⟨m', hread', hreceive⟩ := @readMsg_transText σ cfg float text msg hmsg
      obtain rfl : m = m' := Option.some.inj (hread.symm.trans hread')
      cases hreader : h.reader <;> simp only [Handler.step, hreader, hreceive]

theorem run_arrives {ls ls' : List Handler.Label} (harrives : List.Forall₂ (Arrives float) ls ls') :
    ∀ h : Handler σ, Run.run (Handler.step cfg) h ls' = Run.run (Handler.step cfg) h ls := by
  induction harrives with
  | nil => exact fun _ => rfl
  | cons hl _ ih =>
      intro h
      simp only [Run.run, step_arrives h hl, ih]

end

/-! ## Messages to the service worker -/

theorem parse_sendText (out : Out) : Json.parse (sendText out) = some (outObject out) := by
  refine Style.parse_write _ ?_
  cases out with
  | viCommit append seq enSeq | viDelta append seq enSeq =>
      refine .obj fun m hm => ?_
      simp only [List.mem_cons, List.not_mem_nil, or_false] at hm
      rcases hm with rfl | rfl | rfl | rfl
      · exact .str _
      · exact .str _
      · exact .num (numeral_toString _)
      · exact .num (numeral_toString _)
  | viDraft text seq enSeq reqId =>
      refine .obj fun m hm => ?_
      simp only [List.mem_cons, List.not_mem_nil, or_false] at hm
      rcases hm with rfl | rfl | rfl | rfl | rfl
      · exact .str _
      · exact .str _
      · exact .num (numeral_toString _)
      · cases enSeq with
        | none => exact .null
        | some n => exact .num (numeral_toString _)
      · exact .num (numeral_toString _)

/-- Whatever the service worker sends is read, and a run of the handler on what it reads
is the run on what was meant; what it sends itself is read as the object it was. -/
theorem wire {σ : Type} (cfg : HandlerConfig σ) (float : PyStr → Option PyFloat) :
    (∀ text msg, Sendable text msg → (readMsg float (transText msg)).isSome) ∧
      (∀ ls ls', List.Forall₂ (Arrives float) ls ls' → ∀ h : Handler σ,
        Run.run (Handler.step cfg) h ls' = Run.run (Handler.step cfg) h ls) ∧
      ∀ out, Json.parse (sendText out) = some (outObject out) := by
  refine ⟨fun text msg hmsg => ?_, fun _ _ => run_arrives, parse_sendText⟩
  obtain ⟨m, hread, -⟩ := @readMsg_transText σ cfg float text msg hmsg
  rw [hread]
  rfl

/-- A text with quotation marks, a line break and a character outside the basic plane is
read, the handler does with it what it should, and it can be sent back. -/
theorem wire_quoted :
    let text : PyStr := ['"', 'H', 'i', '"', '\n', Char.ofNat 0x1F600]
    let msg : ServiceWorker.TransMsg := .stable ⟨text.toJs, 3, 20⟩
    ∃ m, readMsg (fun _ => none) (transText msg) = some m ∧
      (∀ h clocks, Run.run (Handler.step defaultHandler) h [.receive m clocks] =
        Run.run (Handler.step defaultHandler) h [.receive (meant text msg) clocks]) ∧
      Json.parse (sendText (.viDelta text 1 3)) = some (outObject (.viDelta text 1 3)) := by
  intro text msg
  obtain ⟨hread, hruns, hsent⟩ := wire defaultHandler fun _ => none
  have hmsg : Sendable text msg := ⟨rfl, by decide, by decide⟩
  obtain ⟨m, hm⟩ := Option.isSome_iff_exists.mp (hread text msg hmsg)
  refine ⟨m, hm, fun h clocks => ?_, hsent _⟩
  exact hruns [.receive (meant text msg) clocks] [.receive m clocks] (.cons (.sent hmsg hm) .nil) h

end VTranser.Translator.Wire

import Mathlib.Data.List.Chain
import VTranser.Panel.Sse

/-!
# What becomes of the tokens of an answer

The tokens of an answer are sent each as an event of its own. However the stream is cut,
the panel reads these events and no others: what it keeps is the front of an event that
is not complete, which holds at most one line feed and so no separator.

What it makes of an event is another question. The text of a token is trimmed, and if what
is left is JSON it is no token any more: `decode_length` says that a token comes out
shorter unless `Kept` holds of it, and so all of them come out as they were if and only
if it holds of every one.
-/

namespace VTranser.Panel

open Cut

/-! ## The stream -/

/-- A token as plain text: without line breaks, and without a brace in front. -/
structure PlainToken where
  text : JsStr
  no_lf : 0x0A ∉ text
  no_cr : 0x0D ∉ text
  no_brace : text.head? ≠ some 0x7B

inductive LineEnd
  | lf
  | crlf
  deriving DecidableEq, Repr

def LineEnd.text : LineEnd → JsStr
  | .lf => [0x0A]
  | .crlf => [0x0D, 0x0A]

/-- The line of a token. -/
def dataLine (p : JsStr) : JsStr := jsText "data: " ++ p

/-- The event of a token, with the blank line behind it. -/
def sseEvent (eol : LineEnd) (p : JsStr) : JsStr := dataLine p ++ (eol.text ++ eol.text)

def sseStream (eol : LineEnd) (ps : List PlainToken) : JsStr :=
  (ps.map fun p => sseEvent eol p.text).flatten

theorem dataLine_no_lf (p : PlainToken) : 0x0A ∉ dataLine p.text := by
  rw [dataLine, List.mem_append]
  exact not_or.mpr ⟨by decide, p.no_lf⟩

theorem dataLine_no_cr (p : PlainToken) : 0x0D ∉ dataLine p.text := by
  rw [dataLine, List.mem_append]
  exact not_or.mpr ⟨by decide, p.no_cr⟩

/-! ## The separators -/

/-- A text with one line feed at most has no separator. -/
theorem nextEvent_of_count {buf : JsStr} (h : buf.count 0x0A ≤ 1) : nextEvent buf = none := by
  have hsep : ∀ sep : JsStr, sep.count 0x0A = 2 → ¬ sep <:+: buf := by
    intro sep hcount hinfix
    have := hinfix.sublist.count_le (0x0A : UInt16)
    omega
  rw [nextEvent, cutAt_none (hsep _ (by decide)), cutAt_none (hsep _ (by decide))]
  rfl

theorem count_dataLine (p : PlainToken) : (dataLine p.text).count 0x0A = 0 :=
  List.count_eq_zero.mpr (dataLine_no_lf p)

/-- The front of an event has one line feed at most. -/
theorem count_of_front {eol : LineEnd} {p : PlainToken} {buf rest : JsStr} (hrest : rest ≠ [])
    (h : buf ++ rest = sseEvent eol p.text) : buf.count 0x0A ≤ 1 := by
  have htwo : (sseEvent eol p.text).count 0x0A = 2 := by
    rw [sseEvent, List.count_append, count_dataLine]
    cases eol <;> rfl
  have hend : (sseEvent eol p.text).getLast? = some 0x0A := by
    cases eol <;> simp [sseEvent, LineEnd.text]
  have hlast : 0x0A ∈ rest := by
    rw [← h, List.getLast?_append_of_ne_nil _ hrest] at hend
    exact List.mem_of_getLast? hend
  have hpos : 0 < rest.count 0x0A := List.count_pos_iff.mpr hlast
  rw [← h, List.count_append] at htwo
  omega

/-- No line feed directly behind another. -/
def NoPair (s : JsStr) : Prop := s.IsChain fun a b => ¬ (a = 0x0A ∧ b = 0x0A)

theorem NoPair.not_infix {s : JsStr} (h : NoPair s) : ¬ [0x0A, 0x0A] <:+: s := by
  intro hinfix
  have := h.infix hinfix
  simp at this

theorem noPair_of_not_mem {s : JsStr} (h : 0x0A ∉ s) : NoPair s := by
  induction s with
  | nil => exact List.IsChain.nil
  | cons a s ih =>
      obtain ⟨ha, hs⟩ := not_or.mp (mt List.mem_cons.mpr h)
      exact List.isChain_cons.mpr ⟨fun b _ hab => ha hab.1.symm, ih hs⟩

theorem head_stream (eol : LineEnd) (ps : List PlainToken) :
    (sseStream eol ps).head? ≠ some 0x0A := by
  cases ps with
  | nil => simp [sseStream]
  | cons p ps =>
      have hd : (sseStream eol (p :: ps)).head? = some 0x64 := rfl
      simp [hd]

theorem noPair_stream (ps : List PlainToken) : NoPair (sseStream .crlf ps) := by
  induction ps with
  | nil => exact List.IsChain.nil
  | cons p ps ih =>
      have hends : NoPair (LineEnd.crlf.text ++ LineEnd.crlf.text ++ sseStream .crlf ps) := by
        refine List.isChain_append.mpr ⟨by decide, ih, ?_⟩
        rintro a - b hb ⟨-, rfl⟩
        exact head_stream _ _ hb
      have hline : NoPair (dataLine p.text) := noPair_of_not_mem (dataLine_no_lf p)
      have hsplit : sseStream .crlf (p :: ps) =
          dataLine p.text ++ (LineEnd.crlf.text ++ LineEnd.crlf.text ++ sseStream .crlf ps) := by
        simp [sseStream, sseEvent]
      rw [hsplit]
      refine List.isChain_append.mpr ⟨hline, hends, ?_⟩
      rintro a ha b - ⟨rfl, -⟩
      exact dataLine_no_lf p (List.mem_of_getLast? ha)

@[simp] theorem sseStream_nil (eol : LineEnd) : sseStream eol [] = [] := rfl

@[simp] theorem sseStream_cons (eol : LineEnd) (p : PlainToken) (ps : List PlainToken) :
    sseStream eol (p :: ps) = sseEvent eol p.text ++ sseStream eol ps := by
  simp [sseStream]

/-- A complete event is read as such, whatever is behind it. -/
theorem nextEvent_event {eol : LineEnd} {p : PlainToken} {ps : List PlainToken}
    {buf rest : JsStr} (h : buf ++ rest = sseStream eol ps) :
    nextEvent (sseEvent eol p.text ++ buf) = some (dataLine p.text, buf) := by
  cases eol with
  | lf =>
      have hcut : cutAt [0x0A, 0x0A] (dataLine p.text ++ 0x0A :: ([0x0A] ++ buf)) =
          some (dataLine p.text, buf) := cutAt_append (dataLine_no_lf p) buf
      rw [nextEvent, sseEvent, List.append_assoc]
      exact (congrArg (Option.or · _) hcut).trans rfl
  | crlf =>
      have hpair : NoPair (sseEvent .crlf p.text ++ buf ++ rest) := by
        rw [List.append_assoc, h, ← sseStream_cons]
        exact noPair_stream _
      have hinfix : ¬ [0x0A, 0x0A] <:+: sseEvent .crlf p.text ++ buf :=
        fun hin => hpair.not_infix (hin.trans (List.prefix_append _ _).isInfix)
      have hcut : cutAt [0x0D, 0x0A, 0x0D, 0x0A]
          (dataLine p.text ++ 0x0D :: ([0x0A, 0x0D, 0x0A] ++ buf)) =
            some (dataLine p.text, buf) := cutAt_append (dataLine_no_cr p) buf
      rw [nextEvent, cutAt_none hinfix, Option.none_or, sseEvent, List.append_assoc]
      exact hcut

/-! ## One event -/

/-- What comes out of a token. -/
def decode (p : JsStr) : JsStr :=
  if (jsTrim p).isEmpty then []
  else
    let out := extractDeltaText (jsText "message") (jsTrim p)
    if out.kind = .delta then out.text else []

def decoded (ps : List PlainToken) : JsStr := (ps.map fun p => decode p.text).flatten

/-- What has been said so far. -/
def SseState.said (s : SseState) : JsStr := (deltas s.calls).flatten

theorem splitLines_of_not_mem {s : JsStr} (h : 0x0A ∉ s) : splitLines s = [s] := by
  fun_induction splitLines s with
  | case1 => rfl
  | case2 s ih => simp at h
  | case3 s ih => simp at h
  | case4 u s _ hu ih =>
      rw [ih fun hs => h (List.mem_cons_of_mem _ hs)]
      rfl

theorem readEvent_dataLine (p : PlainToken) :
    readEvent (dataLine p.text) = ⟨jsText "message", jsTrim p.text⟩ := by
  have hblank : jsTrim (0x20 :: p.text) = jsTrim p.text := by
    rw [jsTrim, List.dropWhile_cons_of_pos (by decide), jsTrim]
  rw [readEvent, splitLines_of_not_mem (dataLine_no_lf p), List.foldl_cons, List.foldl_nil,
    ← hblank]
  rfl

theorem jsTrim_length (s : JsStr) : (jsTrim s).length ≤ s.length :=
  ((List.rdropWhile_prefix _ _).length_le).trans (List.dropWhile_suffix _).length_le

theorem sessionRest_length {s rest : JsStr} (h : sessionRest s = some rest) :
    rest.length < s.length := by
  simp only [sessionRest] at h
  split at h
  · split at h
    · next hclose =>
      cases h
      have htrim := jsTrim_length (s.drop (s.idxOf 0x7D + 1))
      rw [List.length_drop] at htrim
      omega
    · cases h
  · cases h

theorem jsonText_length {s : JsStr} {v : Json.Value} (hparse : Json.parse s = some v)
    (hs : s ≠ []) : (jsonText v).length < s.length := by
  rw [jsonText]
  cases hfind : List.find? _ _ with
  | none => exact List.length_pos_iff.mpr hs
  | some t =>
      obtain ⟨key, -, hkey⟩ := List.mem_filterMap.mp (List.mem_of_find?_eq_some hfind)
      split at hkey
      · next text hget =>
        cases hkey
        exact Json.length_of_get? hparse hget
      · cases hkey

/-- A text that is not JSON and has no object with a `session_id` in front is taken as it
stands; whatever is taken of another is shorter. -/
theorem extract_message {d : JsStr} (htrim : jsTrim d = d) (hne : d ≠ []) :
    sessionRest d = none ∧ Json.parse d = none ∧
        extractDeltaText (jsText "message") d = ⟨.delta, d⟩ ∨
      (sessionRest d ≠ none ∨ Json.parse d ≠ none) ∧
        (extractDeltaText (jsText "message") d).kind ≠ .done ∧
        (extractDeltaText (jsText "message") d).text.length < d.length := by
  have hpos : 0 < d.length := List.length_pos_iff.mpr hne
  have hev : lowerName (orText (jsText "message") (jsText "message")) = jsText "message" := by
    decide
  simp only [extractDeltaText, hev, htrim]
  rw [if_neg (by decide), if_neg (by decide)]
  cases hsession : sessionRest d with
  | some rest =>
      have hlen := sessionRest_length hsession
      right
      refine ⟨Or.inl (by simp), ?_⟩
      dsimp only
      split
      · exact ⟨by simp, hpos⟩
      · exact ⟨by simp, hlen⟩
  | none =>
      cases hparse : Json.parse d with
      | some obj =>
          have hlen := jsonText_length hparse hne
          right
          refine ⟨Or.inr (by simp), ?_⟩
          dsimp only
          split
          · exact ⟨by simp, hpos⟩
          · exact ⟨by simp, hlen⟩
      | none =>
          left
          simp [hne]

theorem said_handleEvent (s : SseState) (p : PlainToken) :
    (handleEvent s (dataLine p.text)).said = s.said ++ decode p.text := by
  rw [handleEvent, readEvent_dataLine, decode]
  dsimp only
  split
  · simp
  · next hempty =>
    have hne : jsTrim p.text ≠ [] := by simpa using hempty
    have hkind : (extractDeltaText (jsText "message") (jsTrim p.text)).kind ≠ .done := by
      rcases extract_message (jsTrim_jsTrim _) hne with ⟨-, -, heq⟩ | ⟨-, hkind, -⟩
      · simp [heq]
      · exact hkind
    rw [if_neg hkind, SseState.deliver]
    split
    · next hdelta => simp [SseState.said, deltas, hdelta.1]
    · next hnot =>
      split
      · next hdelta =>
        have htext : (extractDeltaText (jsText "message") (jsTrim p.text)).text = [] := by
          by_contra htext
          exact hnot ⟨hdelta, by simpa using htext⟩
        simp [htext]
      · simp

/-- The texts that come out as they are. -/
def Kept (p : JsStr) : Prop := p = [] ∨ jsTrim p = p ∧ Json.parse p = none

theorem sessionRest_plain (p : PlainToken) : sessionRest p.text = none := by
  rw [sessionRest, if_neg fun h => p.no_brace h.1]

theorem decode_of_kept {p : PlainToken} (h : Kept p.text) : decode p.text = p.text := by
  rcases h with hnil | ⟨htrim, hparse⟩
  · rw [hnil]
    rfl
  · rw [decode, htrim]
    split
    · next hempty => exact (by simpa using hempty : p.text = []).symm
    · next hempty =>
      have hne : p.text ≠ [] := by simpa using hempty
      rcases extract_message htrim hne with ⟨-, -, heq⟩ | ⟨hother, -, -⟩
      · simp [heq]
      · rcases hother with hsession | hsome
        · exact absurd (sessionRest_plain p) hsession
        · exact absurd hparse hsome

theorem decode_of_not_kept {p : PlainToken} (h : ¬ Kept p.text) :
    (decode p.text).length < p.text.length := by
  obtain ⟨hnil, hother⟩ := not_or.mp h
  have hpos : 0 < p.text.length := List.length_pos_iff.mpr hnil
  have htrim := jsTrim_length p.text
  rw [decode]
  split
  · exact hpos
  · next hempty =>
    have hne : jsTrim p.text ≠ [] := by simpa using hempty
    rcases extract_message (jsTrim_jsTrim _) hne with ⟨-, hparse, heq⟩ | ⟨-, -, hlen⟩
    · -- The text is taken as trimmed, so there was something to trim.
      have hshort : (jsTrim p.text).length ≠ p.text.length := by
        intro hlen
        have hself : jsTrim p.text = p.text := by
          have hinfix : jsTrim p.text <:+: p.text :=
            (List.rdropWhile_prefix _ _).isInfix.trans (List.dropWhile_suffix _).isInfix
          exact hinfix.eq_of_length hlen
        exact hother ⟨hself, hself ▸ hparse⟩
      simp only [heq, if_true]
      omega
    · dsimp only
      split
      · omega
      · exact hpos

theorem decode_length (p : PlainToken) : (decode p.text).length ≤ p.text.length := by
  by_cases h : Kept p.text
  · rw [decode_of_kept h]
  · exact (decode_of_not_kept h).le

/-- Tokens come out as they were, one after the other, only if each of them does. -/
theorem decoded_eq_iff (ps : List PlainToken) :
    decoded ps = (ps.map PlainToken.text).flatten ↔ ∀ p ∈ ps, Kept p.text := by
  constructor
  · intro heq
    have hlen := congrArg List.length heq
    have hle : ∀ qs : List PlainToken,
        (decoded qs).length ≤ ((qs.map PlainToken.text).flatten).length := by
      intro qs
      induction qs with
      | nil => exact Nat.le_refl _
      | cons q qs ih =>
          have := decode_length q
          simp only [decoded, List.map_cons, List.flatten_cons, List.length_append] at ih ⊢
          omega
    clear heq
    induction ps with
    | nil => simp
    | cons p ps ih =>
        have hps := hle ps
        have hp := decode_length p
        simp only [decoded, List.map_cons, List.flatten_cons, List.length_append] at hlen hps ih
        intro q hq
        rcases List.mem_cons.mp hq with rfl | hq
        · by_contra hkept
          have := decode_of_not_kept hkept
          omega
        · exact ih (by omega) q hq
  · intro hkept
    rw [decoded]
    congr 1
    exact List.map_congr_left fun p hp => decode_of_kept (hkept p hp)

/-! ## The whole stream -/

theorem drain_of_none {s : SseState} (h : nextEvent s.buf = none) : drain s = s := by
  rw [drain]
  split
  · rfl
  · next hsome => simp [h] at hsome

theorem drain_of_some {s : SseState} {raw rest : JsStr} (h : nextEvent s.buf = some (raw, rest)) :
    drain s = drain { handleEvent s raw with buf := rest } := by
  rw [drain]
  split
  · next hnone => simp [h] at hnone
  · next hsome =>
    rw [h] at hsome
    cases hsome
    rfl

/-- What is kept and what is still to come is the stream of the tokens that have not been
read, and what they come out as is all that is missing of what is said. -/
structure Reading (eol : LineEnd) (s : SseState) (coming : JsStr) (total : JsStr) : Prop where
  split : ∃ qs, s.buf ++ coming = sseStream eol qs ∧ s.said ++ decoded qs = total

theorem drain_reading {eol : LineEnd} {s : SseState} {coming total : JsStr}
    (h : Reading eol s coming total) :
    Reading eol (drain s) coming total ∧ nextEvent (drain s).buf = none := by
  obtain ⟨qs, hbuf, hsaid⟩ := h
  induction qs generalizing s with
  | nil =>
      have hnil : s.buf = [] := (List.append_eq_nil_iff.mp hbuf).1
      have hnone : nextEvent s.buf = none := nextEvent_of_count (by simp [hnil])
      rw [drain_of_none hnone]
      exact ⟨⟨[], hbuf, hsaid⟩, hnone⟩
  | cons q qs ih =>
      have hstream := hbuf
      rw [sseStream_cons] at hbuf
      have hevent : ∀ buf, s.buf = sseEvent eol q.text ++ buf → buf ++ coming = sseStream eol qs →
          Reading eol (drain s) coming total ∧ nextEvent (drain s).buf = none := by
        intro buf hbuf hrest
        have hsome : nextEvent s.buf = some (dataLine q.text, buf) := by
          rw [hbuf]
          exact nextEvent_event hrest
        rw [drain_of_some hsome]
        refine ih hrest ?_
        have hnext : SseState.said { handleEvent s (dataLine q.text) with buf := buf } =
            s.said ++ decode q.text := said_handleEvent s q
        rw [hnext, ← hsaid]
        simp [decoded]
      rcases List.append_eq_append_iff.mp hbuf with ⟨a, hfront, hcoming⟩ | ⟨buf, hwhole, hrest⟩
      · by_cases ha : a = []
        · refine hevent [] ?_ ?_
          · simp [hfront, ha]
          · simp [hcoming, ha]
        · have hnone := nextEvent_of_count (count_of_front ha hfront.symm)
          rw [drain_of_none hnone]
          exact ⟨⟨q :: qs, hstream, hsaid⟩, hnone⟩
      · exact hevent buf hwhole hrest.symm

/-- The front of a stream that is long begins with a field, so it is not flushed. -/
theorem flush_of_reading {eol : LineEnd} {s : SseState} {coming total : JsStr}
    (h : Reading eol s coming total) : flush s = s := by
  obtain ⟨qs, hbuf, -⟩ := h
  rw [flush]
  refine if_neg ?_
  rintro ⟨hlong, hdata, -⟩
  have hpre : s.buf <+: sseStream eol qs := ⟨coming, hbuf⟩
  cases qs with
  | nil =>
      rw [sseStream_nil, List.prefix_nil] at hpre
      simp [hpre] at hlong
  | cons q qs =>
      have hfield : jsText "data:" <+: sseStream eol (q :: qs) := by
        rw [sseStream_cons, sseEvent, dataLine]
        exact ⟨0x20 :: (q.text ++ (eol.text ++ eol.text) ++ sseStream eol qs), by simp; rfl⟩
      have hle : (jsText "data:").length ≤ s.buf.length := by
        have : (jsText "data:").length = 5 := rfl
        omega
      exact hdata (List.prefix_of_prefix_length_le hfield hpre hle).isInfix

theorem readChunk_reading {eol : LineEnd} {s : SseState} {chunk coming total : JsStr}
    (h : Reading eol s (chunk ++ coming) total) :
    Reading eol (readChunk s chunk) coming total ∧ nextEvent (readChunk s chunk).buf = none := by
  have hchunk : Reading eol { s with buf := s.buf ++ chunk } coming total := by
    obtain ⟨qs, hbuf, hsaid⟩ := h
    exact ⟨qs, by simpa using hbuf, hsaid⟩
  obtain ⟨hread, hnone⟩ := drain_reading hchunk
  rw [readChunk, flush_of_reading hread]
  exact ⟨hread, hnone⟩

theorem foldl_reading {eol : LineEnd} {s : SseState} {chunks : List JsStr} {total : JsStr}
    (h : Reading eol s chunks.flatten total) (hnone : nextEvent s.buf = none) :
    Reading eol (chunks.foldl readChunk s) [] total ∧
      nextEvent (chunks.foldl readChunk s).buf = none := by
  induction chunks generalizing s with
  | nil => exact ⟨h, hnone⟩
  | cons chunk chunks ih =>
      rw [List.flatten_cons] at h
      obtain ⟨hread, hnone⟩ := readChunk_reading h
      exact ih hread hnone

/-- Where nothing is to come and no event is complete, everything has been said. -/
theorem Reading.total_eq {eol : LineEnd} {s : SseState} {total : JsStr}
    (h : Reading eol s [] total) (hnone : nextEvent s.buf = none) : s.said = total := by
  obtain ⟨qs, hbuf, hsaid⟩ := h
  rw [List.append_nil] at hbuf
  cases qs with
  | nil => simpa [decoded] using hsaid
  | cons q qs =>
      have hsome := nextEvent_event (p := q) (List.append_nil (sseStream eol qs))
      rw [hbuf, sseStream_cons, hsome] at hnone
      cases hnone

/-- The answer of a server that sends tokens, as it comes in chunks. -/
def tokenAnswer (chunks : List JsStr) : SseResponse :=
  { ok := true, status := 200, body := some { chunks := chunks, error := none } }

theorem deltas_tokenAnswer {eol : LineEnd} {ps : List PlainToken} {chunks : List JsStr}
    (h : chunks.flatten = sseStream eol ps) :
    (deltas (streamSSE (tokenAnswer chunks)).1).flatten = decoded ps := by
  have hinit : Reading eol .init chunks.flatten (decoded ps) :=
    ⟨ps, by simpa [SseState.init] using h, by simp [SseState.said, SseState.init, deltas]⟩
  obtain ⟨hread, hnone⟩ := foldl_reading hinit (nextEvent_of_count (by simp [SseState.init]))
  have hcalls : (streamSSE (tokenAnswer chunks)).1 = (chunks.foldl readChunk .init).calls := by
    simp only [streamSSE, tokenAnswer]
    split <;> rfl
  rw [hcalls]
  exact hread.total_eq hnone

/-- However a stream of tokens is cut, they come out as they were if and only if none of
them begins or ends with a blank and none is JSON, the empty ones apart. -/
theorem streamSSE_exact_iff (eol : LineEnd) (ps : List PlainToken) (chunks : List JsStr)
    (h : chunks.flatten = sseStream eol ps) :
    (deltas (streamSSE (tokenAnswer chunks)).1).flatten = (ps.map PlainToken.text).flatten ↔
      ∀ p ∈ ps, p.text = [] ∨ jsTrim p.text = p.text ∧ Json.parse p.text = none := by
  rw [deltas_tokenAnswer h]
  exact decoded_eq_iff ps

def helloWorld : List PlainToken :=
  [⟨jsText "Hello", by decide, by decide, by decide⟩,
    ⟨jsText " world", by decide, by decide, by decide⟩,
    ⟨jsText "42", by decide, by decide, by decide⟩]

/-- The stream comes in three chunks, the first of which ends between a line's two ends. -/
def helloChunks : List JsStr :=
  let stream := sseStream .crlf helloWorld
  [stream.take 12, (stream.drop 12).take 9, stream.drop 21]

theorem streamSSE_exact_iff_hello :
    helloChunks.flatten = sseStream .crlf helloWorld ∧
      ¬ (deltas (streamSSE (tokenAnswer helloChunks)).1).flatten = jsText "Hello world42" := by
  have hflatten : helloChunks.flatten = sseStream .crlf helloWorld := by decide
  refine ⟨hflatten, fun heq => ?_⟩
  have hkept := (streamSSE_exact_iff .crlf helloWorld helloChunks hflatten).mp
    (heq.trans (by decide))
  exact absurd (hkept helloWorld[1] (by simp [helloWorld])) (by decide)

/-- The blank in front of `world` is lost, and `42` as a whole. -/
theorem not_streamSSE_exact :
    ¬ ∀ (eol : LineEnd) (ps : List PlainToken) (chunks : List JsStr),
        chunks.flatten = sseStream eol ps →
          (deltas (streamSSE (tokenAnswer chunks)).1).flatten =
            (ps.map PlainToken.text).flatten := by
  intro hall
  have hsaid := hall .lf helloWorld [sseStream .lf helloWorld] List.flatten_singleton
  have hdecoded : decoded helloWorld = jsText "Helloworld" := by decide
  rw [deltas_tokenAnswer List.flatten_singleton, hdecoded] at hsaid
  exact absurd hsaid (by decide)

end VTranser.Panel

import VTranser.Translator.Text

/-!
# Strict mode: which sentences are committed

In strict mode the translator commits a sentence once it has been seen
unchanged in a number of updates and enough sentences follow it. It keeps the
sentences of the last update with how often each was seen, and the list of what
it committed; the length of that list is where the next update goes on.
-/

namespace VTranser.Translator

/-- The settings of strict mode. -/
structure StrictConfig where
  text : TextConfig
  sentStableCount : Nat
  sentenceLag : Nat
  releaseFlushAll : Bool

/-- The settings when nothing is configured; letters and digits are those of
English. -/
def defaultStrict : StrictConfig := ⟨⟨Char.isAlphanum, false⟩, 2, 0, false⟩

/-- The `strict_*` fields of the stream state. -/
structure StrictState where
  seenSentences : List PyStr
  seenCounts : List Nat
  committedSentences : List PyStr
  tail : PyStr
  confirmedN : Nat
  targetN : Nat
  deriving DecidableEq, Repr

def StrictState.init : StrictState := ⟨[], [], [], [], 0, 0⟩

/-- A call of `_enqueue_commit_segment`, with the index of the sentence. -/
structure Released where
  index : Nat
  enSeq : Int
  seg : PyStr
  deriving DecidableEq, Repr

/-- How often each sentence has now been seen in its place. -/
def newCounts (cfg : TextConfig) : List PyStr → List Nat → List PyStr → List Nat
  | _, _, [] => []
  | [], counts, _ :: sents => 1 :: newCounts cfg [] counts.tail sents
  | o :: old, counts, s :: sents =>
      (if normSpaces cfg o = normSpaces cfg s then counts.headD 0 + 1 else 1) ::
        newCounts cfg old counts.tail sents

/-- The loop over the sentences to commit: those with a letter or digit. -/
def releaseLoop (cfg : TextConfig) (effSeq : Int) (start : Nat) (sents : List PyStr) :
    List Released :=
  (sents.zipIdx start).filterMap fun (s, i) =>
    let s := normSpaces cfg s
    if s.isEmpty || isPunctOnly cfg s then none else some ⟨i, effSeq, s⟩

def StrictConfig.lagKeep (cfg : StrictConfig) : Nat := max 1 cfg.sentenceLag

/-- `_strict_collect_and_dispatch`: the new state and what it enqueues. -/
def strictCollectAndDispatch (cfg : StrictConfig) (fullNorm : PyStr) (effSeq : Int)
    (forceRelease : Bool) (st : StrictState) : StrictState × List Released :=
  let (sents, tail) := splitCompleteSentencesText cfg.text fullNorm
  let counts := newCounts cfg.text st.seenSentences st.seenCounts sents
  let confirmedN := (counts.takeWhile (cfg.sentStableCount ≤ ·)).length
  let targetN := if forceRelease && cfg.releaseFlushAll then confirmedN
    else confirmedN - cfg.lagKeep
  let start := st.committedSentences.length
  let released := releaseLoop cfg.text effSeq start
    ((sents.take (min targetN sents.length)).drop start)
  ({ seenSentences := sents, seenCounts := counts,
     committedSentences := st.committedSentences ++ released.map Released.seg,
     tail := tail, confirmedN := confirmedN, targetN := targetN }, released)

end VTranser.Translator

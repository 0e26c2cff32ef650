import VTranser.Translator.Handler

/-!
# Asking for translations

`_mt_translate_many` normalizes its texts and leaves out those without words, as the
commit worker did before it asked, and translates the others in one batch. The answer has one
text for each of the batch, and the worker takes it for the answer to its own list,
place by place.

The models and the tokenizer are no part of the repository: what they make of a batch
is a parameter, and so is the clean-up of a translation, which the results here do
not depend on.
-/

namespace VTranser.Translator

/-- Machine translation: which texts are a translation of a text, and how the
translations are cleaned up. -/
structure Mt where
  translation : PyStr → PyStr → Prop
  postprocessVi : PyStr → PyStr

/-- `translate_batch` with the tokenizers around it answers a batch text by text. -/
def Mt.OneEach (mt : Mt) (translateBatch : List PyStr → List PyStr) : Prop :=
  ∀ batch, List.Forall₂ mt.translation batch (translateBatch batch)

/-- `kept_src` of `_mt_translate_many` -/
def keptSrc (cfg : TextConfig) (srcSegments : List PyStr) : List PyStr :=
  (srcSegments.map (normSpaces cfg)).filter fun s => !(s.isEmpty || isPunctOnly cfg s)

/-- `_mt_translate_many` -/
def mtTranslateMany (cfg : TextConfig) (mt : Mt) (translateBatch : List PyStr → List PyStr)
    (srcSegments : List PyStr) : List PyStr :=
  if srcSegments.isEmpty then []
  else
    let kept := keptSrc cfg srcSegments
    if kept.isEmpty then [] else (translateBatch kept).map mt.postprocessVi

/-- The translations that `commit_worker` goes on with: it asks for the texts of its
batch and cleans up once more. -/
def commitVis (cfg : TextConfig) (mt : Mt) (translateBatch : List PyStr → List PyStr)
    (batch : List Segment) : List PyStr :=
  (mtTranslateMany cfg mt translateBatch (batch.map Segment.seg)).map mt.postprocessVi

end VTranser.Translator

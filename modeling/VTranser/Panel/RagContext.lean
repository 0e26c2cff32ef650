import VTranser.Text

/-!
# The pinned context

The transcripts that are pinned in the side panel go into one block of text for the
chat, each clipped on its own and the last of them to what is left of the whole.
-/

namespace VTranser.Panel

def ragContextPerItemMax : Nat := 2400

def ragContextTotalMax : Nat := 9000

/-- What the panel knows of a transcript session: the texts that may stand for it, a
field that is no string being `none`, and what the header is made of. `hostname` is
what `new URL(tab_url)` has, if it is one, and `startedAt` the time as it is shown. -/
structure RagItem where
  previewText : Option JsStr
  latestTextEn : Option JsStr
  latestTextVi : Option JsStr
  latestText : Option JsStr
  textEn : Option JsStr
  textVi : Option JsStr
  text : Option JsStr
  tabDomain : JsStr
  hostname : Option JsStr
  startedAt : JsStr
  deriving DecidableEq, Repr

/-- An answer of `ensureRagDetail`. -/
structure RagDetail where
  ok : Bool
  item : RagItem
  fullText : JsStr
  deriving DecidableEq, Repr

/-- A pinned transcript: its detail, and what `findRagItem` has if there is none. -/
structure PinnedRag where
  detail : Option RagDetail
  found : RagItem
  deriving DecidableEq, Repr

def clipText (s : JsStr) (maxLen : Nat) : JsStr :=
  if s.length ≤ maxLen then s else s.take (maxLen - 3) ++ jsText "..."

/-- `pickTranscriptText(item)` -/
def pickTranscriptText (item : RagItem) : JsStr :=
  let cands := [item.previewText, item.latestTextEn, item.latestTextVi, item.latestText,
    item.textEn, item.textVi, item.text]
  ((cands.filterMap id).find? fun c => !(jsTrim c).isEmpty).getD []

def ragDomainFrom (item : RagItem) : JsStr :=
  orText (jsTrim item.tabDomain) (orText (item.hostname.getD []) (jsText "Unknown website"))

/-- `s.replace(/\n{3,}/g, '\n\n')`, with the number of line feeds just before. -/
def subLineFeeds : Nat → JsStr → JsStr
  | _, [] => []
  | run, c :: cs =>
      if c = 0x0A then
        if run < 2 then c :: subLineFeeds (run + 1) cs else subLineFeeds run cs
      else c :: subLineFeeds 0 cs

/-- `.replace(/\r/g, '\n').replace(/\n{3,}/g, '\n\n').trim()` -/
def normalizeRagText (s : JsStr) : JsStr :=
  jsTrim (subLineFeeds 0 (s.map fun c => if c = 0x0D then 0x0A else c))

namespace PinnedRag

def item (p : PinnedRag) : RagItem := (p.detail.map RagDetail.item).getD p.found

/-- The text of a transcript as the block has it before it is clipped. -/
def full (p : PinnedRag) : JsStr :=
  let text := match p.detail with
    | some detail => if detail.ok then detail.fullText else []
    | none => []
  normalizeRagText (orText text (pickTranscriptText p.item))

def header (p : PinnedRag) (n : Nat) : JsStr :=
  jsText "[Transcript " ++ jsText (toString n) ++ jsText "] " ++ ragDomainFrom p.item ++
    jsText " | " ++ p.item.startedAt

end PinnedRag

/-- The loop of `buildPinnedRagContextBlock`: the headers and the texts, behind `count`
chunks with `total` code units. -/
def ragChunks (total count : Nat) : List PinnedRag → List (JsStr × JsStr)
  | [] => []
  | p :: ps =>
      if ragContextTotalMax ≤ total then []
      else if p.full.isEmpty then ragChunks total count ps
      else
        let clipped := clipText p.full ragContextPerItemMax
        let remain := ragContextTotalMax - total
        let usable := if remain < clipped.length then clipText clipped remain else clipped
        if usable.isEmpty then ragChunks total count ps
        else
          (p.header (count + 1), usable) :: ragChunks (total + usable.length) (count + 1) ps

/-- `buildPinnedRagContextBlock` -/
def buildPinnedRagContextBlock (pinned : List PinnedRag) : JsStr :=
  let chunks := (ragChunks 0 0 pinned).map fun c => c.1 ++ jsText "\n" ++ c.2
  (chunks.intersperse (jsText "\n\n")).flatten

end VTranser.Panel

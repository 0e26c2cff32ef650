import VTranser.Auth
import VTranser.Lib.Retry

/-!
# Saving a recording

A recording is uploaded to the first bucket that takes it, and a row about it is
inserted into `video_recordings`, whether it was uploaded or not. A column that the
table does not know is left out and the row is sent again; when a foreign key is
refused it is sent with no session, and then with no user.

The clock, which stands still, dates, the digest and the answers of the buckets are given.
-/

namespace VTranser.Offscreen

open Retry

inductive Column
  | userId | trSessionId | chatSessionId | startedAt | endedAt | durationMs | fileUrl
  | sizeBytes | mimeType | checksum | storageClass | encryptionKeyId | status
  | constentFlag | consentFlag | purpose | retentionUntil | previewUrl | captionFileUrl
  deriving DecidableEq, Repr

inductive Value
  | null
  | text (s : JsStr)
  | number (n : Int)
  deriving DecidableEq, Repr

abbrev Row := ObjMap Column Value

/-- `s || null` -/
def orNull (s : JsStr) : Value := if s.isEmpty then .null else .text s

structure Blob where
  size : Nat
  type : JsStr
  deriving DecidableEq, Repr

/-- The settings of a recording. -/
structure RecordConfig where
  userId : JsStr
  trSessionId : JsStr
  startedAt : Int
  endedAt : Int
  deriving DecidableEq, Repr

/-- `Date.now`, `Date.parse`, `toISOString`, the digest of the blob, and the buckets
that take an upload. -/
structure Surroundings where
  now : Int
  parse : JsStr → Option Int
  iso : Int → JsStr
  digest : JsStr
  takes : JsStr → JsStr → Bool

variable (env : Surroundings)

/-- `parseDbId` -/
def parseDbId (v : JsStr) : JsStr := Auth.parseNumericId v

def numberText (n : Int) : JsStr := jsText (toString n)

/-- `n || Date.now()` -/
def orNow (n : Int) : Int := if n = 0 then env.now else n

/-- `toIso` of a number that is not zero. -/
def toIso (n : Int) : JsStr :=
  match env.parse (numberText n) with
  | some t => env.iso t
  | none => env.iso env.now

/-- `STORAGE_BUCKET_CANDIDATES` -/
def storageBucketCandidates : List JsStr :=
  [jsText "video-recordings", jsText "video_recordings", jsText "recordings", jsText "videos",
    jsText "vtranser-recordings"]

/-- `.replace(/[:.]/g, "-")` -/
def dashed (s : JsStr) : JsStr := s.map fun u => if u = 0x3A ∨ u = 0x2E then 0x2D else u

/-- Where the upload goes to in a bucket. -/
def storagePath (blob : Blob) (cfg : RecordConfig) : JsStr :=
  let ext := if jsText "mp4" <:+: blob.type then jsText "mp4" else jsText "webm"
  jsText "users/" ++ parseDbId cfg.userId ++ jsText "/transcript/" ++
    orText (parseDbId cfg.trSessionId) (jsText "na") ++ jsText "/" ++
    dashed (env.iso (orNow env cfg.startedAt)) ++ jsText "." ++ ext

/-- `uploadBlobToStorage`: the `fileUri`. -/
def uploadBlobToStorage (blob : Blob) (cfg : RecordConfig) : Option JsStr :=
  if (parseDbId cfg.userId).isEmpty ∨ blob.size = 0 then none
  else
    let path := storagePath env blob cfg
    (storageBucketCandidates.find? fun bucket => env.takes bucket path).map fun bucket =>
      jsText "supabase://" ++ bucket ++ jsText "/" ++ path

/-- What the row is made of, column by column. -/
def baseColumn (blob : Blob) (cfg : RecordConfig) (upload : Option JsStr) : Column → Value
  | .userId => .text (parseDbId cfg.userId)
  | .trSessionId => orNull (parseDbId cfg.trSessionId)
  | .chatSessionId => .null
  | .startedAt => .text (toIso env (orNow env cfg.startedAt))
  | .endedAt => .text (toIso env (orNow env cfg.endedAt))
  | .durationMs => .number (max 0 (orNow env cfg.endedAt - orNow env cfg.startedAt))
  | .fileUrl =>
      .text (upload.getD (jsText "recording://upload-failed/" ++ numberText env.now))
  | .sizeBytes => .text (numberText blob.size)
  | .mimeType => .text (orText blob.type (jsText "video/webm"))
  | .checksum => orNull env.digest
  | .storageClass => .text (jsText "hot")
  | .encryptionKeyId => .null
  | .status => .text (if upload.isSome then jsText "ready" else jsText "processing")
  | .constentFlag | .consentFlag => .text (jsText "true")
  | .purpose => .text (jsText "feature")
  | .retentionUntil => .text (toIso env (env.now + 30 * 24 * 60 * 60 * 1000))
  | .previewUrl | .captionFileUrl => .null

def columns : List Column :=
  [.userId, .trSessionId, .chatSessionId, .startedAt, .endedAt, .durationMs, .fileUrl,
    .sizeBytes, .mimeType, .checksum, .storageClass, .encryptionKeyId, .status, .constentFlag,
    .consentFlag, .purpose, .retentionUntil, .previewUrl, .captionFileUrl]

/-- The row with these values. -/
def rowOf (value : Column → Value) : Row where
  entries := columns.map fun c => (c, value c)
  nodup := by
    rw [List.map_map]
    exact (by decide : columns.Nodup)

/-- The row with nothing in some columns. -/
def without (cs : List Column) (value : Column → Value) (c : Column) : Value :=
  if c ∈ cs then .null else value c

/-- An answer of the database: the row is in, or it is refused, for a foreign key or
for something else. -/
abbrev Inserted := Answer Column Unit Bool

/-- What `persistRecordedBlob` says. -/
inductive SaveResult
  | saved
  | userIdInvalid
  | emptyVideoBlob
  | failed (outcome : Outcome Column Unit Bool) (uploaded : Bool)
  deriving DecidableEq, Repr

variable {σ : Type*} (post : σ → Row → Inserted × σ)

/-- `insertVideoRecordingFlexible` -/
def insertVideoRecordingFlexible (s : σ) (row : Row) : Outcome Column Unit Bool × σ :=
  shrink post 10 s row

/-- The error says that a foreign key was refused. -/
def isForeignKey (out : Outcome Column Unit Bool) : Bool := out = .answer (.refused true)

/-- The row is inserted with nothing in some columns if a foreign key was refused. -/
def insertWithout (nulls : List Column) (base : Column → Value)
    (r : Outcome Column Unit Bool × σ) : Outcome Column Unit Bool × σ :=
  if isForeignKey r.1 then insertVideoRecordingFlexible post r.2 (rowOf (without nulls base)) else r

/-- `persistRecordedBlob` -/
def persistRecordedBlob (blob : Blob) (cfg : RecordConfig) (s : σ) : SaveResult × σ :=
  if (parseDbId cfg.userId).isEmpty then (.userIdInvalid, s)
  else if blob.size = 0 then (.emptyVideoBlob, s)
  else
    let upload := uploadBlobToStorage env blob cfg
    let base := baseColumn env blob cfg upload
    let (out, s) := insertVideoRecordingFlexible post s (rowOf base)
      |> insertWithout post [.trSessionId, .chatSessionId] base
      |> insertWithout post [.userId, .trSessionId, .chatSessionId] base
    if out = .answer (.taken ()) then (.saved, s) else (.failed out upload.isSome, s)

end VTranser.Offscreen

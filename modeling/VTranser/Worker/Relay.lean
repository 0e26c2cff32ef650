import VTranser.Tail

/-!
# Relaying a stable text to the overlay

The recorder page wraps what the server sends in a message of its own; the
service worker passes patches on as they are and puts a trimmed text into the
stable ones, so that their size stays bounded.
-/

namespace VTranser.Worker

/-- The server's object inside a stable message. -/
structure StablePayload where
  full : JsStr
  seq : Int
  tMs : Int

/-- A stable message inside the extension. -/
structure StableRelay where
  full : Option JsStr
  payload : StablePayload

/-- `OVERLAY_EN_STABLE_MAX_CHARS` -/
def overlayEnStableMaxChars : Int := 3200

/-- `trimTailForOverlay` at the limit it is called with. -/
def trimTailForOverlay (text : JsStr) : JsStr := trimTail text overlayEnStableMaxChars

def buildOverlayStableRelayMsg (msg : StableRelay) (fullText : JsStr) : StableRelay :=
  let trimmed := trimTailForOverlay fullText
  { full := some trimmed, payload := { msg.payload with full := trimmed } }

/-- The relay of a stable message: the text to trim is the server's. -/
def relayStable (msg : StableRelay) : StableRelay :=
  buildOverlayStableRelayMsg msg msg.payload.full

end VTranser.Worker

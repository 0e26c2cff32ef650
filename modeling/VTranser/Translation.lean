import VTranser.Lib.Run
import VTranser.Overlay.Vietnamese

/-!
# The translation from the translator to the overlay

One connection of the translator, from the reset of the overlay when it opens.
What the translator sends is relayed in the order it was sent; the service
worker drops a delta whose number a commit had, the overlay queues or drops the
rest, and an animation frame applies what is queued.

The connection itself is not another field: it is what the translator sent
beyond the first `relayed` messages.
-/

namespace VTranser.Translation

open Translator (Handler HandlerConfig Out)

/-! ## The relay -/

/-- What `ws.onmessage` does with a message: the new `lastRxViCommitSeq`, and
whether the message is passed on. -/
def onViMessage (msg : Out) (lastRxViCommitSeq : Int) : Int × Bool :=
  match msg with
  | .viCommit _ seq _ =>
      (if 0 < seq then max lastRxViCommitSeq seq else lastRxViCommitSeq, true)
  | .viDelta _ seq _ => (lastRxViCommitSeq, !(decide (0 < seq) && decide (seq ≤ lastRxViCommitSeq)))
  | .viDraft .. => (lastRxViCommitSeq, true)

/-! ## The whole path -/

structure Config (σ : Type) where
  handler : HandlerConfig σ
  viStateMaxChars : Int

structure State (σ : Type) where
  handler : Handler σ
  relayed : Nat
  lastRxViCommitSeq : Int
  overlay : Overlay.Vietnamese

inductive Label
  | handler (l : Handler.Label)
  | relay
  | frame
  deriving DecidableEq, Repr

variable {σ : Type}

/-- When a connection opens, the overlay is reset and told whether there are
drafts. -/
def State.init (cfg : Config σ) (seg : σ) (overlay : Overlay.Vietnamese) : State σ where
  handler := .init seg
  relayed := 0
  lastRxViCommitSeq := -1
  overlay := Overlay.configVI cfg.handler.enableViDraft (Overlay.resetVI cfg.viStateMaxChars overlay)

/-- The service worker and the overlay handle a message. -/
def relay (msg : Out) (st : State σ) : State σ :=
  let (last, pass) := onViMessage msg st.lastRxViCommitSeq
  { st with
    relayed := st.relayed + 1
    lastRxViCommitSeq := last
    overlay := if pass then Overlay.handleVi msg st.overlay else st.overlay }

def step (cfg : Config σ) (st : State σ) : Label → Option (State σ)
  | .handler l => (Handler.step cfg.handler st.handler l).map fun handler => { st with handler }
  | .relay => st.handler.sent[st.relayed]?.map fun o => relay o.out st
  | .frame => some { st with overlay := Overlay.flushVI cfg.viStateMaxChars st.overlay }

/-- Everything sent has been relayed and flushed. -/
def State.processed (st : State σ) : Bool :=
  st.relayed == st.handler.sent.length && st.overlay.ops.isEmpty

end VTranser.Translation

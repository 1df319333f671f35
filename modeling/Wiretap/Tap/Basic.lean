import Wiretap.Listener
import Wiretap.Demand

/-!
# The state of a tap

A tap stands between a source and a receiver for the time of one subscription. It holds the state
of its listener, the context of the subscription, the handle of the source once that has arrived,
and three flags: is the receiver still attached, has the subscription ended, and has the last hook
been settled.

A tap is never alone at work: what it does with a signal is interrupted by calls to its neighbours.
`Turn` is one stretch of its work: what it did, the state it is in, and what it does next, which is
either to answer or to call a neighbour and to resume at a given point when that call returns.
-/

namespace Wiretap

/-- The state of a tap whose listener has states `σ`. -/
structure Tap [Kinds] (σ : Type) where
  /-- The state of the listener. -/
  listener : σ
  /-- The augmented context of the subscription. -/
  context : Context
  /-- Is the receiver still attached? -/
  attached : Bool
  /-- The handle of the source. -/
  source : Option Handle
  /-- Has the subscription ended? -/
  done : Bool
  /-- Has the last hook been run, or been ruled out? -/
  finalized : Bool

namespace Tap

variable {K : Kinds} {σ α ε : Type}

/-- A tap at the start of its subscription. -/
def start (listener : σ) (context : Context) : Tap σ where
  listener
  context
  attached := true
  source := none
  done := false
  finalized := false

/-- What a tap is called with. -/
inductive Input (α ε : Type)
  /-- A signal from the source. -/
  | signal (s : Signal α ε)
  /-- The receiver uses the tap as its handle. -/
  | control (c : Control)
deriving DecidableEq

/-- Something a tap does without calling a neighbour. -/
inductive Act (α ε : Type)
  /-- It ran a hook, which may have failed. -/
  | ran (h : Hook α ε) (failure : Option Cause)
  /-- It had the listener augment the context, which may have failed. -/
  | augmented (failure : Option Cause)
  /-- It told the listener of its own fault. -/
  | reported (f : Fault)
  /-- It dropped an item. -/
  | droppedItem (x : α)
  /-- It dropped an error. -/
  | droppedError (e : Undelivered ε)
  /-- It ignored a handle because it has one already. -/
  | ignoredHandle
deriving DecidableEq

/-- Where a tap goes on when a neighbour returns. -/
inductive Resume (α ε : Type)
  /-- Nothing is left to do. -/
  | leave
  /-- A second handle has been cancelled. -/
  | ignored
  /-- The handle has been cancelled because the hook for it failed. -/
  | refused (f : Fault)
  /-- The receiver has got an empty handle and now gets the fault. -/
  | excused (f : Fault)
  /-- The source has been cancelled because of a fault. -/
  | failed (f : Fault)
  /-- The source has been cancelled because of a fault over its error. -/
  | spoiled (f : Fault) (e : ε)
  /-- The error of the source has been passed on. -/
  | passedError (e : ε)
  /-- The completion has been passed on. -/
  | passedComplete
  /-- An item has been offered to the receiver. -/
  | offered (x : α)
  /-- An item that was offered to the tap has been sent to the receiver. -/
  | sent (x : α)
  /-- The source has been cancelled on behalf of the receiver. -/
  | released

/-- What a tap does at the end of a turn. -/
inductive Next (α ε : Type)
  /-- Return to the caller; the answer counts if an item was offered. -/
  | answer (b : Bool)
  /-- Send the receiver a signal. -/
  | down (s : Signal α (TapError ε)) (r : Resume α ε)
  /-- Use the handle of the source. -/
  | up (h : Handle) (c : Control) (r : Resume α ε)

/-- One stretch of a tap's work. -/
structure Turn [Kinds] (σ α ε : Type) where
  /-- What it did, in order. -/
  acts : List (Act α ε)
  /-- The state it is in now. -/
  tap : Tap σ
  /-- What it does next. -/
  next : Next α ε

/-- The same turn with an act before it. -/
def Turn.after (act : Act α ε) (t : Turn σ α ε) : Turn σ α ε := { t with acts := act :: t.acts }

end Tap

end Wiretap

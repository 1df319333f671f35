import Wiretap.Context.Basic

/-!
# Signals, controls and handles

Signals travel down a line of receivers, controls travel up. A receiver first gets a handle, then
items and at most one ending. Through the handle it asks for items and cancels. An item is either
sent, and then counts as taken, or offered, and then the receiver answers whether it took it.
-/

namespace Wiretap

/-- What a receiver does through a handle. -/
inductive Control
  /-- Ask for `n` more items. -/
  | request (n : UInt64)
  /-- Ask for the end of the flow. -/
  | cancel
deriving DecidableEq

/-- A handle, seen from the line on which it is used. -/
inductive Handle
  /-- Nothing is behind it. -/
  | empty
  /-- The emission of the line's own source. -/
  | emission
  /-- The tap at a place of the line. -/
  | tap (place : Nat)
  /-- A handle known by its number to whoever drives the source from outside. -/
  | external (id : Nat)
deriving DecidableEq

/-- What a receiver of items `α` and errors `ε` gets. -/
inductive Signal (α ε : Type)
  /-- The handle of the subscription. -/
  | subscribe (h : Handle)
  /-- An item. -/
  | next (x : α)
  /-- An item to take or to refuse. -/
  | offer (x : α)
  /-- The end, by an error. -/
  | error (e : ε)
  /-- The end. -/
  | complete
deriving DecidableEq

namespace Signal

variable {K : Kinds} {α ε ε' : Type}

/-- The same signal with its error changed. -/
def mapError (f : ε → ε') : Signal α ε → Signal α ε'
  | .subscribe h => .subscribe h
  | .next x => .next x
  | .offer x => .offer x
  | .error e => .error (f e)
  | .complete => .complete

/-- Does the signal end the stream? -/
def isTerminal : Signal α ε → Bool
  | .error _ | .complete => true
  | _ => false

/-- Does the receiver's answer to the signal matter? -/
def isOffer : Signal α ε → Bool
  | .offer _ => true
  | _ => false

/-- The answer that counts: only an offer can be refused. -/
def answer (s : Signal α ε) (b : Bool) : Bool := !s.isOffer || b

end Signal

/-- How a subscription ended. -/
inductive Ending
  | complete
  | error
  | cancel
deriving DecidableEq

namespace Ending

/-- The short name of an ending. -/
def label : Ending → String
  | .complete => "on_complete"
  | .error => "on_error"
  | .cancel => "cancel"

/-- The name of an ending as a word of its own. -/
def name : Ending → String
  | .complete => "Complete"
  | .error => "Error"
  | .cancel => "Cancel"

end Ending

/-- What a line needs to know of the receiver at its end. -/
structure Client [Kinds] where
  /-- The context it carries. -/
  context : Context
  /-- Can it refuse items? -/
  conditional : Bool
deriving DecidableEq

end Wiretap

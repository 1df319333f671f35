import Wiretap.Scenario.Kinds
import Wiretap.Scenario.Predicate
import Wiretap.Fault.Tapped
import Wiretap.Signal
import Wiretap.Demand

/-!
# Recording subscribers

A recording subscriber keeps every signal that it receives, asks for an initial number of items,
and may take only the items that a predicate describes. It counts what it receives by kind, and may
react to the first, second, … of a kind, or to each.
-/

namespace Wiretap.Scenario

variable {α : Type}

/-- What can be done from outside while a scenario runs. -/
inductive Action (α : Type)
  /-- The subscriber asks for items through its last handle. -/
  | request (n : UInt64)
  /-- The subscriber cancels through its last handle. -/
  | cancel
  /-- Send an item to every receiver at the source. -/
  | next (x : α)
  /-- Offer an item to every receiver at the source that can refuse, and send it to the others. -/
  | tryNext (x : α)
  /-- Send items one after the other. -/
  | emit (xs : List α)
  /-- End by an error. -/
  | error (e : String)
  /-- End. -/
  | complete
  /-- Send a fresh handle. -/
  | handle
  /-- Send a handle with nothing behind it. -/
  | emptyHandle
  /-- Offer an item, even to a receiver that cannot refuse. -/
  | offer (x : α)
  /-- Use the tap itself as a handle. -/
  | controlTap (c : Control)

/-- What a subscriber counts. -/
inductive Occasion
  | subscribe
  | next
  | reject
  | error
  | complete
deriving DecidableEq

/-- Something a subscriber does when it has received a signal. -/
structure Reaction (α : Type) where
  /-- On which kind of signal. -/
  on : Occasion
  /-- On which of that kind, counted from 1; on each if this is absent. -/
  nth : Option Nat
  /-- What it does. -/
  action : Action α

/-- A signal as it is kept. -/
inductive Received (α : Type)
  | subscribe
  | next (x : α)
  | error (e : TapError String)
  | complete

namespace Received

/-- Does the signal end the stream? -/
def isTerminal : Received α → Bool
  | .error _ | .complete => true
  | _ => false

/-- The item, if it is one. -/
def item? : Received α → Option α
  | .next x => some x
  | _ => none

/-- The error, if it is one. -/
def error? : Received α → Option (TapError String)
  | .error e => some e
  | _ => none

/-- The structure of a signal. The error of a source stands for itself. -/
def inspect [Literal α] : Received α → String
  | .subscribe => "Subscribe"
  | .next x => "Next(" ++ literal x ++ ")"
  | .error (.source e) => "Error(" ++ literal e ++ ")"
  | .error e => "Error(" ++ literal e ++ ")"
  | .complete => "Complete"

/-- The entry of a signal in the log. -/
def entry [Literal α] : Received α → String
  | .subscribe => "on_subscribe"
  | .next x => "on_next(" ++ literal x ++ ")"
  | .error _ => "on_error"
  | .complete => "on_complete"

end Received

/-- How a subscriber behaves. -/
structure Manner (α : Type) where
  /-- The items that it asks for at first; none if this is 0. -/
  request : UInt64
  /-- The items that it takes; it cannot refuse any if this is absent. -/
  accept : Option (Predicate α)
  /-- The context that it carries. -/
  context : Context
  /-- Does it write the signals to the log? -/
  logs : Bool
  /-- Does it write the ambient context at every signal? -/
  probe : Bool
  /-- What it does besides. -/
  reactions : List (Reaction α)

/-- A recording subscriber. -/
structure Subscriber (α : Type) where
  /-- How it behaves. -/
  manner : Manner α
  /-- What it has received, oldest first. -/
  received : Array (Received α)
  /-- What it has counted, newest first. -/
  occasions : List Occasion

namespace Subscriber

/-- A subscriber that has not received anything. -/
def start (manner : Manner α) : Subscriber α := ⟨manner, #[], []⟩

/-- What a line needs to know of it. -/
def client (s : Subscriber α) : Client := ⟨s.manner.context, s.manner.accept.isSome⟩

/-- Keep a signal. -/
def keep (s : Subscriber α) (r : Received α) : Subscriber α :=
  { s with received := s.received.push r }

/-- Does it take an item that is offered? -/
def accepts [Item α] [DecidableEq α] (s : Subscriber α) (x : α) : Bool :=
  s.manner.accept.all (·.holds x)

/-- What it keeps of a signal; nothing of an item that it refuses. -/
def kept? [Item α] [DecidableEq α] (s : Subscriber α) :
    Signal α (TapError String) → Option (Received α)
  | .subscribe _ => some .subscribe
  | .next x => some (.next x)
  | .offer x => if s.accepts x then some (.next x) else none
  | .error e => some (.error e)
  | .complete => some .complete

/-- The occasion of a signal of which it keeps `r`. -/
def occasion : Option (Received α) → Occasion
  | some .subscribe => .subscribe
  | some (.next _) => .next
  | some (.error _) => .error
  | some .complete => .complete
  | none => .reject

/-- Count an occasion. -/
def count (s : Subscriber α) (o : Occasion) : Subscriber α :=
  { s with occasions := o :: s.occasions }

/-- What it does on the occasion that it counted last. -/
def reactions (s : Subscriber α) (o : Occasion) : List (Action α) :=
  let n := s.occasions.count o
  (s.manner.reactions.filter fun r => r.on == o && r.nth.all (· == n)).map (·.action)

/-- The items received, oldest first. -/
def items (s : Subscriber α) : List α := s.received.toList.filterMap Received.item?

/-- The errors received, oldest first. -/
def errors (s : Subscriber α) : List (TapError String) :=
  s.received.toList.filterMap Received.error?

/-- The number of endings received. -/
def terminalCount (s : Subscriber α) : Nat := s.received.toList.countP Received.isTerminal

/-- The number of handles received. -/
def subscribeCount (s : Subscriber α) : Nat :=
  s.received.toList.countP fun
    | .subscribe => true
    | _ => false

/-- Has it received a completion? -/
def isCompleted (s : Subscriber α) : Bool :=
  s.received.toList.any fun
    | .complete => true
    | _ => false

end Subscriber

/-- What has been done through a handle that was given from outside. -/
structure HandleRecord where
  /-- The requests, oldest first. -/
  requests : List UInt64
  /-- The number of cancellations. -/
  cancels : Nat

namespace HandleRecord

/-- A handle that has not been used. -/
def unused : HandleRecord := ⟨[], 0⟩

/-- Record a use. -/
def use (h : HandleRecord) : Control → HandleRecord
  | .request n => { h with requests := h.requests ++ [n] }
  | .cancel => { h with cancels := h.cancels + 1 }

end HandleRecord

end Wiretap.Scenario

import Wiretap.Demand

/-!
# Emissions

An emission hands out the items of a sequence as they are asked for. It always holds the next item
ahead, pulled from the sequence but not handed out, so it knows when it hands out the last one and
can complete at once. A sequence is given by its pulls: the item that each call for the next item
gives, until one gives none.

Items are handed out by a loop, which counts those that were taken since it last settled the
account. Only the request that finds no demand outstanding starts the loop; a request made while it
runs adds to the demand that the loop looks at.
-/

namespace Wiretap

/-- An emission of items `α` at work. -/
structure Emission (α : Type) where
  /-- How many times the sequence was asked for its next item. -/
  pulled : Nat
  /-- The item held ahead; none once the sequence has ended. -/
  ahead : Option α
  /-- The demand outstanding. -/
  requested : UInt64
  /-- Has the receiver cancelled? -/
  cancelled : Bool
  /-- Is the receiver still attached? -/
  attached : Bool

namespace Emission

variable {α : Type}

/-- An emission whose first pull gave `x`. -/
def start (x : α) : Emission α := ⟨1, some x, 0, false, true⟩

/-- What the loop does next. -/
inductive Verdict
  /-- Hand out the item ahead. -/
  | deliver
  /-- Settle the account: as many items have been taken as were asked for. -/
  | settle
  /-- Stop: the receiver has cancelled. -/
  | stop
deriving DecidableEq

/-- What the loop does next when `emitted` items have been taken since the last settlement. -/
def verdict (e : Emission α) (emitted : UInt64) : Verdict :=
  if e.requested = Demand.unbounded ∨ emitted ≠ e.requested then
    if e.cancelled then .stop else .deliver
  else .settle

/-- Move the sequence on by one pull. -/
def advance (pull : Nat → Option α) (e : Emission α) : Emission α :=
  { e with pulled := e.pulled + 1, ahead := pull e.pulled }

/-- Take the items that were taken off the demand. -/
def settle (e : Emission α) (emitted : UInt64) : Emission α :=
  { e with requested := e.requested - emitted }

/-- May the completion be delivered? -/
def mayComplete (e : Emission α) : Bool := !e.cancelled && e.attached

/-- Let the receiver go. -/
def detach (e : Emission α) : Emission α := { e with attached := false }

/-- Add to the demand. -/
def request (e : Emission α) (n : UInt64) : Emission α :=
  { e with requested := Demand.add e.requested n }

/-- Does this emission start its loop when items are asked for? -/
def startsLoop (e : Emission α) : Bool := e.requested == 0 && e.attached

/-- The receiver cancels. -/
def cancel (e : Emission α) : Emission α := { e with cancelled := true, attached := false }

end Emission

end Wiretap

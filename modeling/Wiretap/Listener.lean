import Wiretap.Signal
import Wiretap.Fault.Undelivered

/-!
# Listeners

A listener is told of everything that passes a tap, by hooks. It has a state of its own, and any
hook may fail on any run. It cannot change what passes: a hook sees an item or an error and gives
back nothing but the news that it failed.

Whatever a listener does, it can look at the ambient context first. So a tap has a listener for
every ambient context, all with the same states: each hook is run by the listener for the context
that is ambient at that moment.
-/

namespace Wiretap

/-- One run of a hook, over items `α` and errors `ε` of the tapped stream. -/
inductive Hook (α ε : Type)
  /-- Before the tap subscribes. -/
  | first
  /-- The handle arrived and has not been passed on yet. -/
  | subscription
  /-- An item, before it is passed on, or after it has been taken if it was an offer. -/
  | next (x : α)
  /-- An item after the end. -/
  | malformedNext (x : α)
  /-- The source's error, before it is passed on. -/
  | error (e : ε)
  /-- An error after the end. -/
  | malformedError (e : ε)
  /-- The source's error, after it has been passed on. -/
  | afterError (e : ε)
  /-- The completion, before it is passed on. -/
  | complete
  /-- A completion after the end. -/
  | malformedComplete
  /-- The completion, after it has been passed on. -/
  | afterComplete
  /-- The last hook of a subscription that ended without a fault. -/
  | finally (ending : Ending)
  /-- A request, before it is passed on. -/
  | request (n : UInt64)
  /-- A cancellation, before it is passed on. -/
  | cancel
deriving DecidableEq

namespace Hook

variable {K : Kinds} {α ε : Type}

/-- The name of a hook. -/
def name : Hook α ε → String
  | .first => "do_first"
  | .subscription => "do_on_subscription"
  | .next _ => "do_on_next"
  | .malformedNext _ => "do_on_malformed_on_next"
  | .error _ => "do_on_error"
  | .malformedError _ => "do_on_malformed_on_error"
  | .afterError _ => "do_after_error"
  | .complete => "do_on_complete"
  | .malformedComplete => "do_on_malformed_on_complete"
  | .afterComplete => "do_after_complete"
  | .finally _ => "do_finally"
  | .request _ => "do_on_request"
  | .cancel => "do_on_cancel"

/-- What the hook is told besides its name. -/
def argument? [Literal α] [Literal ε] : Hook α ε → Option String
  | .next x | .malformedNext x => some (literal x)
  | .error e | .malformedError e | .afterError e => some (literal e)
  | .finally ending => some ending.label
  | .request n => some (toString n.toNat)
  | _ => none

/-- The fault that arises when the hook fails. -/
def fault (h : Hook α ε) (cause : Cause) : Fault := ⟨.hook h.name, cause⟩

end Hook

/-- The name under which the augmentation of the context goes in a log. -/
def augmentationName : String := "add_to_context"

/-- What a listener with states `σ` does under one ambient context. -/
structure Listener [Kinds] (σ α ε : Type) where
  /-- Run a hook; a cause means that it failed. -/
  run : σ → Hook α ε → σ × Option Cause
  /-- Augment the context of the subscription. -/
  augment : σ → Context → σ × Except Cause Context
  /-- Hear of a fault of this listener. -/
  notice : σ → Fault → σ

namespace Listener

/-- The listener that ignores everything. -/
def idle [Kinds] (σ α ε : Type) : Listener σ α ε where
  run s _ := (s, none)
  augment s c := (s, .ok c)
  notice s _ := s

end Listener

end Wiretap

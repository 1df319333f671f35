import Wiretap.Scope.Basic
import Wiretap.Tap.Work
import Wiretap.Emission

/-!
# Plans

A plan is what has been assembled before anybody subscribes: a source, and the taps that are put
one behind the other on it. Tap `0` is the one next to the source. Between two taps the error of
the inner one is turned into an error of the stream by an adapter that forwards everything else as
it is.
-/

namespace Wiretap

/-- Where a stream comes from, with items `α` and errors `ε`. -/
inductive Source (α ε : Type)
  /-- A sequence, given by its pulls. -/
  | sequence (pull : Nat → Option α)
  /-- Completes at once. -/
  | empty
  /-- Fails at once. -/
  | failed (e : ε)
  /-- Driven by hand. -/
  | manual

/-- One tap of a plan, with listeners of states `σ`. The factory and the listener can look at the
context that is ambient when they are called; it is their first argument here. -/
structure TapPlan [Kinds] (σ α ε : Type) where
  /-- The scope installed around every call. -/
  scope : Scope
  /-- Create the listener of a subscription under an ambient context, from the number of this call,
  counted from 1, and the context of the receiver. -/
  create : Context → Nat → Context → Except Cause σ
  /-- How the listener behaves under an ambient context. -/
  listener : Context → Listener σ α ε

/-- A source with taps on it. -/
structure Plan [Kinds] (σ α ε : Type) where
  /-- The source. -/
  source : Source α ε
  /-- The taps, from the source on. -/
  taps : List (TapPlan σ α ε)
  /-- Turns the error behind one tap into the error that the next one sees. -/
  adapt : TapError ε → ε

namespace Plan

variable {K : Kinds} {σ α ε : Type}

/-- The number of taps, which is also the position of the receiver at the end. -/
def depth (P : Plan σ α ε) : Nat := P.taps.length

/-- Does the source send what the outside tells it to? -/
def isDriven (P : Plan σ α ε) : Bool :=
  match P.source with
  | .manual => true
  | _ => false

end Plan

end Wiretap

import Wiretap.Machine.Step

/-!
# A source driven by hand

Whoever drives a source by hand tells it to send something, and it sends that to every line that it
has been joined to so far, one after the other. A line that is joined gets its handle at once, and
all lines get the same one.
-/

namespace Wiretap

variable {K : Kinds} {σ α ε : Type}

/-- What the source is told to send. -/
inductive Telling (α ε : Type)
  /-- This signal. -/
  | send (s : Signal α ε)
  /-- This item, as an offer to those who can refuse. -/
  | tryNext (x : α)

namespace Telling

/-- The signal for a line. -/
def signal (conditional : Bool) : Telling α ε → Signal α ε
  | .send s => s
  | .tryNext x => if conditional then .offer x else .next x

/-- What the source does when it is told: a move for every line that it has been joined to. -/
def moves (S : State σ α ε) (joined : List Nat) (t : Telling α ε) : List (Move α ε) :=
  joined.map fun line => .signal line (t.signal (S.isConditional line))

/-- What the source does with a new line: it gives the line the handle, and returns. -/
def greeting (line : Nat) : List (Move α ε) :=
  [.signal line (.subscribe (.external 0)), .answer true]

end Telling

end Wiretap

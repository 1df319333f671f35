import Wiretap.Machine.Step

/-!
# Histories

A history lists the events and the moves of a run in the order in which they happened. The machine
leaves no choice, so a run is determined by its moves; a history says besides what came of them.
-/

namespace Wiretap

variable {K : Kinds} {σ α ε : Type}

/-- One entry of a history. -/
inductive Entry [Kinds] (α ε : Type)
  /-- Something happened. -/
  | event (e : Event α ε)
  /-- The outside made a move. -/
  | move (m : Move α ε)

/-- From `S` a run with this history leads to the last state. -/
inductive Run (P : Plan σ α ε) (S : State σ α ε) : List (Entry α ε) → State σ α ε → Prop
  /-- Nothing happens. -/
  | refl : Run P S [] S
  /-- The machine makes a step. -/
  | step {history : List (Entry α ε)} {T U : State σ α ε} {events : List (Event α ε)} :
    Run P S history T → T.step? P = some (U, events) →
    Run P S (history ++ events.map .event) U
  /-- The outside makes a move. -/
  | move {history : List (Entry α ε)} {T U : State σ α ε} {m : Move α ε} :
    Run P S history T → T.move? P m = some U → Run P S (history ++ [.move m]) U

namespace Run

variable {P : Plan σ α ε} {S T U : State σ α ε} {history later : List (Entry α ε)}

/-- A run that goes on where another one ended. -/
theorem trans (first : Run P S history T) (second : Run P T later U) :
    Run P S (history ++ later) U := by
  induction second with
  | refl => simpa using first
  | step _ h ih =>
    rw [← List.append_assoc]
    exact ih.step h
  | move _ h ih =>
    rw [← List.append_assoc]
    exact ih.move h

end Run

end Wiretap

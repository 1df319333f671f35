import Wiretap.Proofs.Machine.Assembly

/-!
# Orderly outsides

The machine lets the outside do anything when it has the turn. Sources and clients are more orderly
than that. A source gives a line its handle before anything else, and the handle is one of its own
or an empty one. Whoever is behind a handle from outside only takes note of what is asked for, and
returns. Nobody uses a tap but through a handle that was given away.

A play is a run in which the outside keeps to this. A source driven by hand may still send handles
again and signals after the end, and clients may do anything from inside their callbacks.
-/

namespace Wiretap

variable {K : Kinds} {σ α ε : Type}

/-- Can a source outside have given this handle? -/
def Handle.isOutside : Handle → Bool
  | .empty | .external _ => true
  | .emission | .tap _ => false

namespace State

/-- Has the tap at a place got its handle? -/
def hasHandle (S : State σ α ε) (line place : Nat) : Bool :=
  (S.tap? line place).any (·.source.isSome)

/-- Has the first receiver of a line got its handle? -/
def hasBegun (P : Plan σ α ε) (S : State σ α ε) (line : Nat) : Bool :=
  if 0 < P.depth then S.hasHandle line 0 else (S.received? line 0).isSome

/-- Is a handle from outside in use? -/
def isHandled (S : State σ α ε) : Bool :=
  match S.stack with
  | .outside (.handle ..) :: _ => true
  | _ => false

/-- Is everything that was called done? -/
def isIdle (S : State σ α ε) : Bool :=
  match S.stack, S.focus with
  | [], .outside _ => true
  | _, _ => false

theorem isIdle_iff {S : State σ α ε} :
    S.isIdle = true ↔ S.stack = [] ∧ ∃ b, S.focus = .outside b := by
  unfold isIdle
  split <;> simp_all

/-- Does an orderly outside make this move? -/
def allows (P : Plan σ α ε) (S : State σ α ε) : Move α ε → Bool
  | .answer _ => true
  | .direct .. => false
  | .signal _ (.subscribe h) => !S.isHandled && h.isOutside
  | .signal line _ => !S.isHandled && S.hasBegun P line
  | _ => !S.isHandled

end State

/-- From `S` a run with an orderly outside and with this history leads to the last state. -/
inductive Play (P : Plan σ α ε) (S : State σ α ε) : List (Entry α ε) → State σ α ε → Prop
  /-- Nothing happens. -/
  | refl : Play P S [] S
  /-- The machine makes a step. -/
  | step {history : List (Entry α ε)} {T U : State σ α ε} {events : List (Event α ε)} :
    Play P S history T → T.step? P = some (U, events) → Play P S (history ++ events.map .event) U
  /-- The outside makes a move. -/
  | move {history : List (Entry α ε)} {T U : State σ α ε} {m : Move α ε} :
    Play P S history T → T.allows P m = true → T.move? P m = some U →
    Play P S (history ++ [.move m]) U

namespace Play

variable {P : Plan σ α ε} {S T U : State σ α ε} {history later : List (Entry α ε)}

theorem run (h : Play P S history U) : Run P S history U := by
  induction h with
  | refl => exact .refl
  | step _ hstep ih => exact ih.step hstep
  | move _ _ hmove ih => exact ih.move hmove

/-- A play that goes on where another one ended. -/
theorem trans (first : Play P S history T) (second : Play P T later U) :
    Play P S (history ++ later) U := by
  induction second with
  | refl => simpa using first
  | step _ hstep ih =>
      rw [← List.append_assoc]
      exact ih.step hstep
  | move _ hallows hmove ih =>
      rw [← List.append_assoc]
      exact ih.move hallows hmove

end Play

end Wiretap

import Wiretap.Machine.Plan

/-!
# States of the machine

A subscription runs along a line: the receivers of a plan of `n` taps have the positions `0` to
`n`, where position `i < n` is tap `i` and position `n` is the client at the end. Several lines may
have been made from one plan.

Everything that happens is a call: a receiver gets a signal, a handle is used, a receiver is joined
to what is before it. A call may lead to further calls before it returns, so the machine keeps a
stack of the calls that wait for one to return. What lies outside is called in the same way: the
client of a line, a handle that came from outside, and a source driven by hand. While the outside
has the turn it may make calls of its own before it answers.

Steps give events, which tell what happened without being part of the state.
-/

namespace Wiretap

variable {K : Kinds} {σ α ε : Type}

/-- One subscription through all taps of a plan. -/
structure Line [Kinds] (σ α : Type) where
  /-- The receiver at the end. -/
  client : Client
  /-- The handles that the client has received, newest first. -/
  received : List Handle
  /-- The taps that have been set up, by their place. -/
  taps : List (Option (Tap σ))
  /-- The emission of the source, if it is a sequence that has been started. -/
  emission : Option (Emission α)

/-- A call to the outside. -/
inductive Callback (α ε : Type)
  /-- The client of a line gets a signal. -/
  | client (line : Nat) (s : Signal α (TapError ε))
  /-- A handle that came from outside is used. -/
  | handle (id : Nat) (c : Control)
  /-- The source driven by hand gets a new line. -/
  | source (line : Nat)

/-- A call inside the machine. -/
inductive Call [Kinds] (α ε : Type)
  /-- The receiver at a position, which carries this context, is joined to what is before it. -/
  | join (line position : Nat) (context : Context)
  /-- A tap gets a signal. -/
  | tap (line place : Nat) (s : Signal α ε)
  /-- The client gets a signal. -/
  | client (line : Nat) (s : Signal α (TapError ε))
  /-- The receiver at a position uses a handle. -/
  | control (line position : Nat) (h : Handle) (c : Control)
  /-- The loop of an emission goes round, with the items taken since the last settlement. -/
  | emit (line : Nat) (emitted : UInt64)

/-- What waits for a call to return. -/
inductive Frame [Kinds] (α ε : Type)
  /-- A tap, at a point of its work. -/
  | tap (line place : Nat) (guard : Guard) (r : Tap.Resume α ε)
  /-- A tap that is joined to what is before it. -/
  | joining (line place : Nat) (guard : Guard)
  /-- The assembly of a tap failed: the receiver at a position has an empty handle and now gets the
  fault. -/
  | refusing (line position : Nat) (f : Fault)
  /-- A source without items has given an empty handle and now ends the stream. -/
  | ending (line : Nat) (e : Option ε)
  /-- The loop of an emission has handed out an item, the last one if `last` is set. -/
  | emitting (line : Nat) (emitted : UInt64) (last : Bool)
  /-- An emission has completed. -/
  | completing (line : Nat)
  /-- Somebody outside has the turn. -/
  | outside (c : Callback α ε)

/-- What the machine attends to. -/
inductive Focus [Kinds] (α ε : Type)
  /-- A call is to be made. -/
  | call (c : Call α ε)
  /-- A call has returned with this answer. -/
  | back (b : Bool)
  /-- It is the outside's turn; its last call, if it made one, returned with this answer. -/
  | outside (b : Bool)

/-- What happened in a step. -/
inductive Event [Kinds] (α ε : Type)
  /-- The receiver at a position was joined to what is before it. -/
  | joined (line position : Nat) (context : Context)
  /-- The receiver at a position used its handle. -/
  | controlled (line position : Nat) (c : Control)
  /-- A listener was created, or could not be, with this ambient context, for a receiver that
  carries `context`. -/
  | created (line place nth : Nat) (ambient context : Context) (failure : Option Cause)
  /-- A tap was called. -/
  | received (line place : Nat) (input : Tap.Input α ε)
  /-- A tap did something, with this ambient context. -/
  | acted (line place : Nat) (ambient : Context) (act : Tap.Act α ε)
  /-- A tap sent its receiver a signal. -/
  | sent (line place : Nat) (s : Signal α (TapError ε))
  /-- A tap returned to its caller. -/
  | returned (line place : Nat) (b : Bool)
  /-- A tap was not set up because of a fault. -/
  | notSetUp (line place : Nat) (f : Fault)
  /-- A tap installed its scope; this is the ambient context now. -/
  | entered (line place : Nat) (ambient : Context)
  /-- A tap released its scope; this is the ambient context now. -/
  | left (line place : Nat) (ambient : Context)
  /-- A sequence was asked for its next item. -/
  | pulled (line : Nat) (item : Option α)
  /-- A violation on the handle of an emission was dropped. -/
  | dropped (line : Nat) (v : Violation)
  /-- The outside was called, with this ambient context. -/
  | called (c : Callback α ε) (ambient : Context)

/-- A state of the machine. -/
structure State [Kinds] (σ α ε : Type) where
  /-- The lines, oldest first. -/
  lines : List (Line σ α)
  /-- How often each tap of the plan has created a listener. -/
  created : List Nat
  /-- The ambient context. -/
  ambient : Context
  /-- The calls that wait, innermost first. -/
  stack : List (Frame α ε)
  /-- What comes next. -/
  focus : Focus α ε

namespace Line

/-- The tap at a place, if it has been set up. -/
def tap? (l : Line σ α) (place : Nat) : Option (Tap σ) := (l.taps[place]?).join

/-- Set the tap at a place. -/
def setTap (l : Line σ α) (place : Nat) (t : Tap σ) : Line σ α :=
  { l with taps := l.taps.set place (some t) }

/-- The client has received a signal; it keeps the handles. -/
def receive (l : Line σ α) : Signal α (TapError ε) → Line σ α
  | .subscribe h => { l with received := h :: l.received }
  | _ => l

end Line

namespace State

/-- Nothing has happened yet. -/
def start (P : Plan σ α ε) (ambient : Context) : State σ α ε where
  lines := []
  created := P.taps.map fun _ => 0
  ambient
  stack := []
  focus := .outside true

/-- A single tap that has been set up for a client and carries `context`, before anything has
happened. -/
def startTap (P : Plan σ α ε) (client : Client) (listener : σ) (context ambient : Context) :
    State σ α ε :=
  { start P ambient with lines := [⟨client, [], [some (.start listener context)], none⟩] }

/-- Change a line. -/
def modifyLine (S : State σ α ε) (line : Nat) (f : Line σ α → Line σ α) : State σ α ε :=
  { S with lines := S.lines.modify line f }

/-- A new line for a client. -/
def addLine (P : Plan σ α ε) (S : State σ α ε) (client : Client) : State σ α ε :=
  { S with lines := S.lines ++ [⟨client, [], P.taps.map fun _ => none, none⟩] }

/-- The tap of a line at a place. -/
def tap? (S : State σ α ε) (line place : Nat) : Option (Tap σ) :=
  (S.lines[line]?).bind (·.tap? place)

/-- The emission of a line. -/
def emission? (S : State σ α ε) (line : Nat) : Option (Emission α) :=
  (S.lines[line]?).bind (·.emission)

/-- A handle that the client of a line has received, the newest one first. -/
def received? (S : State σ α ε) (line nth : Nat) : Option Handle :=
  (S.lines[line]?).bind fun l => l.received[nth]?

/-- Can the client of a line refuse items? Every receiver of the line then can. -/
def isConditional (S : State σ α ε) (line : Nat) : Bool :=
  (S.lines[line]?).any (·.client.conditional)

/-- Set the tap of a line at a place. -/
def setTap (S : State σ α ε) (line place : Nat) (t : Tap σ) : State σ α ε :=
  S.modifyLine line (·.setTap place t)

/-- Set the emission of a line. -/
def setEmission (S : State σ α ε) (line : Nat) (e : Emission α) : State σ α ε :=
  S.modifyLine line fun l => { l with emission := some e }

/-- Make a call next. -/
def call (S : State σ α ε) (c : Call α ε) : State σ α ε := { S with focus := .call c }

/-- Make a call next, with a frame that waits for it. -/
def callFrom (S : State σ α ε) (f : Frame α ε) (c : Call α ε) : State σ α ε :=
  { S with stack := f :: S.stack, focus := .call c }

/-- Return. -/
def back (S : State σ α ε) (b : Bool) : State σ α ε := { S with focus := .back b }

/-- Give the turn to somebody outside. -/
def callOutside (S : State σ α ε) (c : Callback α ε) : State σ α ε :=
  { S with stack := .outside c :: S.stack, focus := .outside true }

end State

end Wiretap

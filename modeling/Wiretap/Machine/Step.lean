import Wiretap.Machine.State
import Wiretap.Tap.Setup

/-!
# Steps of the machine

A step makes the call in focus, or lets the innermost frame go on with the answer of the call that
has returned. The machine stops where the outside has the turn; what the outside does then is a
move. Steps and moves are functions: the only choice in a run is the outside's.
-/

namespace Wiretap

variable {K : Kinds} {σ α ε : Type}

namespace Plan

/-- The call by which the receiver at a position gets a signal from the tap before it. -/
def signal (P : Plan σ α ε) (line position : Nat) (s : Signal α (TapError ε)) : Call α ε :=
  if position < P.depth then .tap line position (s.mapError P.adapt) else .client line s

/-- The call by which the first receiver of a line gets a signal from the source. -/
def sourceSignal (P : Plan σ α ε) (line : Nat) (s : Signal α ε) : Call α ε :=
  if 0 < P.depth then .tap line 0 s else .client line (s.mapError .source)

end Plan

namespace State

/-- A state with the events that led to it. -/
abbrev Outcome [Kinds] (σ α ε : Type) : Type := State σ α ε × List (Event α ε)

/-- Carry out a turn of a tap that has installed its scope: its acts become events, and then it
either calls a neighbour or releases its scope and returns. -/
def settle (P : Plan σ α ε) (S : State σ α ε) (line place : Nat) (guard : Guard)
    (turn : Tap.Turn σ α ε) : Outcome σ α ε :=
  let S := S.setTap line place turn.tap
  let acts := turn.acts.map (.acted line place S.ambient)
  match turn.next with
  | .answer b =>
    let ambient := guard.release S.ambient
    ({ S with ambient }.back b, acts ++ [.left line place ambient, .returned line place b])
  | .down s r =>
    (S.callFrom (.tap line place guard r) (P.signal line (place + 1) s),
      acts ++ [.sent line place s])
  | .up h c r => (S.callFrom (.tap line place guard r) (.control line place h c), acts)

/-- Call a tap: it installs its scope and does a turn of work. -/
def callTap (P : Plan σ α ε) (S : State σ α ε) (line place : Nat)
    (input : Tap.Input α ε) : Outcome σ α ε :=
  match P.taps[place]?, S.tap? line place with
  | some p, some t =>
    let installed := p.scope.install t.context S.ambient
    let outcome := settle P { S with ambient := installed.1 } line place installed.2
      (t.serve (p.listener installed.1) (.tap place) (S.isConditional line) input)
    (outcome.1, .received line place input :: .entered line place installed.1 :: outcome.2)
  | _, _ => (S.back true, [])

/-- Let a tap go on after a call. Its scope is still installed. -/
def resumeTap (P : Plan σ α ε) (S : State σ α ε) (line place : Nat) (guard : Guard)
    (r : Tap.Resume α ε) (b : Bool) : Outcome σ α ε :=
  match P.taps[place]?, S.tap? line place with
  | some p, some t => settle P S line place guard (t.resume (p.listener S.ambient) r b)
  | _, _ => (S.back true, [])

/-- Do without a tap: its receiver gets an empty handle and then the fault. -/
def refuse (P : Plan σ α ε) (S : State σ α ε) (line place : Nat) (f : Fault) : Outcome σ α ε :=
  (S.callFrom (.refusing line (place + 1) f) (P.signal line (place + 1) (.subscribe .empty)),
    [.notSetUp line place f])

/-- Set up a tap for a receiver that carries `context`, and join it to what is before it. The scope
of the tap is installed for the latter only: the factory, the first hook and the augmentation run
under the ambient context of the caller. -/
def setUpTap (P : Plan σ α ε) (S : State σ α ε) (line place : Nat) (context : Context) :
    Outcome σ α ε :=
  match P.taps[place]? with
  | none => (S.back true, [])
  | some p =>
    let nth := S.created[place]?.getD 0 + 1
    let S := { S with created := S.created.set place nth }
    match p.create S.ambient nth context with
    | .error cause =>
      let outcome := refuse P S line place ⟨.creation, cause⟩
      (outcome.1, .created line place nth S.ambient context (some cause) :: outcome.2)
    | .ok listener =>
      let setUp := Tap.setUp (p.listener S.ambient) listener context
      let events :=
        .created line place nth S.ambient context none ::
          setUp.1.map (.acted line place S.ambient)
      match setUp.2 with
      | .error f =>
        let outcome := refuse P S line place f
        (outcome.1, events ++ outcome.2)
      | .ok t =>
        let installed := p.scope.install t.context S.ambient
        let S := { S.setTap line place t with ambient := installed.1 }
        (S.callFrom (.joining line place installed.2) (.join line place t.context),
          events ++ [.entered line place installed.1])

/-- End a stream that has no items: an empty handle first, then the ending. -/
def endStream (P : Plan σ α ε) (S : State σ α ε) (line : Nat) (e : Option ε) : State σ α ε :=
  S.callFrom (.ending line e) (P.sourceSignal line (.subscribe .empty))

/-- The first receiver of a line is joined to the source. -/
def joinSource (P : Plan σ α ε) (S : State σ α ε) (line : Nat) : Outcome σ α ε :=
  match P.source with
  | .empty => (endStream P S line none, [])
  | .failed e => (endStream P S line (some e), [])
  | .manual =>
    let c := .source line
    (S.callOutside c, [.called c S.ambient])
  | .sequence pull =>
    match pull 0 with
    | none => (endStream P S line none, [.pulled line none])
    | some x =>
      ((S.setEmission line (.start x)).call (P.sourceSignal line (.subscribe .emission)),
        [.pulled line (some x)])

/-- A receiver is joined to what is before it, a tap or the source. -/
def join (P : Plan σ α ε) (S : State σ α ε) (line : Nat) (context : Context) :
    Nat → Outcome σ α ε
  | 0 => joinSource P S line
  | place + 1 => setUpTap P S line place context

/-- Complete an emission that has handed out its last item, unless its receiver has left. -/
def completeEmission (P : Plan σ α ε) (S : State σ α ε) (line : Nat) (e : Emission α) :
    State σ α ε :=
  if e.mayComplete then
    (S.setEmission line e.detach).callFrom (.completing line) (P.sourceSignal line .complete)
  else S.back true

/-- The loop of an emission goes round once. -/
def emit (P : Plan σ α ε) (S : State σ α ε) (line : Nat) (emitted : UInt64) : Outcome σ α ε :=
  match P.source, S.emission? line with
  | .sequence pull, some e =>
    match e.verdict emitted with
    | .stop => (S.back true, [])
    | .settle =>
      let e := e.settle emitted
      let S := S.setEmission line e
      if e.requested = 0 then (S.back true, []) else (S.call (.emit line 0), [])
    | .deliver =>
      match e.ahead with
      -- An iterator would be asked once more here. But the stream is completed as soon as nothing
      -- is ahead, and from then on nobody starts the loop, so that it never gets here.
      | none => (completeEmission P S line e, [])
      | some x =>
        let e := e.advance pull
        let s := if S.isConditional line then .offer x else .next x
        ((S.setEmission line e).callFrom (.emitting line emitted e.ahead.isNone)
          (P.sourceSignal line s), [.pulled line e.ahead])
  | _, _ => (S.back true, [])

/-- The loop of an emission goes on after an item was handed out. A refused item is not counted. -/
def resumeEmission (P : Plan σ α ε) (S : State σ α ε) (line : Nat) (emitted : UInt64)
    (last b : Bool) : State σ α ε :=
  let refused := S.isConditional line && !b
  match last, S.emission? line with
  | true, some e => completeEmission P S line e
  | true, none => S.back true
  | false, _ => S.call (.emit line (if refused then emitted else emitted + 1))

/-- Somebody uses the handle of an emission. -/
def controlEmission (S : State σ α ε) (line : Nat) (c : Control) : Outcome σ α ε :=
  match S.emission? line, c with
  | some e, .request n =>
    if Demand.isPositive n then
      let S := S.setEmission line (e.request n)
      (if e.startsLoop then S.call (.emit line 0) else S.back true, [])
    else (S.back true, [.dropped line (.nonPositiveRequest n)])
  | some e, .cancel => ((S.setEmission line e.cancel).back true, [])
  | none, _ => (S.back true, [])

/-- Somebody uses a handle. -/
def control (P : Plan σ α ε) (S : State σ α ε) (line : Nat) (c : Control) :
    Handle → Outcome σ α ε
  | .empty => (S.back true, [])
  | .emission => controlEmission S line c
  | .tap place => callTap P S line place (.control c)
  | .external id =>
    let callback := .handle id c
    (S.callOutside callback, [.called callback S.ambient])

/-- Make a call. -/
def make (P : Plan σ α ε) (S : State σ α ε) : Call α ε → Outcome σ α ε
  | .join line position context =>
    let outcome := join P S line context position
    (outcome.1, .joined line position context :: outcome.2)
  | .tap line place s => callTap P S line place (.signal s)
  | .client line s =>
    let c := .client line s
    ((S.modifyLine line (·.receive s)).callOutside c, [.called c S.ambient])
  | .control line position h c =>
    let outcome := control P S line c h
    (outcome.1, .controlled line position c :: outcome.2)
  | .emit line emitted => emit P S line emitted

/-- Let a frame that has been taken off the stack go on. -/
def resume (P : Plan σ α ε) (S : State σ α ε) (b : Bool) : Frame α ε → Outcome σ α ε
  | .tap line place guard r => resumeTap P S line place guard r b
  | .joining line place guard =>
    let ambient := guard.release S.ambient
    ({ S with ambient }.back true, [.left line place ambient])
  | .refusing line position f => (S.call (P.signal line position (.error (.listener f))), [])
  | .ending line e =>
    let s := match e with
      | none => .complete
      | some e => .error e
    (S.call (P.sourceSignal line s), [])
  | .emitting line emitted last => (resumeEmission P S line emitted last b, [])
  | .completing _ => (S.back true, [])
  | .outside c => ({ S with stack := .outside c :: S.stack, focus := .outside b }, [])

/-- The next step, unless the outside has the turn. -/
def step? (P : Plan σ α ε) (S : State σ α ε) : Option (Outcome σ α ε) :=
  match S.focus with
  | .outside _ => none
  | .call c => some (make P S c)
  | .back b =>
    match S.stack with
    | [] => some ({ S with focus := .outside b }, [])
    | f :: rest => some (resume P { S with stack := rest } b f)

end State

/-- What the outside may do when it has the turn. -/
inductive Move [Kinds] (α ε : Type)
  /-- A client subscribes. -/
  | subscribe (client : Client)
  /-- The source of a line sends a signal. -/
  | signal (line : Nat) (s : Signal α ε)
  /-- The client of a line uses a handle that it has received, the newest one if `nth` is 0. -/
  | control (line nth : Nat) (c : Control)
  /-- Somebody uses the last tap of a line as a handle, whether or not it has been given away. -/
  | direct (line : Nat) (c : Control)
  /-- The callback in progress returns. -/
  | answer (b : Bool)
deriving DecidableEq

/-- The answer that counts for a callback. -/
def Callback.answer : Callback α ε → Bool → Bool
  | .client _ s, b => s.answer b
  | _, _ => true

namespace State

/-- The state after a move. There is none if it is not the outside's turn, and none for a signal of
a source that is not driven by hand, for a handle that has not been received, or for an answer when
no callback is in progress. -/
def move? (P : Plan σ α ε) (S : State σ α ε) (m : Move α ε) : Option (State σ α ε) :=
  match S.focus, m with
  | .outside _, .subscribe client =>
    some ((S.addLine P client).call (.join S.lines.length P.depth client.context))
  | .outside _, .signal line s =>
    if P.isDriven then some (S.call (P.sourceSignal line s)) else none
  | .outside _, .control line nth c =>
    (S.received? line nth).map fun h => S.call (.control line P.depth h c)
  | .outside _, .direct line c => some (S.call (.control line P.depth (.tap (P.depth - 1)) c))
  | .outside _, .answer b =>
    match S.stack with
    | .outside c :: rest => some ({ S with stack := rest }.back (c.answer b))
    | _ => none
  | _, _ => none

end State

end Wiretap

import Wiretap.Proofs.Machine.Trace

/-!
# Whose call it was

Several lines share one outside, and a history lists its moves one after the other. Who made a move
can be told from the history: a subscription founds a new line, a signal or the use of a handle
names its line, and an answer belongs to the line on whose behalf the outside was called last among
the calls that have not returned. The calls of one line, told as if there were no other line, are
what that line alone would have been called with.

A call may come from inside of a callback, and then it finds the ambient context of that callback. A
line that is on its own is never called from inside of the callbacks of another one. So it may find
another ambient context than it would find alone, unless it stays at home.
-/

namespace Wiretap

variable {K : Kinds} {α ε ν : Type}

/-- The move, if the entry is one. -/
def Entry.move? : Entry α ε → Option (Move α ε)
  | .event _ => none
  | .move m => some m

/-- The moves of a history. -/
def moves (history : List (Entry α ε)) : List (Move α ε) := history.filterMap Entry.move?

@[simp] theorem moves_append (first second : List (Entry α ε)) :
    moves (first ++ second) = moves first ++ moves second := List.filterMap_append

@[simp] theorem moves_map_event (events : List (Event α ε)) :
    moves (events.map .event) = ([] : List (Move α ε)) := by
  induction events with
  | nil => rfl
  | cons e events ih => exact ih

@[simp] theorem moves_move (m : Move α ε) : moves [Entry.move m] = [m] := rfl

/-- The same move where the line is the only one. -/
def Move.alone : Move α ε → Move α ε
  | .signal _ s => .signal 0 s
  | .control _ nth c => .control 0 nth c
  | .direct _ c => .direct 0 c
  | m => m

/-- The line that a callback names. -/
def Callback.line? : Callback α ε → Option Nat
  | .client line _ | .source line => some line
  | .handle .. => none

/-- A callback in progress. -/
structure Owner [Kinds] where
  /-- The line on whose behalf the outside was called. -/
  line : Nat
  /-- The ambient context then. -/
  ambient : Context
deriving DecidableEq

/-- The ambient context inside of these callbacks, of which the innermost is the first. Outside of
all callbacks it is `base`. -/
def ambientIn (base : Context) : List Owner → Context
  | [] => base
  | o :: _ => o.ambient

/-- The callbacks of a line among these. -/
def ownedBy (line : Nat) (owners : List Owner) : List Owner := owners.filter (·.line = line)

theorem ownedBy_cons_self {line : Nat} {o : Owner} (h : o.line = line) (owners : List Owner) :
    ownedBy line (o :: owners) = o :: ownedBy line owners :=
  List.filter_cons_of_pos (decide_eq_true h)

theorem ownedBy_cons_other {line : Nat} {o : Owner} (h : o.line ≠ line) (owners : List Owner) :
    ownedBy line (o :: owners) = ownedBy line owners :=
  List.filter_cons_of_neg (by simpa using h)

/-- What is known of the calls so far. -/
structure Register [Kinds] (α ε : Type) where
  /-- The number of lines. -/
  lines : Nat
  /-- The line on which a handle was used last. -/
  user : Nat
  /-- The callbacks in progress, the innermost one first. -/
  owners : List Owner
  /-- The calls of the line in question, oldest first. -/
  calls : List (Move α ε)
  /-- For each of these calls the callbacks that were in progress. -/
  origins : List (List Owner)

namespace Register

/-- Nothing has happened yet. -/
def start [Kinds] : Register α ε := ⟨0, 0, [], [], []⟩

/-- The line that a move belongs to. -/
def line? (r : Register α ε) : Move α ε → Option Nat
  | .subscribe _ => some r.lines
  | .signal line _ | .control line _ _ | .direct line _ => some line
  | .answer _ => r.owners.head?.map Owner.line

/-- The register after something has happened. -/
def hear (r : Register α ε) : Event α ε → Register α ε
  | .controlled line _ _ => { r with user := line }
  | .called c ambient => { r with owners := ⟨c.line?.getD r.user, ambient⟩ :: r.owners }
  | _ => r

theorem foldl_hear_origins (r : Register α ε) (events : List (Event α ε)) :
    (events.foldl hear r).origins = r.origins := by
  induction events generalizing r with
  | nil => rfl
  | cons e events ih =>
      rw [List.foldl_cons, ih]
      cases e <;> rfl

/-- The register after a move; the calls of `line` are noted. -/
def note (line : Nat) (r : Register α ε) (m : Move α ε) : Register α ε :=
  let calls := if r.line? m = some line then r.calls ++ [m.alone] else r.calls
  let origins := if r.line? m = some line then r.origins ++ [r.owners] else r.origins
  match m with
  | .subscribe _ => { r with calls, origins, lines := r.lines + 1 }
  | .answer _ => { r with calls, origins, owners := r.owners.tail }
  | _ => { r with calls, origins }

theorem note_calls (line : Nat) (r : Register α ε) (m : Move α ε) :
    (r.note line m).calls = if r.line? m = some line then r.calls ++ [m.alone] else r.calls := by
  cases m <;> rfl

theorem note_origins (line : Nat) (r : Register α ε) (m : Move α ε) :
    (r.note line m).origins =
      if r.line? m = some line then r.origins ++ [r.owners] else r.origins := by
  cases m <;> rfl

/-- The register after one more entry. -/
def after (line : Nat) (r : Register α ε) : Entry α ε → Register α ε
  | .event e => r.hear e
  | .move m => r.note line m

end Register

/-- The register of a history, with the calls of `line`. -/
def register (line : Nat) (history : List (Entry α ε)) : Register α ε :=
  history.foldl (Register.after line) .start

/-- The calls of a line, as if it were the only one. -/
def callsOf (line : Nat) (history : List (Entry α ε)) : List (Move α ε) :=
  (register line history).calls

theorem register_events (line : Nat) (history : List (Entry α ε)) (events : List (Event α ε)) :
    register line (history ++ events.map .event) =
      events.foldl Register.hear (register line history) := by
  rw [register, List.foldl_append, List.foldl_map]
  rfl

theorem register_move (line : Nat) (history : List (Entry α ε)) (m : Move α ε) :
    register line (history ++ [.move m]) = (register line history).note line m := by
  rw [register, List.foldl_append]
  rfl

/-- From inside of which callbacks the calls of a line were made. -/
def originsOf (line : Nat) (history : List (Entry α ε)) : List (List Owner) :=
  (register line history).origins

theorem originsOf_events (line : Nat) (history : List (Entry α ε)) (events : List (Event α ε)) :
    originsOf line (history ++ events.map .event) = originsOf line history := by
  rw [originsOf, register_events, Register.foldl_hear_origins]
  rfl

theorem originsOf_move (line : Nat) (history : List (Entry α ε)) (m : Move α ε) :
    originsOf line (history ++ [.move m]) =
      if (register line history).line? m = some line then
        originsOf line history ++ [(register line history).owners]
      else originsOf line history := by
  rw [originsOf, register_move, Register.note_origins]
  rfl

/-- The calls of a line are made under ambient contexts in which `view` sees the same as in those
that they would find if it were the only line. Outside of all callbacks `ambient` is ambient, and
`home` if it were the only line. -/
def AtHome (view : Context → ν) (line : Nat) (ambient home : Context)
    (history : List (Entry α ε)) : Prop :=
  ∀ owners ∈ originsOf line history,
    view (ambientIn ambient owners) = view (ambientIn home (ownedBy line owners))

/-- The calls of a line are made from inside of its own callbacks, or from outside of all. -/
def Inward (line : Nat) (history : List (Entry α ε)) : Prop :=
  ∀ owners ∈ originsOf line history, ∀ o ∈ owners.head?, o.line = line

instance (line : Nat) (history : List (Entry α ε)) : Decidable (Inward line history) :=
  inferInstanceAs (Decidable (∀ owners ∈ originsOf line history, ∀ o ∈ owners.head?, o.line = line))

/-- A line that does not use the callbacks of others is at home. -/
theorem Inward.atHome {line : Nat} {history : List (Entry α ε)} (h : Inward line history)
    (view : Context → ν) (ambient : Context) : AtHome view line ambient ambient history := by
  intro owners howners
  cases owners with
  | nil => rfl
  | cons o owners =>
      rw [ownedBy_cons_self (h _ howners o rfl)]
      rfl

/-- The ambient context that the event tells of, if it is of this line. -/
def Event.ambient? (line : Nat) : Event α ε → Option Context
  | .created l _ _ ambient _ _ | .acted l _ ambient _ | .entered l _ ambient
  | .left l _ ambient => if l = line then some ambient else none
  | .called c ambient => if c.line? = some line then some ambient else none
  | _ => none

/-- The ambient contexts under which a line works, at every act of its taps and whenever its client
or its source is called. -/
def ambients (line : Nat) (events : List (Event α ε)) : List Context :=
  events.filterMap (Event.ambient? line)

@[simp] theorem ambients_append (line : Nat) (first second : List (Event α ε)) :
    ambients line (first ++ second) = ambients line first ++ ambients line second :=
  List.filterMap_append

@[simp] theorem ambients_cons (line : Nat) (e : Event α ε) (events : List (Event α ε)) :
    ambients line (e :: events) = (e.ambient? line).toList ++ ambients line events :=
  Tap.filterMap_cons_toList _ _ _

/-- A line looks in these events as another line does in those: its taps do the same, its client
hears the same, and `view` sees the same in the ambient contexts meanwhile. -/
structure Echoes (view : Context → ν) (line line' : Nat) (events events' : List (Event α ε)) :
    Prop where
  deeds : ∀ place, deeds line place events = deeds line' place events'
  heard : heardBy line events = heardBy line' events'
  ambients : (ambients line events).map view = (ambients line' events').map view

namespace Echoes

variable {view : Context → ν} {line line' line'' : Nat}
  {events events' events'' later later' : List (Event α ε)}

theorem symm (h : Echoes view line line' events events') : Echoes view line' line events' events :=
  ⟨fun place => (h.deeds place).symm, h.heard.symm, h.ambients.symm⟩

theorem trans (h : Echoes view line line' events events')
    (h' : Echoes view line' line'' events' events'') : Echoes view line line'' events events'' :=
  ⟨fun place => (h.deeds place).trans (h'.deeds place), h.heard.trans h'.heard,
    h.ambients.trans h'.ambients⟩

theorem nil : Echoes view line line' ([] : List (Event α ε)) [] := ⟨fun _ => rfl, rfl, rfl⟩

theorem append (h : Echoes view line line' events events')
    (hlater : Echoes view line line' later later') :
    Echoes view line line' (events ++ later) (events' ++ later') where
  deeds place := by rw [deeds_append, deeds_append, h.deeds, hlater.deeds]
  heard := by rw [heardBy_append, heardBy_append, h.heard, hlater.heard]
  ambients := by
    rw [ambients_append, ambients_append, List.map_append, List.map_append, h.ambients,
      hlater.ambients]

end Echoes

end Wiretap

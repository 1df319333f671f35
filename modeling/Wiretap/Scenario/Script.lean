import Wiretap.Scenario.Kinds
import Wiretap.Scenario.Predicate
import Wiretap.Scope.Program
import Wiretap.Context.Edit
import Wiretap.Machine.Plan

/-!
# Scripted taps

A script fixes how the listeners of a tap behave. A scripted listener fails the hooks that are
named, fails on the items that a predicate describes, and augments the context by a list of edits;
an idle one does none of this. Either way, rules may make a hook fail on a given run: the runs of a
hook that have not failed already are counted for each listener.
-/

namespace Wiretap.Scenario

variable {α : Type}

/-- Makes a hook fail. -/
structure Rule where
  /-- The name of the hook. -/
  hook : String
  /-- On which run, counted from 1; on every run if this is absent. -/
  nth : Option Nat
  /-- With which message. -/
  message : String

/-- How listeners come into being. -/
inductive Factory
  /-- From the context of the receiver alone; never fails. -/
  | plain
  /-- With a state that all listeners of the tap share. -/
  | stateful (state : Int) (refuse : Option (Option Nat × String))

/-- How the listeners of a tap behave. -/
structure Script (α : Type) where
  /-- How they are created. -/
  factory : Factory
  /-- The scope of the tap. -/
  scope : Scope.Installer
  /-- Do they ignore everything but the rules? -/
  isIdle : Bool
  /-- The hooks that fail on every run. -/
  failing : List String
  /-- The items on which the hook for items fails. -/
  failNext : Option (Predicate α)
  /-- The edits that augment the context. -/
  augment : List Context.Edit
  /-- Further failures. -/
  rules : List Rule
  /-- Do they write the ambient context at every hook? -/
  probe : Bool
  /-- Are their faults left to the log? -/
  defaultHandler : Bool

/-- How often each hook has run without failing by itself. -/
abbrev Tally : Type := List (String × Nat)

namespace Tally

/-- The count of a hook. -/
def count (t : Tally) (hook : String) : Nat := (t.lookup hook).getD 0

/-- Count one more run of a hook. -/
def bump (t : Tally) (hook : String) : Tally := (hook, t.count hook + 1) :: t

end Tally

namespace Rule

/-- Does the rule make this run of a hook fail? -/
def applies (r : Rule) (hook : String) (run : Nat) : Bool :=
  r.hook == hook && r.nth.all (· == run)

end Rule

namespace Script

/-- The message with which a scripted listener fails a hook by its name. -/
def namedFailure? (s : Script α) (hook : String) : Option String :=
  if !s.isIdle && s.failing.contains hook then some (hook ++ " failed") else none

/-- The message with which a scripted listener fails on an item. -/
def itemFailure? [Item α] [DecidableEq α] (s : Script α) : Hook α String → Option String
  | .next x =>
    if !s.isIdle && s.failNext.any (·.holds x) then
      some ((Hook.next x : Hook α String).name ++ " failed on " ++ literal x)
    else none
  | _ => none

/-- Count a run that has not failed by itself, and see whether a rule makes it fail. -/
def obey (s : Script α) (t : Tally) (hook : String) : Tally × Option Cause :=
  let t := t.bump hook
  let rule := s.rules.find? fun r => r.applies hook (t.count hook)
  (t, rule.map fun r => .message r.message)

/-- The listener that behaves as the script says. -/
def listener [Item α] [DecidableEq α] (s : Script α) : Listener Tally α String where
  run t h :=
    match s.namedFailure? h.name <|> s.itemFailure? h with
    | some message => (t, some (.message message))
    | none => s.obey t h.name
  augment t c :=
    match s.namedFailure? augmentationName with
    | some message => (t, .error (.message message))
    | none =>
      let outcome := s.obey t augmentationName
      match outcome.2 with
      | some cause => (outcome.1, .error cause)
      | none => (outcome.1, .ok (if s.isIdle then c else c.editAll s.augment))
  notice t _ := t

/-- Create a listener, unless the factory refuses this call. -/
def create (s : Script α) (nth : Nat) : Except Cause Tally :=
  match s.factory with
  | .stateful _ (some (when?, message)) =>
    if when?.all (· == nth) then .error (.message message) else .ok []
  | _ => .ok []

/-- The tap that the script describes. -/
def toTapPlan [Item α] [DecidableEq α] (s : Script α) : TapPlan Tally α String where
  scope := s.scope.scope
  create _ nth _ := s.create nth
  listener _ := s.listener

end Script

end Wiretap.Scenario

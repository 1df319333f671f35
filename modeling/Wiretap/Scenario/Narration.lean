import Wiretap.Scenario.Script
import Wiretap.Context.Text
import Wiretap.Journal.Basic
import Wiretap.Machine.State

/-!
# Narration

The events of the machine become entries of a journal. What an event looks like depends on what is
being watched: the scripts of the taps, whether the edges of the plan are watched or the handles
given from outside, and whether the pulls of the sequence are.
-/

namespace Wiretap.Scenario

variable {α : Type} [Item α]

/-- What is being watched. -/
structure Watch (α : Type) where
  /-- The scripts of the taps, from the source on. -/
  scripts : List (Script α)
  /-- Are the inner edges of the plan watched? If not, the handles given from outside are. -/
  edges : Bool
  /-- Are the pulls of the sequence watched? -/
  pulls : Bool

/-- A control, after the name of what it is used on. -/
def controlText (name : String) : Control → String
  | .request n => name ++ ".request(" ++ toString n.toNat ++ ")"
  | .cancel => name ++ ".cancel"

/-- A run of a hook: its name, with its argument if it has one. -/
def hookText (h : Hook α String) : String :=
  match h.argument? with
  | some argument => h.name ++ "(" ++ argument ++ ")"
  | none => h.name

/-- The ambient context, as a probe writes it. -/
def probeText (who : String) (index : Nat) (ambient : Context) : String :=
  "@" ++ who ++ toString index ++ " " ++ ambient.text

namespace Script

/-- What is written when the tap at `place` is assembled. -/
def assemblyLines (s : Script α) (place : Nat) : List String :=
  match s.factory with
  | .plain => []
  | .stateful state _ =>
    ["t" ++ toString place ++ ".init", "t" ++ toString place ++ ".state " ++ toString state]

/-- What is written when the tap at `place` creates a listener. -/
def creationLine (s : Script α) (place : Nat) (context : Context) : String :=
  let name := "t" ++ toString place
  match s.factory with
  | .plain => name ++ ".listener " ++ context.text
  | .stateful state _ => name ++ ".create state=" ++ toString state ++ " " ++ context.text

/-- A listener is told of its own fault. -/
def narrateReport (s : Script α) (f : Fault) (j : Journal) : Journal :=
  if s.isIdle || s.defaultHandler then
    j.warn ("signal listener failed (" ++ f.origin.label ++ "): " ++ f.describe)
  else j.write ("handle_listener_error(" ++ f.name ++ ")")

/-- The tap at `place` did something. -/
def narrateAct (s : Script α) (place : Nat) (ambient : Context) (j : Journal) :
    Tap.Act α String → Journal
  | .ran h _ => ((probed j).writeIf (!s.isIdle) (hookText h))
  | .augmented _ => ((probed j).writeIf (!s.isIdle) augmentationName)
  | .reported f => s.narrateReport f (probed j)
  | .droppedItem x => j.dropItem x
  | .droppedError e => j.dropError e
  | .ignoredHandle =>
    j.debug ("tap ignored on_subscribe: " ++ Violation.duplicateSubscription.describe)
where
  /-- The listener writes the ambient context first, if it probes. -/
  probed (j : Journal) : Journal := j.writeIf s.probe (probeText "t" place ambient)

end Script

namespace Watch

/-- Change the journal by the script of the tap at `place`. -/
def withScript (w : Watch α) (place : Nat) (j : Journal) (f : Script α → Journal) : Journal :=
  (w.scripts[place]?).elim j f

/-- Is the edge at which the receiver at a position is joined watched? -/
def seesEdge (w : Watch α) (position : Nat) : Bool :=
  w.edges && (position < w.scripts.length || position == 0)

/-- Write down an event. What the client of a line receives it writes itself. -/
def narrate (w : Watch α) (j : Journal) : Event α String → Journal
  | .joined _ position context =>
    j.writeIf (w.seesEdge position)
      ("u" ++ toString position ++ ".subscribe " ++ context.text)
  | .controlled _ position c =>
    j.writeIf (w.seesEdge position) (controlText ("u" ++ toString position) c)
  | .created _ place _ _ context _ =>
    w.withScript place j fun s => j.write (s.creationLine place context)
  | .acted _ place ambient act =>
    w.withScript place j fun s => s.narrateAct place ambient j act
  | .notSetUp _ _ f => j.debug ("tap not subscribed: " ++ f.describe)
  | .entered _ place ambient =>
    w.withScript place j fun s => j.writeIf s.scope.announces ("scope+ " ++ ambient.text)
  | .left _ place ambient =>
    w.withScript place j fun s => j.writeIf s.scope.announces ("scope- " ++ ambient.text)
  | .pulled _ item => j.writeIf w.pulls ("pull " ++ (item.map literal).getD "end")
  | .dropped _ v => j.dropError v
  | .called (.handle id c) _ => j.writeIf (!w.edges) (controlText ("h" ++ toString id) c)
  | _ => j

end Watch

end Wiretap.Scenario

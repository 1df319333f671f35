import Wiretap.Journal.Log
import Wiretap.Demand
import Wiretap.Fault.Violation

/-!
# Journals

A journal is a log together with two hooks, one for dropped errors and one for dropped items, and a
level. A hook captures what is dropped, or does so once and then removes itself; where there is no
hook, a dropped error is a warning and a dropped item is a message for debugging. Warnings and
debugging messages are written only if the level admits them.
-/

namespace Wiretap

/-- What becomes of a dropped error or item. -/
inductive DropHook
  /-- There is no hook. -/
  | absent
  /-- Everything is captured. -/
  | capture
  /-- The next one is captured, and then there is no hook. -/
  | once
deriving DecidableEq

/-- How much is written without being asked for. -/
inductive Level
  /-- Nothing. -/
  | silent
  /-- Warnings. -/
  | warnings
  /-- Warnings and debugging messages. -/
  | everything
deriving DecidableEq

/-- A log with the hooks for what is dropped. -/
structure Journal where
  /-- What has been written. -/
  log : Log
  /-- What becomes of dropped errors. -/
  errors : DropHook
  /-- What becomes of dropped items. -/
  items : DropHook
  /-- Which messages are written. -/
  level : Level

namespace Journal

/-- An empty journal with the same hook for errors and items. -/
def start (hook : DropHook) (level : Level) : Journal := ⟨.empty, hook, hook, level⟩

/-- Write an entry. -/
def write (j : Journal) (entry : String) : Journal := { j with log := j.log.push entry }

/-- Write an entry if a condition holds. -/
def writeIf (j : Journal) (shown : Bool) (entry : String) : Journal :=
  if shown then j.write entry else j

/-- A warning. -/
def warn (j : Journal) (message : String) : Journal :=
  j.writeIf (j.level != .silent) ("log WARN: " ++ message)

/-- A message for debugging. -/
def debug (j : Journal) (message : String) : Journal :=
  j.writeIf (j.level == .everything) ("log DEBUG: " ++ message)

/-- An error is dropped. -/
def dropError {ε : Type} [Literal ε] (j : Journal) (e : ε) : Journal :=
  match j.errors with
  | .capture => j.write ("dropped error " ++ literal e)
  | .once => { j.write ("dropped error once " ++ literal e) with errors := .absent }
  | .absent => j.warn ("error dropped after termination: " ++ literal e)

/-- Check a number of items that is asked for. To ask for none is a violation, which is dropped. -/
def checkRequest (j : Journal) (n : UInt64) : Journal × Bool :=
  if Demand.isPositive n then (j, true)
  else (j.dropError (Violation.nonPositiveRequest n), false)

/-- An item is dropped. -/
def dropItem {α : Type} [Item α] (j : Journal) (x : α) : Journal :=
  match j.items with
  | .capture => j.write ("dropped item " ++ literal x)
  | .once => { j.write ("dropped item once " ++ literal x) with items := .absent }
  | .absent => j.debug ("item of type " ++ Item.typeName α ++ " dropped after termination")

end Journal

end Wiretap

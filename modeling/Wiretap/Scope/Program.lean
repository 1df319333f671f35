import Wiretap.Scope.Basic
import Wiretap.Context.Text

/-!
# Programs of scopes

A program installs scopes for the duration of a body or keeps their guards under a name, fails with
a message and catches failures. A failure leaves every body between it and the place where it is
caught, and the guards of those bodies are released on the way out, innermost first. Guards kept
under a name stay until they are dropped by name.

The run of a program is recorded: each step that ends normally writes its name and the context that
is ambient after it.
-/

namespace Wiretap.Scope

/-- A scope to install; an announcing one writes a line when it is installed and when its guard is
released. -/
structure Installer where
  /-- The scope. -/
  scope : Scope
  /-- Does it write lines? -/
  announces : Bool

/-- A guard in somebody's keeping. -/
inductive KeptGuard [Kinds]
  /-- Restores the ambient context; says so if it announces. -/
  | restoring (guard : Guard) (announces : Bool)
  /-- Only writes that the guard of this name was released. -/
  | noting (name : String)

/-- The steps of a program. -/
inductive Step [Kinds]
  /-- Install and keep the guard under a name. -/
  | install (scope : Installer) (context : Context) (name : String)
  /-- Keep a guard with nothing to restore. -/
  | keepIdle (name : String)
  /-- Keep a guard that only writes a line. -/
  | keepNote (name : String)
  /-- Release the first kept guard of a name. -/
  | drop (name : String)
  /-- Install for the duration of a body. -/
  | within (scope : Installer) (context : Context) (body : List Step)
  /-- Run a body and catch its failure. -/
  | catching (body : List Step)
  /-- Fail. -/
  | fail (message : String)
  /-- Do nothing. -/
  | current

/-- What a running program has at hand. -/
structure Desk [Kinds] where
  /-- The ambient context. -/
  ambient : Context
  /-- The kept guards, oldest first. -/
  kept : List (String × KeptGuard)
  /-- The lines written so far, oldest first. -/
  lines : List String

variable {K : Kinds}

namespace Desk

/-- Nothing installed, nothing kept, nothing written. -/
def start [Kinds] : Desk := ⟨.empty, [], []⟩

/-- Write a line. -/
def write (d : Desk) (line : String) : Desk := { d with lines := d.lines ++ [line] }

/-- Write a word and the ambient context. -/
def note (d : Desk) (word : String) : Desk := d.write (word ++ " " ++ d.ambient.text)

/-- Install a context. -/
def install (d : Desk) (s : Installer) (c : Context) : Desk × KeptGuard :=
  let (ambient, guard) := s.scope.install c d.ambient
  let d := { d with ambient }
  (if s.announces then d.note "scope+" else d, .restoring guard s.announces)

/-- Release a guard. -/
def release (d : Desk) : KeptGuard → Desk
  | .restoring guard announces =>
    let d := { d with ambient := guard.release d.ambient }
    if announces then d.note "scope-" else d
  | .noting name => d.write ("restore " ++ name)

/-- Keep a guard under a name, behind those kept already. -/
def keep (d : Desk) (name : String) (g : KeptGuard) : Desk :=
  { d with kept := d.kept ++ [(name, g)] }

/-- Release the first kept guard of a name, if there is one. -/
def dropFirst (d : Desk) (name : String) : Desk :=
  match d.kept.find? (·.1 == name) with
  | some (_, g) => { d with kept := d.kept.eraseP (·.1 == name) }.release g
  | none => d

/-- Release all kept guards, oldest first. -/
def releaseAll (d : Desk) : Desk :=
  d.kept.foldl (fun d g => d.release g.2) { d with kept := [] }

end Desk

mutual

/-- Run one step. A failure comes out as its message, with the desk as the failure left it. -/
def Step.run (d : Desk) : Step → Desk × Option String
  | .install scope context name =>
    let (d, g) := d.install scope context
    ((d.keep name g).note "install", none)
  | .keepIdle name => ((d.keep name (.restoring .idle false)).note "noop_guard", none)
  | .keepNote name => ((d.keep name (.noting name)).note "note_guard", none)
  | .drop name => ((d.dropFirst name).note "drop", none)
  | .within scope context body =>
    let (d, g) := d.install scope context
    let (d, failure) := Step.runAll (d.note "in") body
    let d := d.release g
    match failure with
    | none => (d.note "within", none)
    | some message => (d, some message)
  | .catching body =>
    let (d, failure) := Step.runAll d body
    let d := match failure with
      | none => d
      | some message => d.write ("caught " ++ message)
    (d.note "catch", none)
  | .fail message => (d, some message)
  | .current => (d.note "current", none)

/-- Run steps in order, up to the first failure. -/
def Step.runAll (d : Desk) : List Step → Desk × Option String
  | [] => (d, none)
  | step :: rest =>
    match Step.run d step with
    | (d, none) => Step.runAll d rest
    | (d, some message) => (d, some message)

end

end Wiretap.Scope

import Wiretap.Context.Edit

/-!
# Snapshots and their identity

A snapshot is a context that has an identity: whoever holds two snapshots can ask whether they are
the very same one. Operations that have nothing to do give back the snapshot they were given, with
its identity; all others make a new one. A record is the list of the snapshots that a script has
made so far.
-/

namespace Wiretap.Context

variable {K : Kinds}

/-- A context with an identity. -/
structure Snapshot [Kinds] where
  /-- The identity. -/
  id : Nat
  /-- The entries. -/
  context : Context

namespace Snapshot

/-- Are these the very same snapshot? -/
def same (a b : Snapshot) : Bool := a.id == b.id

/-- Merge `other` into `a`. An empty `other` gives `a` back and an empty `a` gives `other`;
only a proper union is a new snapshot. -/
def merge (a other : Snapshot) (fresh : Nat) : Snapshot :=
  if other.context.isEmpty then a
  else if a.context.isEmpty then other
  else ⟨fresh, a.context.merge other.context⟩

/-- Take a key out. A key that is absent leaves the snapshot as it is. -/
def erase (a : Snapshot) (key : String) (fresh : Nat) : Snapshot :=
  if a.context.contains key then ⟨fresh, a.context.erase key⟩ else a

/-- Carry out an edit, under a new identity where the edit makes a new snapshot. A context given
with a merge counts as new. -/
def edit (a : Snapshot) (fresh : Nat) : Edit → Snapshot
  | .erase key => a.erase key fresh
  | .merge other => a.merge ⟨fresh, other⟩ fresh
  | e => ⟨fresh, a.context.edit e⟩

end Snapshot

/-- The snapshots made so far, oldest first. Identities below `fresh` have been given away. -/
structure Record [Kinds] where
  /-- The snapshots, oldest first. -/
  snapshots : List Snapshot
  /-- The next identity to give away. -/
  fresh : Nat

/-- One operation of a script. Positions count from the oldest snapshot. -/
inductive Operation [Kinds]
  /-- Edit the snapshot at a position. -/
  | edit (on : Nat) (e : Edit)
  /-- Merge the snapshot at the second position into the one at the first. -/
  | merge (on other : Nat)
  /-- A context of one entry. -/
  | singleton (key : String) (value : Value)
  /-- A context without entries. -/
  | empty

namespace Record

/-- A record starts with one snapshot, which is empty. -/
def start [Kinds] : Record := ⟨[⟨0, Context.empty⟩], 1⟩

/-- The snapshot that an operation gives, unless a position is beyond the record. -/
def result? (r : Record) : Operation → Option Snapshot
  | .edit on e => (r.snapshots[on]?).map fun a => a.edit r.fresh e
  | .merge on other => do
      let a ← r.snapshots[on]?
      let b ← r.snapshots[other]?
      return a.merge b r.fresh
  | .singleton key value => some ⟨r.fresh, Context.singleton key value⟩
  | .empty => some ⟨r.fresh, Context.empty⟩

/-- Append the snapshot that an operation gives. -/
def extend? (r : Record) (o : Operation) : Option Record :=
  (r.result? o).map fun s => ⟨r.snapshots ++ [s], r.fresh + 1⟩

/-- Run a script from left to right. -/
def run? (r : Record) (script : List Operation) : Option Record := script.foldlM extend? r

/-- The position of the first snapshot that is the very same as `s`. -/
def firstSame? (r : Record) (s : Snapshot) : Option Nat := r.snapshots.findIdx? (·.same s)

end Record

end Wiretap.Context

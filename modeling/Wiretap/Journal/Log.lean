import Wiretap.Text.Quoted

/-!
# Logs

A log is a list of entries in the order in which they were written.
-/

namespace Wiretap

/-- Entries, oldest first. -/
structure Log where
  /-- The entries, oldest first. -/
  entries : Array String

namespace Log

/-- A log without entries. -/
def empty : Log := ⟨#[]⟩

/-- Append an entry. -/
def push (l : Log) (entry : String) : Log := ⟨l.entries.push entry⟩

/-- The number of entries. -/
def size (l : Log) : Nat := l.entries.size

/-- The entries from a position on. -/
def since (l : Log) (start : Nat) : List String := l.entries.toList.drop start

/-- The number of entries that begin with `start`. -/
def count (l : Log) (start : String) : Nat :=
  l.entries.toList.countP fun entry => start.toList.isPrefixOf entry.toList

/-- The entries in quotes, on one line. -/
def outline (l : Log) : String := Text.quotedList l.entries.toList

end Log

end Wiretap

import Wiretap.Context.Basic

/-!
# Edits of a context

An edit is a description of one operation on a context, so that a list of edits can be given as
data. Edits are applied from left to right.
-/

namespace Wiretap.Context

variable {K : Kinds}

/-- One operation on a context. -/
inductive Edit [Kinds]
  /-- Put a value under a key. -/
  | insert (key : String) (value : Value)
  /-- Take a key out. -/
  | erase (key : String)
  /-- Keep the listed keys only. -/
  | restrict (keys : List String)
  /-- Merge a context into this one. -/
  | merge (other : Context)
  /-- Start again from nothing. -/
  | clear

/-- Carry out one edit. -/
def edit (c : Context) : Edit → Context
  | .insert key value => c.insert key value
  | .erase key => c.erase key
  | .restrict keys => c.restrict keys
  | .merge other => c.merge other
  | .clear => empty

/-- Carry out a list of edits, from left to right. -/
def editAll (c : Context) (edits : List Edit) : Context := edits.foldl edit c

end Wiretap.Context

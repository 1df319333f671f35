import Wiretap.Context.Value

/-!
# Contexts

A context is an immutable list of entries, each a key with a value. Inserting a key that is already
there keeps its place and replaces its value; a new key goes to the end. Merging two contexts keeps
the entries of the first whose keys the second lacks and puts all entries of the second after them.
Every operation gives a new context; none changes its argument.
-/

namespace Wiretap

/-- Keys with their values, in order. -/
structure Context [Kinds] where
  /-- The entries, in order. -/
  entries : List (String × Value)
deriving DecidableEq

variable {K : Kinds}

namespace Context

/-- The context without entries. -/
def empty [Kinds] : Context := ⟨[]⟩

/-- The keys, in order. -/
def keys (c : Context) : List String := c.entries.map (·.1)

/-- The number of entries. -/
def size (c : Context) : Nat := c.entries.length

/-- Is there no entry? -/
def isEmpty (c : Context) : Bool := c.entries.isEmpty

/-- Is there an entry under `key`? -/
def contains (c : Context) (key : String) : Bool := c.entries.any (·.1 == key)

/-- The value under `key`, of whatever kind. -/
def find? (c : Context) (key : String) : Option Value := c.entries.lookup key

/-- The value under `key`, if there is one and its kind is `κ`. -/
def get? (c : Context) (κ : K.Kind) (key : String) : Option (K.Carrier κ) :=
  (c.find? key).bind (Value.as? κ)

/-- The value under `key` where `get?` finds one, else `fallback`. -/
def getD (c : Context) (κ : K.Kind) (key : String) (fallback : K.Carrier κ) :
    K.Carrier κ :=
  (c.get? κ key).getD fallback

/-- Entries with `value` under `key`: in the place of the first entry of that key, else at the
end. -/
def insertEntry (key : String) (value : Value) : List (String × Value) → List (String × Value)
  | [] => [(key, value)]
  | e :: rest => if e.1 = key then (e.1, value) :: rest else e :: insertEntry key value rest

/-- The context with `value` under `key`. -/
def insert (c : Context) (key : String) (value : Value) : Context :=
  ⟨insertEntry key value c.entries⟩

/-- A context of one entry. -/
def singleton (key : String) (value : Value) : Context := empty.insert key value

/-- Insert a list of entries one after the other into the empty context. -/
def ofList (entries : List (String × Value)) : Context :=
  entries.foldl (fun c e => c.insert e.1 e.2) empty

/-- The entries of both contexts; on a common key the entry of `other` counts. -/
def merge (c other : Context) : Context :=
  if other.isEmpty then c
  else if c.isEmpty then other
  else ⟨c.entries.filter (fun e => !other.contains e.1) ++ other.entries⟩

/-- The context without the entry under `key`. -/
def erase (c : Context) (key : String) : Context :=
  if c.contains key then ⟨c.entries.filter (fun e => e.1 != key)⟩ else c

/-- The entries whose keys are listed, in the order of the context. -/
def restrict (c : Context) (keys : List String) : Context :=
  ⟨c.entries.filter (fun e => keys.contains e.1)⟩

end Context

end Wiretap

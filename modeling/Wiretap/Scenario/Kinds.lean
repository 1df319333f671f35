import Wiretap.Context.Value

/-!
# The kinds of value in scenarios

Scenarios put strings, truth values and integers into contexts.
-/

namespace Wiretap.Scenario

/-- The kinds of value that a scenario knows. -/
inductive Kind
  | str
  | bool
  | i64
  | i32
  | u64
deriving DecidableEq

namespace Kind

/-- The values of a kind. -/
abbrev Carrier : Kind → Type
  | .str => String
  | .bool => Bool
  | .i64 => Int64
  | .i32 => Int32
  | .u64 => UInt64

/-- The name of a kind in the text of a context. -/
def label : Kind → String
  | .str => "str"
  | .bool => "bool"
  | .i64 => "i64"
  | .i32 => "i32"
  | .u64 => "u64"

/-- The value of a kind as plain text: numbers in decimal, strings as they are. -/
def text : (κ : Kind) → κ.Carrier → String
  | .str, s => s
  | .bool, b => if b then "true" else "false"
  | .i64, n => toString n.toInt
  | .i32, n => toString n.toInt
  | .u64, n => toString n.toNat

instance : (κ : Kind) → DecidableEq κ.Carrier
  | .str => inferInstanceAs (DecidableEq String)
  | .bool => inferInstanceAs (DecidableEq Bool)
  | .i64 => inferInstanceAs (DecidableEq Int64)
  | .i32 => inferInstanceAs (DecidableEq Int32)
  | .u64 => inferInstanceAs (DecidableEq UInt64)

end Kind

/-- Kind and value, joined by a colon. -/
scoped instance kinds : Kinds where
  Kind := Kind
  Carrier := Kind.Carrier
  text κ x := κ.label ++ ":" ++ κ.text x
  decEqKind := inferInstance
  decEqCarrier := inferInstance

end Wiretap.Scenario

namespace Wiretap.Value

open Scenario

/-- A string. -/
def str (s : String) : Value := ⟨Kind.str, s⟩

/-- A truth value. -/
def bool (b : Bool) : Value := ⟨Kind.bool, b⟩

/-- A 64-bit integer. -/
def i64 (n : Int64) : Value := ⟨Kind.i64, n⟩

/-- A 32-bit integer. -/
def i32 (n : Int32) : Value := ⟨Kind.i32, n⟩

/-- A 64-bit natural number. -/
def u64 (n : UInt64) : Value := ⟨Kind.u64, n⟩

end Wiretap.Value

import Wiretap.Text.Quoted

/-!
# What a stream carries

Items and errors of a stream are opaque to it. To show them in a log they need a literal; to build
predicates on items, a scenario also compares and measures them.
-/

namespace Wiretap

/-- Values with a literal form. -/
class Literal (α : Type) where
  /-- The text by which a value appears in logs and in error texts. -/
  literal : α → String

export Literal (literal)

/-- Values that a stream may carry as items. -/
class Item (α : Type) extends Literal α where
  /-- How the log names the type of a dropped item. -/
  typeName : String
  /-- The number by which a predicate classifies the item. -/
  size : α → Int
  /-- Strict order. -/
  before : α → α → Bool

instance : Literal Int := ⟨fun n => toString n⟩

instance : Literal String := ⟨Text.quoted⟩

/-- Numbers are 64-bit integers to the log. -/
instance : Item Int where
  typeName := "i64"
  size := id
  before a b := decide (a < b)

/-- Strings are measured in code points and ordered by them. -/
instance : Item String where
  typeName := "alloc::string::String"
  size s := s.length
  before a b := decide (a < b)

end Wiretap

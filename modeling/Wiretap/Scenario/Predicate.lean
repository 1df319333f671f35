import Wiretap.Item

/-!
# Predicates on items

The predicates that a scenario can name: for the items that a receiver takes, and for the items at
which a listener fails.
-/

namespace Wiretap.Scenario

/-- A description of a set of items. -/
inductive Predicate (α : Type)
  /-- Every item. -/
  | all
  /-- No item. -/
  | nothing
  /-- The listed items. -/
  | among (items : List α)
  /-- The items before a bound. -/
  | below (bound : α)
  /-- The items whose size leaves a remainder. -/
  | residue (modulus remainder : Int)

/-- Is the item in the set? -/
def Predicate.holds {α : Type} [Item α] [DecidableEq α] (p : Predicate α) (x : α) : Bool :=
  match p with
  | .all => true
  | .nothing => false
  | .among items => items.contains x
  | .below bound => Item.before x bound
  | .residue modulus remainder => (Item.size x).emod modulus == remainder

end Wiretap.Scenario

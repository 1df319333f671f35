/-!
# Demand

Demand is a number of items that a receiver is ready to take. It is a 64-bit number, and the
greatest one stands for no bound at all. Adding to demand never wraps: what would exceed the
greatest number is unbounded.
-/

namespace Wiretap.Demand

/-- Demand without a bound. -/
def unbounded : UInt64 := 0xffffffffffffffff

/-- Is this a number of items that may be asked for? -/
def isPositive (n : UInt64) : Bool := n != 0

/-- Demand after `n` more items have been asked for. -/
def add (current n : UInt64) : UInt64 :=
  UInt64.ofNat (min (current.toNat + n.toNat) unbounded.toNat)

theorem toNat_unbounded : unbounded.toNat = 18446744073709551615 := rfl

/-- Adding never wraps. -/
theorem toNat_add (current n : UInt64) :
    (add current n).toNat = min (current.toNat + n.toNat) unbounded.toNat := by
  have bound := unbounded.toNat_lt
  unfold add
  rw [UInt64.toNat_ofNat', Nat.mod_eq_of_lt (by omega)]

end Wiretap.Demand

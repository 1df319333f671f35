import Wiretap.Item

/-!
# Violations of the flow protocol

Two misuses are noticed where demand and handles pass: a request for nothing, and a second handle
for a receiver that already has one. Neither is ever told to the receiver.
-/

namespace Wiretap

/-- A misuse of the flow protocol. -/
inductive Violation
  /-- A request for this number of items, which is not positive. -/
  | nonPositiveRequest (n : UInt64)
  /-- A second handle. -/
  | duplicateSubscription
deriving DecidableEq

namespace Violation

/-- The text of a violation. -/
def describe : Violation → String
  | .nonPositiveRequest n => "request must be positive, got " ++ toString n.toNat
  | .duplicateSubscription => "subscription already set"

instance : Literal Violation where
  literal
    | .nonPositiveRequest n => "NonPositiveRequest(" ++ toString n.toNat ++ ")"
    | .duplicateSubscription => "DuplicateSubscription"

end Violation

end Wiretap

import Wiretap.Fault.Tapped
import Wiretap.Fault.Violation

/-!
# Errors that nobody receives

Once a receiver has been told the end of its stream, further errors cannot reach it. They are
collected in one place, together with the violations of the protocol.
-/

namespace Wiretap

/-- An error that is dropped, over source errors `ε`. -/
inductive Undelivered (ε : Type)
  /-- A misuse of the protocol. -/
  | violation (v : Violation)
  /-- A listener's fault on its own. -/
  | fault (f : Fault)
  /-- The error that a tap would have passed on. -/
  | tapped (e : TapError ε)
  /-- The error of the source as it was. -/
  | source (e : ε)
deriving DecidableEq

instance {ε : Type} [Literal ε] : Literal (Undelivered ε) where
  literal
    | .violation v => literal v
    | .fault f => literal f
    | .tapped e => literal e
    | .source e => literal e

end Wiretap

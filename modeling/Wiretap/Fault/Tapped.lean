import Wiretap.Fault.Basic

/-!
# Errors of a tapped stream

Behind a tap a stream fails with one of three errors: the error of the source as it was, a fault of
the listener, or both, when the listener failed on the very error of the source.
-/

namespace Wiretap

/-- What the receiver behind a tap gets as an error, over source errors `ε`. -/
inductive TapError (ε : Type)
  /-- The source failed. -/
  | source (e : ε)
  /-- The listener failed. -/
  | listener (fault : Fault)
  /-- The listener failed on an error of the source. -/
  | multiple (fault : Fault) (e : ε)
deriving DecidableEq

namespace TapError

variable {ε : Type}

/-- The listener's fault in the error, if there is one. -/
def fault? : TapError ε → Option Fault
  | .source _ => none
  | .listener f => some f
  | .multiple f _ => some f

/-- The source's error in the error, if there is one. -/
def source? : TapError ε → Option ε
  | .source e => some e
  | .listener _ => none
  | .multiple _ e => some e

/-- Did the listener have a part in it? -/
def isFault (e : TapError ε) : Bool := e.fault?.isSome

/-- The kind of the error in a word. -/
def label : TapError ε → String
  | .source _ => "source"
  | .listener _ => "listener"
  | .multiple .. => "multiple"

/-- The cause right below the error. A fault on its own has the one that it has anyway; the other
errors have none. -/
def below? : TapError ε → Option Cause
  | .listener f => f.below?
  | _ => none

/-- The causes of the error. Only a fault on its own passes on the chain of its causes. -/
def chain : TapError ε → List Cause
  | .listener f => f.chain
  | _ => []

variable [Literal ε]

/-- The text of the error. A fault on its own shows its own text. -/
def describe : TapError ε → String
  | .source e => literal e
  | .listener f => f.describe
  | .multiple f e => "multiple errors: " ++ f.describe ++ "; original error: " ++ literal e

instance : Literal (TapError ε) where
  literal
    | .source e => "Source(" ++ literal e ++ ")"
    | .listener f => "Listener(" ++ literal f ++ ")"
    | .multiple f e =>
      "Multiple \x7b listener: " ++ literal f ++ ", original: " ++ literal e ++ " \x7d"

end TapError

end Wiretap

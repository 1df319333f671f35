import Wiretap.Tap.Basic

/-!
# Setting up a tap

Before a tap subscribes to its source, its listener runs its first hook and augments the context of
the receiver. If either fails the listener is told and there is no tap.
-/

namespace Wiretap.Tap

variable {K : Kinds} {σ α ε : Type}

/-- What setting up does, and the tap at the start of its subscription or the fault that prevents
it. -/
def setUp (L : Listener σ α ε) (listener : σ) (context : Context) :
    List (Act α ε) × Except Fault (Tap σ) :=
  let first := L.run listener .first
  match first.2 with
  | some cause =>
    let f := (Hook.first : Hook α ε).fault cause
    ([.ran .first (some cause), .reported f], .error f)
  | none =>
    let augmentation := L.augment first.1 context
    match augmentation.2 with
    | .error cause =>
      let f : Fault := ⟨.augmentation, cause⟩
      ([.ran .first none, .augmented (some cause), .reported f], .error f)
    | .ok augmented => ([.ran .first none, .augmented none], .ok (start augmentation.1 augmented))

end Wiretap.Tap

import Wiretap.Context.Basic

/-!
# Scopes

While a signal is handled, a context can be visible to everybody as the ambient context. A scope
decides what of a context becomes ambient: all entries, the entries of listed keys, or nothing at
all. Installing gives a guard, which remembers the context that was ambient before; releasing the
guard makes that one ambient again, whatever has been installed in between.
-/

namespace Wiretap

/-- What part of a context is made ambient. -/
inductive Scope
  /-- Every entry. -/
  | all
  /-- The entries of the listed keys. -/
  | keys (listed : List String)
  /-- No part: the ambient context is left alone. -/
  | inert
deriving DecidableEq

/-- What releasing restores; nothing for a scope that installed nothing. -/
structure Guard [Kinds] where
  /-- The context that was ambient before the installation. -/
  previous : Option Context
deriving DecidableEq

variable {K : Kinds}

namespace Guard

/-- A guard with nothing to restore. -/
def idle [Kinds] : Guard := ⟨none⟩

/-- The ambient context once the guard is released. -/
def release (g : Guard) (ambient : Context) : Context := g.previous.getD ambient

@[simp] theorem release_idle (ambient : Context) : idle.release ambient = ambient := rfl

end Guard

namespace Scope

/-- The context that installing `c` makes ambient, unless the scope installs nothing. -/
def derive? : Scope → Context → Option Context
  | .all, c => some c
  | .keys listed, c => some (c.restrict listed)
  | .inert, _ => none

/-- Install `c`: the context that is ambient now, and the guard that takes it back. -/
def install (s : Scope) (c ambient : Context) : Context × Guard :=
  match s.derive? c with
  | some derived => (derived, ⟨some ambient⟩)
  | none => (ambient, .idle)

/-- Installing and releasing leaves the ambient context as it was. -/
@[simp] theorem release_install (s : Scope) (c ambient : Context) :
    (s.install c ambient).2.release (s.install c ambient).1 = ambient := by
  unfold install
  split <;> rfl

/-- To install a context again changes nothing. -/
theorem install_install (s : Scope) (c ambient : Context) :
    (s.install c (s.install c ambient).1).1 = (s.install c ambient).1 := by
  cases h : s.derive? c <;> simp [install, h]

end Scope

end Wiretap

/-!
# Values of a context

A context entry holds a value of some kind. The kind belongs to the value: reading an entry names
the kind that is wanted and finds nothing when the entry holds another one. Which kinds there are is
left open here, as long as two kinds can be told apart.
-/

namespace Wiretap

/-- The kinds of value that the entries of a context may hold. -/
class Kinds where
  /-- The kinds. -/
  Kind : Type
  /-- The values of a kind. -/
  Carrier : Kind → Type
  /-- A value as plain text, together with its kind. -/
  text : (κ : Kind) → Carrier κ → String
  /-- Kinds can be told apart. -/
  decEqKind : DecidableEq Kind
  /-- So can the values of a kind. This is for the comparison of contexts in single runs only, so
  where values cannot be compared `Classical.decEq` will do. -/
  decEqCarrier : (κ : Kind) → DecidableEq (Carrier κ)

variable {K : Kinds}

instance : DecidableEq K.Kind := K.decEqKind

instance (κ : K.Kind) : DecidableEq (K.Carrier κ) := K.decEqCarrier κ

/-- A value together with its kind. -/
structure Value [K : Kinds] where
  /-- The kind of the value. -/
  kind : K.Kind
  /-- The value itself. -/
  val : K.Carrier kind
deriving DecidableEq

namespace Value

/-- The value as one of kind `κ`, if that is its kind. -/
def as? (κ : K.Kind) (v : Value) : Option (K.Carrier κ) :=
  if h : v.kind = κ then some (h ▸ v.val) else none

/-- The value with its kind. -/
def text (v : Value) : String := K.text v.kind v.val

@[simp] theorem as?_self (κ : K.Kind) (x : K.Carrier κ) : as? κ ⟨κ, x⟩ = some x := by
  simp [as?]

theorem as?_eq_some_iff {κ : K.Kind} {v : Value} {x : K.Carrier κ} :
    v.as? κ = some x ↔ v = ⟨κ, x⟩ := by
  obtain ⟨kind, val⟩ := v
  constructor
  · intro h
    by_cases hk : kind = κ
    · subst hk
      simp_all
    · simp [as?, hk] at h
  · intro h
    rw [h]
    exact as?_self κ x

end Value

end Wiretap

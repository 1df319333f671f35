import Wiretap.Proofs.Emission.Metered

/-!
# The counters of an emission

While its loop runs, an emission keeps two numbers of 64 bits: the demand outstanding, which
requests raise, and how many items have been taken since the loop began. What has been taken has
been handed out, so there are too few items for this number to wrap; and it was asked for, so it can
be taken off the demand. Demand without a bound stays as it is.
-/

namespace Wiretap.Emission

variable {α : Type} {before : List α} {emitted : UInt64} {out : Nat} {e : Emission α}

theorem le_request (e : Emission α) (n : UInt64) :
    e.requested.toNat ≤ (e.request n).requested.toNat := by
  have hsum := Demand.toNat_add e.requested n
  have hbound := e.requested.toNat_lt
  rw [Demand.toNat_unbounded] at hsum
  rw [request]
  dsimp only
  omega

theorem unbounded_request (h : e.requested = Demand.unbounded) (n : UInt64) :
    (e.request n).requested = Demand.unbounded := by
  apply UInt64.toNat_inj.mp
  apply Nat.le_antisymm
  · exact Nat.le_of_lt_succ (e.request n).requested.toNat_lt
  · rw [← h]
    exact e.le_request n

/-- The emission has handed out the items `before`. Since its loop began, `emitted` of them have
been taken, and `out` others are out. -/
structure Counts (before : List α) (emitted : UInt64) (out : Nat) (e : Emission α) : Prop where
  handed : emitted.toNat + out ≤ before.length
  asked : emitted.toNat + out ≤ e.requested.toNat ∨ e.requested = Demand.unbounded

namespace Counts

/-- The loop begins. -/
theorem start (before : List α) (e : Emission α) : Counts before 0 0 e :=
  ⟨Nat.zero_le _, .inl (Nat.zero_le _)⟩

theorem request (h : Counts before emitted out e) (n : UInt64) :
    Counts before emitted out (e.request n) where
  handed := h.handed
  asked := h.asked.imp (·.trans (e.le_request n)) fun hall => unbounded_request hall n

/-- An item is handed out, for which there is demand. -/
theorem deliver (h : Counts before emitted 0 e) (hverdict : e.verdict emitted = .deliver) (x : α)
    (pull : Nat → Option α) : Counts (before ++ [x]) emitted 1 (e.advance pull) where
  handed := by
    have hhanded := h.handed
    rw [List.length_append, List.length_singleton]
    omega
  asked := by
    rcases open_of_deliver hverdict with hall | hmore
    · exact .inr hall
    · rw [ne_eq, ← UInt64.toNat_inj] at hmore
      exact h.asked.imp_left fun hle => Nat.lt_of_le_of_ne hle hmore

theorem toNat_succ (h : Counts before emitted 1 e) (hlength : before.length < 2 ^ 64) :
    (emitted + 1).toNat = emitted.toNat + 1 := by
  have hhanded := h.handed
  rw [UInt64.toNat_add, UInt64.toNat_one]
  omega

/-- The item that was out has been taken. -/
theorem count (h : Counts before emitted 1 e) (hlength : before.length < 2 ^ 64) :
    Counts before (emitted + 1) 0 e := by
  constructor
  · rw [h.toNat_succ hlength]
    exact h.handed
  · rw [h.toNat_succ hlength]
    exact h.asked

/-- The item that was out has been refused. -/
theorem refuse (h : Counts before emitted 1 e) : Counts before emitted 0 e where
  handed := Nat.le_of_succ_le h.handed
  asked := h.asked.imp_left Nat.le_of_succ_le

end Counts

/-- What becomes of an emission: its sequence has been asked no less, and unbounded demand has
stayed. -/
structure Onward (e e' : Emission α) : Prop where
  pulled : e.pulled ≤ e'.pulled
  unbounded : e.requested = Demand.unbounded → e'.requested = Demand.unbounded

namespace Onward

variable {e' e'' : Emission α}

theorem refl (e : Emission α) : e.Onward e := ⟨Nat.le_refl _, id⟩

theorem trans (h : e.Onward e') (h' : e'.Onward e'') : e.Onward e'' :=
  ⟨h.pulled.trans h'.pulled, h'.unbounded ∘ h.unbounded⟩

theorem request (e : Emission α) (n : UInt64) : e.Onward (e.request n) :=
  ⟨Nat.le_refl _, fun hall => unbounded_request hall n⟩

theorem advance (e : Emission α) (pull : Nat → Option α) : e.Onward (e.advance pull) :=
  ⟨Nat.le_succ _, id⟩

/-- Unbounded demand is not settled. -/
theorem settle (hverdict : e.verdict emitted = .settle) : e.Onward (e.settle emitted) :=
  ⟨Nat.le_refl _, fun hall => absurd hall (closed_of_settle hverdict).1⟩

end Onward

end Wiretap.Emission

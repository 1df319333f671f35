import Wiretap.Proofs.Emission.Account

/-!
# No more than was asked for

Whatever becomes of the items that an emission hands out, it hands them out in order and each once,
and it counts every item that its receiver did not refuse. So the items that somebody farther down
may have taken never outnumber those that were counted, and these never exceed what was asked for.
-/

namespace Wiretap.Emission

variable {α : Type} {p : α → Bool} {all before : List α} {emitted : UInt64} {out total : Nat}
  {e : Emission α}

/-- Of `all` items an emission has handed out `before`. -/
structure Hands (all before : List α) (e : Emission α) : Prop where
  isPrefix : before <+: all
  pulled : e.pulled = before.length + 1
  ahead : e.ahead = all[before.length]?

namespace Hands

theorem start {x : α} {rest : List α} : Hands (x :: rest) [] (start x) where
  isPrefix := List.nil_prefix
  pulled := rfl
  ahead := rfl

/-- The item ahead is the next one. -/
theorem deliver (h : Hands all before e) {x : α} (hahead : e.ahead = some x) :
    Hands all (before ++ [x]) (e.advance (all[·]?)) where
  isPrefix := by
    obtain ⟨rest, rfl⟩ := h.isPrefix
    rw [h.ahead, List.getElem?_append_right (Nat.le_refl _), Nat.sub_self] at hahead
    cases rest with
    | nil => cases hahead
    | cons y rest =>
        cases hahead
        exact ⟨rest, by simp⟩
  pulled := by simp [advance, h.pulled]
  ahead := by simp [advance, h.pulled]

/-- The counters do not matter. -/
theorem keep (h : Hands all before e) {e' : Emission α} (hpulled : e'.pulled = e.pulled)
    (hahead : e'.ahead = e.ahead) : Hands all before e' :=
  ⟨h.isPrefix, hpulled.trans h.pulled, hahead.trans h.ahead⟩

end Hands

/-- `total` items have been asked for, and `emitted` were counted since the last settlement. Of the
items `before`, those that satisfy `p` were counted, and others may have been. If an item is out
besides, there is demand for it. Once the demand is unbounded, this says nothing. -/
def Meters (p : α → Bool) (before : List α) (emitted : UInt64) (out total : Nat)
    (e : Emission α) : Prop :=
  Demand.unbounded.toNat ≤ total ∨ ∃ counted, before.countP p ≤ counted ∧
    emitted.toNat ≤ counted ∧ emitted.toNat + out ≤ e.requested.toNat ∧
    e.requested.toNat + counted = total + emitted.toNat

/-- No more items that satisfy `p` have been handed out than were asked for, if that is bounded. -/
def Within (p : α → Bool) (before : List α) (total : Nat) : Prop :=
  Demand.unbounded.toNat ≤ total ∨ before.countP p ≤ total

theorem Within.mono (h : Within p before total) {total' : Nat} (hle : total ≤ total') :
    Within p before total' :=
  h.imp (Nat.le_trans · hle) (Nat.le_trans · hle)

namespace Meters

/-- The request that finds no demand outstanding. -/
theorem start (h : Within p before total) (hrequested : e.requested = 0) (n : UInt64) :
    Meters p before 0 0 (total + n.toNat) (e.request n) := by
  rcases h with h | h
  · exact .inl (Nat.le_add_right_of_le h)
  · refine .inr ⟨total, h, Nat.zero_le _, Nat.zero_le _, ?_⟩
    have hsum := Demand.toNat_add e.requested n
    have hn := n.toNat_lt
    rw [hrequested, UInt64.toNat_zero, Demand.toNat_unbounded] at hsum
    rw [request, hrequested, UInt64.toNat_zero]
    dsimp only
    omega

/-- A request that finds the loop at work. -/
theorem request (h : Meters p before emitted out total e) (n : UInt64) :
    Meters p before emitted out (total + n.toNat) (e.request n) := by
  by_cases hunbounded : Demand.unbounded.toNat ≤ total + n.toNat
  · exact .inl hunbounded
  · obtain ⟨counted, hcount, hemitted, hout, hbalance⟩ := h.resolve_left (by omega)
    refine .inr ⟨counted, hcount, hemitted, ?_⟩
    have hsum := Demand.toNat_add e.requested n
    rw [Emission.request]
    dsimp only
    omega

theorem within (h : Meters p before emitted out total e) : Within p before total := by
  refine h.imp_right ?_
  rintro ⟨counted, hcount, hemitted, hout, hbalance⟩
  omega

/-- An item that is handed out is asked for. -/
theorem deliver (h : Meters p before emitted 0 total e) (hverdict : e.verdict emitted = .deliver)
    (pull : Nat → Option α) : Meters p before emitted 1 total (e.advance pull) := by
  rcases h with hunbounded | ⟨counted, hcount, hemitted, hout, hbalance⟩
  · exact .inl hunbounded
  · rcases open_of_deliver hverdict with hall | hmore
    · rw [hall] at hbalance
      exact .inl (by omega)
    · rw [ne_eq, ← UInt64.toNat_inj] at hmore
      exact .inr ⟨counted, hcount, hemitted, Nat.lt_of_le_of_ne hout hmore, hbalance⟩

/-- The item that was out has not been refused, and is counted. -/
theorem count (h : Meters p before emitted 1 total e) (x : α) :
    Meters p (before ++ [x]) (emitted + 1) 0 total e := by
  refine h.imp_right ?_
  rintro ⟨counted, hcount, hemitted, hout, hbalance⟩
  have hnext : (emitted + 1).toNat = emitted.toNat + 1 := by
    have hbound := e.requested.toNat_lt
    rw [UInt64.toNat_add, UInt64.toNat_one]
    omega
  refine ⟨counted + 1, ?_, ?_, ?_, ?_⟩
  · rw [List.countP_append, List.countP_singleton]
    split <;> omega
  all_goals omega

/-- The item that was out has been refused, by somebody who takes those that satisfy `p`. -/
theorem refuse (h : Meters p before emitted 1 total e) {x : α} (hx : p x = false) :
    Meters p (before ++ [x]) emitted 0 total e := by
  refine h.imp_right ?_
  rintro ⟨counted, hcount, hemitted, hout, hbalance⟩
  refine ⟨counted, ?_, hemitted, by omega, hbalance⟩
  rw [List.countP_append, List.countP_singleton, if_neg (by simp [hx])]
  exact hcount

/-- The item that is out may be taken. -/
theorem within_out (h : Meters p before emitted 1 total e) (x : α) :
    Within p (before ++ [x]) total := (h.count x).within

end Meters

/-- After a settlement no demand is outstanding. -/
theorem requested_settle (hverdict : e.verdict emitted = .settle) :
    (e.settle emitted).requested = 0 := by
  rw [settle, (closed_of_settle hverdict).2]
  exact UInt64.sub_self _

end Wiretap.Emission

import Mathlib.Algebra.Order.Ring.Nat
import Mathlib.Data.List.Infix
import Wiretap.Emission

/-!
# What an emission owes

An emission counts the demand outstanding and, while its loop runs, the items taken since the last
settlement. The difference is what it still owes. The invariant relates both counters to everything
that was ever asked for, a number without a bound, and to the items handed out so far. Demand that
has become unbounded stays so; then the emission owes whatever is left of the sequence.
-/

namespace Wiretap

variable {α : Type}

/-- `first` is the shortest prefix of `all` with `n` items that satisfy `p`, or it is all of them if
there is none. -/
structure Fills (p : α → Bool) (n : Nat) (all first : List α) : Prop where
  isPrefix : first <+: all
  enough : n ≤ first.countP p ∨ first = all
  shortest : ∀ other, other <+: all → n ≤ other.countP p → first <+: other

/-- If all items are not too many, they are not too many for a greater number either. -/
theorem Fills.mono {p : α → Bool} {n n' : Nat} {all : List α} (h : Fills p n all all)
    (hle : n ≤ n') : Fills p n' all all where
  isPrefix := h.isPrefix
  enough := .inr rfl
  shortest := fun other hother hcount => h.shortest other hother (Nat.le_trans hle hcount)

/-- All demand made by requests, which does not wrap. -/
def Demand.sum (requests : List UInt64) : UInt64 := requests.foldl Demand.add 0

namespace Demand

/-- The sum of the numbers asked for, without a bound. -/
def total (requests : List UInt64) : Nat := (requests.map UInt64.toNat).sum

@[simp] theorem total_nil : total [] = 0 := rfl

@[simp] theorem total_append (first second : List UInt64) :
    total (first ++ second) = total first + total second := by
  simp [total]

@[simp] theorem total_singleton (n : UInt64) : total [n] = n.toNat := by
  simp [total]

theorem toNat_sum (requests : List UInt64) :
    (sum requests).toNat = min (total requests) unbounded.toNat := by
  induction requests using List.reverseRecOn with
  | nil => rfl
  | append_singleton requests n ih =>
      rw [sum, List.foldl_append, List.foldl_cons, List.foldl_nil, toNat_add, total_append,
        total_singleton]
      change min ((sum requests).toNat + n.toNat) _ = _
      rw [ih]
      omega

end Demand

namespace Emission

/-- An item is handed out only as long as there is demand for it. -/
theorem open_of_deliver {emitted : UInt64} {e : Emission α} (h : e.verdict emitted = .deliver) :
    e.requested = Demand.unbounded ∨ emitted ≠ e.requested := by
  unfold verdict at h
  split at h
  next hopen => exact hopen
  next => cases h

/-- The account is settled when just as many items have been taken as were asked for. -/
theorem closed_of_settle {emitted : UInt64} {e : Emission α} (h : e.verdict emitted = .settle) :
    e.requested ≠ Demand.unbounded ∧ emitted = e.requested := by
  unfold verdict at h
  split at h
  · split at h <;> cases h
  next hclosed =>
    obtain ⟨hbounded, heq⟩ := not_or.mp hclosed
    exact ⟨hbounded, not_not.mp heq⟩

/-- Of `all` items an emission has handed out `before`. Since the last settlement `emitted` of those
that satisfy `p` were counted, and `total` items have been asked for in all. -/
structure Owes (p : α → Bool) (all before : List α) (emitted : UInt64) (total : Nat)
    (e : Emission α) : Prop where
  isPrefix : before <+: all
  pulled : e.pulled = before.length + 1
  ahead : e.ahead = all[before.length]?
  staying : e.cancelled = false
  counted : emitted.toNat ≤ before.countP p
  /-- The two counters tell what is left of the demand, unless it has become unbounded. -/
  balance : Demand.unbounded.toNat ≤ min e.requested.toNat total ∨
    emitted.toNat ≤ e.requested.toNat ∧
      e.requested.toNat + before.countP p = total + emitted.toNat
  /-- Each item was handed out on demand. -/
  needed : ∀ init x, before = init ++ [x] → init.countP p < total

namespace Owes

variable {p : α → Bool} {all before : List α} {emitted : UInt64} {total : Nat} {e : Emission α}

theorem start {x : α} {rest : List α} : Owes p (x :: rest) [] 0 0 (start x) where
  isPrefix := List.nil_prefix
  pulled := rfl
  ahead := rfl
  staying := rfl
  counted := by simp
  balance := .inr ⟨by simp, by simp [Emission.start]⟩
  needed := by simp

/-- Once nothing is held ahead, everything has been handed out. -/
theorem eq_all (h : Owes p all before emitted total e) (hahead : e.ahead = none) :
    before = all := by
  have hlength : all.length ≤ before.length := by
    rw [h.ahead, List.getElem?_eq_none_iff] at hahead
    exact hahead
  exact h.isPrefix.eq_of_length (Nat.le_antisymm h.isPrefix.length_le hlength)

/-- As long as an item is held ahead, it is the next one. -/
theorem prefix_ahead (h : Owes p all before emitted total e) {x : α} (hahead : e.ahead = some x) :
    before ++ [x] <+: all := by
  obtain ⟨rest, rfl⟩ := h.isPrefix
  rw [h.ahead, List.getElem?_append_right (Nat.le_refl _), Nat.sub_self] at hahead
  cases rest with
  | nil => cases hahead
  | cons y rest =>
      cases hahead
      exact ⟨rest, by simp⟩

theorem request (h : Owes p all before emitted total e) (n : UInt64) :
    Owes p all before emitted (total + n.toNat) (e.request n) where
  isPrefix := h.isPrefix
  pulled := h.pulled
  ahead := h.ahead
  staying := h.staying
  counted := h.counted
  balance := by
    have hsum := Demand.toNat_add e.requested n
    have hcounted := h.counted
    have hbalance := h.balance
    simp only [Emission.request, hsum]
    omega
  needed := by
    intro init x hinit
    exact Nat.lt_add_right _ (h.needed init x hinit)

theorem lt_unbounded (h : Owes p all before emitted total e) (hlength : all.length < 2 ^ 64) {x : α}
    (hahead : e.ahead = some x) : before.countP p < Demand.unbounded.toNat := by
  have hbefore : before.countP p ≤ before.length := List.countP_le_length
  have hlonger := (h.prefix_ahead hahead).length_le
  rw [List.length_append, List.length_singleton] at hlonger
  rw [Demand.toNat_unbounded]
  omega

/-- What the counters say while demand is left. -/
theorem countP_lt (h : Owes p all before emitted total e) (hlength : all.length < 2 ^ 64) {x : α}
    (hahead : e.ahead = some x) (hverdict : e.verdict emitted = .deliver) :
    before.countP p < total ∧ emitted.toNat < e.requested.toNat := by
  have hbound := h.lt_unbounded hlength hahead
  have hcounted := h.counted
  have hopen : e.requested.toNat = Demand.unbounded.toNat ∨ emitted.toNat ≠ e.requested.toNat := by
    rw [UInt64.toNat_inj, ne_eq, UInt64.toNat_inj]
    exact open_of_deliver hverdict
  have hbalance := h.balance
  constructor <;> omega

/-- The item ahead is handed out; whether it is counted depends on whether it satisfies `p`. -/
theorem deliver (h : Owes p all before emitted total e) (hlength : all.length < 2 ^ 64) {x : α}
    (hahead : e.ahead = some x) (hverdict : e.verdict emitted = .deliver) :
    Owes p all (before ++ [x]) (if p x then emitted + 1 else emitted) total
      (e.advance (all[·]?)) := by
  obtain ⟨hneeded, hmore⟩ := h.countP_lt hlength hahead hverdict
  have hlonger := (h.prefix_ahead hahead).length_le
  have hbefore : before.countP p ≤ before.length := List.countP_le_length
  have hcounted := h.counted
  have hcount : (before ++ [x]).countP p = before.countP p + if p x then 1 else 0 := by
    rw [List.countP_append, List.countP_singleton]
  have hemitted : (if p x then emitted + 1 else emitted : UInt64).toNat =
      emitted.toNat + if p x then 1 else 0 := by
    -- There are too few items for the count to wrap.
    rw [List.length_append, List.length_singleton] at hlonger
    split
    · rw [UInt64.toNat_add, UInt64.toNat_one]
      omega
    · rfl
  refine ⟨h.prefix_ahead hahead, ?_, ?_, h.staying, ?_, ?_, ?_⟩
  · simp [advance, h.pulled]
  · simp [advance, h.pulled]
  · rw [hemitted, hcount]
    omega
  · have hbalance := h.balance
    rw [hemitted, hcount]
    change _ ≤ min e.requested.toNat total ∨ _ ≤ e.requested.toNat ∧ e.requested.toNat + _ = _
    split <;> omega
  · intro init y heq
    obtain ⟨rfl, -⟩ := List.append_inj' heq rfl
    exact hneeded

/-- After a settlement no demand is outstanding. -/
theorem settle (h : Owes p all before emitted total e) (hverdict : e.verdict emitted = .settle) :
    (e.settle emitted).requested = 0 ∧ Owes p all before 0 total (e.settle emitted) := by
  obtain ⟨hbounded, rfl⟩ := closed_of_settle hverdict
  have hzero : (e.settle e.requested).requested = 0 := UInt64.sub_self _
  refine ⟨hzero, h.isPrefix, h.pulled, h.ahead, h.staying, Nat.zero_le _, .inr ?_, h.needed⟩
  have hbalance := h.balance
  have hbounded : e.requested.toNat ≠ Demand.unbounded.toNat := by
    rwa [ne_eq, UInt64.toNat_inj]
  have hrequested := e.requested.toNat_lt
  rw [hzero, UInt64.toNat_zero]
  rw [Demand.toNat_unbounded] at hbalance hbounded
  omega

/-- An emission whose loop runs has not been cancelled. -/
theorem verdict_ne_stop (h : Owes p all before emitted total e) : e.verdict emitted ≠ .stop := by
  unfold verdict
  split <;> simp [h.staying]

/-- While no demand is outstanding, just what was asked for has been taken. -/
theorem countP_eq (h : Owes p all before 0 total e) (hrequested : e.requested = 0) :
    before.countP p = total := by
  have hbalance := h.balance
  rw [hrequested, UInt64.toNat_zero, Demand.toNat_unbounded] at hbalance
  omega

/-- Everything handed out is the shortest prefix with as many items as were asked for, or it is all
there is. -/
theorem fills (h : Owes p all before emitted total e)
    (henough : before.countP p = total ∨ before = all) : Fills p total all before where
  isPrefix := h.isPrefix
  enough := henough.imp_left fun heq => heq.symm.le
  shortest := by
    intro other hother hcount
    rcases List.prefix_or_prefix_of_prefix h.isPrefix hother with hle | hle
    · exact hle
    obtain ⟨tail, htail⟩ := hle
    rcases List.eq_nil_or_concat tail with rfl | ⟨init, x, rfl⟩
    · rw [← htail, List.append_nil]
    · -- A shorter prefix would not have been enough.
      have hneeded := h.needed (other ++ init) x (by rw [← htail, List.append_assoc]; simp)
      rw [List.countP_append] at hneeded
      omega

end Owes

end Emission

end Wiretap

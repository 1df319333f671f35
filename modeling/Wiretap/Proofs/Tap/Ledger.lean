import Mathlib.Data.List.Perm.Subperm
import Wiretap.Proofs.Tap.Life

/-!
# The ledger of faults

A fault is first reported to the listener and then leaves: it is sent to the receiver, or dropped.
A ledger keeps the faults that have not been reported and those that have been reported and have
not left, the latest first. Posting a deed fails if the deed reports or lets go a fault that is not
due, so a ledger that goes through accounts for every fault exactly once and in this order. A
listener that could not be created is nobody to report to.
-/

namespace Wiretap

variable {ε : Type}

/-- The listener's fault in an error that is dropped, if there is one. -/
def Undelivered.fault? : Undelivered ε → Option Fault
  | .fault f => some f
  | .tapped e => e.fault?
  | _ => none

/-- The listener's fault in a signal, if there is one. -/
def Signal.fault? {α : Type} : Signal α (TapError ε) → Option Fault
  | .error e => e.fault?
  | _ => none

namespace Tap

variable {α : Type}

namespace Deed

/-- The fault of a hook, or of the augmentation of the context, that failed. -/
@[simp] def failure? : Deed α ε → Option Fault
  | .acted (.ran h (some cause)) => some (h.fault cause)
  | .acted (.augmented (some cause)) => some ⟨.augmentation, cause⟩
  | _ => none

/-- The fault of a listener that could not be created. -/
@[simp] def uncreated? : Deed α ε → Option Fault
  | .created (some cause) => some ⟨.creation, cause⟩
  | _ => none

/-- The fault that the listener was told. -/
@[simp] def report? : Deed α ε → Option Fault
  | .acted (.reported f) => some f
  | _ => none

/-- The fault that was dropped. -/
@[simp] def dropped? : Deed α ε → Option Fault
  | .acted (.droppedError e) => e.fault?
  | _ => none

/-- The fault that was sent to the receiver. -/
@[simp] def surfaced? : Deed α ε → Option Fault
  | .sent s => s.fault?
  | .notSetUp f => some f
  | _ => none

/-- The fault that left, one way or the other. -/
@[simp] def left? (d : Deed α ε) : Option Fault := d.dropped? <|> d.surfaced?

end Deed

/-- Faults on their way. -/
@[ext]
structure Ledger where
  /-- Not reported yet. -/
  unreported : List Fault
  /-- Reported, or not reportable, and not gone yet. -/
  unsettled : List Fault

namespace Ledger

/-- Nothing is due. -/
def empty : Ledger := ⟨[], []⟩

/-- The fault due next is reported. -/
def report (k : Ledger) (f : Fault) : Option Ledger :=
  match k.unreported with
  | g :: rest => if g = f then some ⟨rest, f :: k.unsettled⟩ else none
  | [] => none

/-- The fault due next leaves. -/
def settle (k : Ledger) (f : Fault) : Option Ledger :=
  match k.unsettled with
  | g :: rest => if g = f then some ⟨k.unreported, rest⟩ else none
  | [] => none

/-- Enter a deed. -/
def post (k : Ledger) (d : Deed α ε) : Option Ledger :=
  match d.failure?, d.uncreated?, d.report?, d.left? with
  | some f, _, _, _ => some { k with unreported := f :: k.unreported }
  | none, some f, _, _ => some { k with unsettled := f :: k.unsettled }
  | none, none, some f, _ => k.report f
  | none, none, none, some f => k.settle f
  | none, none, none, none => some k

/-- Enter deeds in order. -/
def run (k : Ledger) (deeds : List (Deed α ε)) : Option Ledger := deeds.foldlM post k

@[simp] theorem run_nil (k : Ledger) : k.run ([] : List (Deed α ε)) = some k := rfl

@[simp] theorem run_cons (k : Ledger) (d : Deed α ε) (deeds : List (Deed α ε)) :
    k.run (d :: deeds) = (k.post d).bind (·.run deeds) := rfl

@[simp] theorem run_append (k : Ledger) (first second : List (Deed α ε)) :
    k.run (first ++ second) = (k.run first).bind (·.run second) := by
  simp [run, List.foldlM_append]

end Ledger

/-- The faults of hooks that failed. -/
def failures (deeds : List (Deed α ε)) : List Fault := deeds.filterMap Deed.failure?

/-- The faults of listeners that could not be created. -/
def uncreated (deeds : List (Deed α ε)) : List Fault := deeds.filterMap Deed.uncreated?

/-- The faults that the listener was told. -/
def reports (deeds : List (Deed α ε)) : List Fault := deeds.filterMap Deed.report?

/-- The faults that were dropped. -/
def drops (deeds : List (Deed α ε)) : List Fault := deeds.filterMap Deed.dropped?

/-- The faults that went to the receiver. -/
def surfaced (deeds : List (Deed α ε)) : List Fault := deeds.filterMap Deed.surfaced?

theorem failure?_origin {d : Deed α ε} {f : Fault} (h : d.failure? = some f) :
    f.origin ≠ .creation := by
  rcases d with _ | _ | (⟨hook, _ | cause⟩ | (_ | cause) | _ | _ | _ | _) | _ | _ | _ <;>
    cases h <;>
    exact nofun

theorem uncreated?_origin {d : Deed α ε} {f : Fault} (h : d.uncreated? = some f) :
    f.origin = .creation := by
  rcases d with (_ | cause) | _ | _ | _ | _ | _ <;> cases h
  rfl

/-- What went to the receiver is what the receiver was given. -/
theorem surfaced_eq (deeds : List (Deed α ε)) :
    surfaced deeds = (given deeds).filterMap Signal.fault? := by
  induction deeds with
  | nil => rfl
  | cons d deeds ih =>
      have hone : (d.surfaced?).toList = d.given.filterMap Signal.fault? := by
        cases d with
        | sent s => cases hs : s.fault? <;> simp [Deed.given, hs]
        | _ => rfl
      rw [given_cons, List.filterMap_append, ← hone, ← ih, surfaced, surfaced,
        filterMap_cons_toList]

namespace Ledger

variable {k k' : Ledger} {deeds : List (Deed α ε)}

/-- What goes through the ledger does so from the first deed on. -/
theorem run_of_isPrefix {first : List (Deed α ε)} (h : k.run deeds = some k')
    (hfirst : first <+: deeds) : ∃ between, k.run first = some between := by
  obtain ⟨rest, rfl⟩ := hfirst
  rw [run_append] at h
  obtain ⟨between, hrun, -⟩ := Option.bind_eq_some_iff.mp h
  exact ⟨between, hrun⟩

theorem report_eq_some {f : Fault} (h : k.report f = some k') :
    k.unreported = f :: k'.unreported ∧ k'.unsettled = f :: k.unsettled := by
  unfold report at h
  split at h
  next g rest hunreported =>
    split at h
    next hsame =>
      cases h
      exact ⟨hsame ▸ hunreported, rfl⟩
    next => cases h
  next => cases h

theorem settle_eq_some {f : Fault} (h : k.settle f = some k') :
    k'.unreported = k.unreported ∧ k.unsettled = f :: k'.unsettled := by
  unfold settle at h
  split at h
  next g rest hunsettled =>
    split at h
    next hsame =>
      cases h
      exact ⟨rfl, hsame ▸ hunsettled⟩
    next => cases h
  next => cases h

/-- One deed moves one fault at most. -/
theorem post_perm {d : Deed α ε} (h : k.post d = some k') :
    (d.failure?.toList ++ k.unreported).Perm (d.report?.toList ++ k'.unreported) ∧
      (d.report?.toList ++ d.uncreated?.toList ++ k.unsettled).Perm
        (d.surfaced?.toList ++ d.dropped?.toList ++ k'.unsettled) := by
  cases d with
  | created failure => cases failure <;> cases h <;> simp
  | received input =>
      cases h
      simp
  | acted act =>
      cases act with
      | ran hook failure => cases failure <;> cases h <;> simp
      | augmented failure => cases failure <;> cases h <;> simp
      | reported f =>
          obtain ⟨hunreported, hunsettled⟩ := report_eq_some h
          simp [hunreported, hunsettled]
      | droppedError e =>
          cases hfault : e.fault? with
          | none =>
              simp only [post, Deed.left?, Deed.failure?, Deed.uncreated?, Deed.report?,
                Deed.dropped?, Deed.surfaced?, hfault] at h
              cases h
              simp [hfault]
          | some f =>
              simp only [post, Deed.left?, Deed.failure?, Deed.uncreated?, Deed.report?,
                Deed.dropped?, Deed.surfaced?, hfault] at h
              obtain ⟨hunreported, hunsettled⟩ := settle_eq_some h
              simp [hfault, hunreported, hunsettled]
      | droppedItem x =>
          cases h
          simp
      | ignoredHandle =>
          cases h
          simp
  | sent s =>
      cases hfault : s.fault? with
      | none =>
          simp only [post, Deed.left?, Deed.failure?, Deed.uncreated?, Deed.report?,
            Deed.dropped?, Deed.surfaced?, hfault] at h
          cases h
          simp [hfault]
      | some f =>
          simp only [post, Deed.left?, Deed.failure?, Deed.uncreated?, Deed.report?,
            Deed.dropped?, Deed.surfaced?, hfault] at h
          obtain ⟨hunreported, hunsettled⟩ := settle_eq_some h
          simp [hfault, hunreported, hunsettled]
  | returned b =>
      cases h
      simp
  | notSetUp f =>
      obtain ⟨hunreported, hunsettled⟩ := settle_eq_some h
      simp [hunreported, hunsettled]

/-- What goes through the ledger balances. -/
theorem run_perm (h : k.run deeds = some k') :
    (failures deeds ++ k.unreported).Perm (reports deeds ++ k'.unreported) ∧
      (reports deeds ++ uncreated deeds ++ k.unsettled).Perm
        (surfaced deeds ++ drops deeds ++ k'.unsettled) := by
  induction deeds generalizing k with
  | nil =>
      cases h
      exact ⟨.refl _, .refl _⟩
  | cons d deeds ih =>
      rw [run_cons] at h
      obtain ⟨between, hpost, hrun⟩ := Option.bind_eq_some_iff.mp h
      have hone := post_perm hpost
      have hrest := ih hrun
      simp only [failures, reports, uncreated, surfaced, drops, filterMap_cons_toList,
        List.perm_iff_count, List.count_append] at hone hrest ⊢
      constructor
      · intro f
        have hone := hone.1 f
        have hrest := hrest.1 f
        omega
      · intro f
        have hone := hone.2 f
        have hrest := hrest.2 f
        omega

end Ledger

end Tap

end Wiretap

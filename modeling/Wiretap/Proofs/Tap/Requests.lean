import Wiretap.Proofs.Tap.Parting

/-!
# Requests through a tap

A tap weighs every request of its receiver for at least one item, by running the hook for it. If the
hook succeeds, the request goes on to the source as it is at the end of the turn; nothing else that
the tap does weighs a request or asks the source for items.
-/

namespace Wiretap

variable {K : Kinds} {σ α ε : Type}

/-- The number of items that are asked for. -/
def Control.asked? : Control → Option UInt64
  | .request n => some n
  | .cancel => none

namespace Tap

/-- The number of items that the tap is asked for. -/
def Input.asked? : Input α ε → Option UInt64
  | .control c => c.asked?
  | .signal _ => none

/-- The request that is weighed, and the failure of the hook, if it failed. -/
def Act.weighed? : Act α ε → Option (UInt64 × Option Cause)
  | .ran (.request n) failure => some (n, failure)
  | _ => none

def Deed.asked? : Deed α ε → Option UInt64
  | .received input => input.asked?
  | _ => none

def Deed.weighed? : Deed α ε → Option (UInt64 × Option Cause)
  | .acted act => act.weighed?
  | _ => none

/-- The requests that the receiver has made of the tap, in order. -/
def requested (deeds : List (Deed α ε)) : List UInt64 := deeds.filterMap Deed.asked?

/-- The requests that the tap has weighed, in order, each with the outcome. -/
def weighed (deeds : List (Deed α ε)) : List (UInt64 × Option Cause) :=
  deeds.filterMap Deed.weighed?

/-- The requests for which the hook succeeded, in order. -/
def granting (deeds : List (Deed α ε)) : List UInt64 :=
  ((weighed deeds).filter fun request => request.2.isNone).map Prod.fst

section

variable {first second : List (Deed α ε)}

@[simp] theorem requested_append :
    requested (first ++ second) = requested first ++ requested second := List.filterMap_append

@[simp] theorem weighed_append : weighed (first ++ second) = weighed first ++ weighed second :=
  List.filterMap_append

@[simp] theorem granting_append :
    granting (first ++ second) = granting first ++ granting second := by
  simp [granting]

end

namespace Turn

variable {turn : Turn σ α ε}

theorem requested_deeds (turn : Turn σ α ε) : requested turn.deeds = [] := by
  refine List.filterMap_eq_nil_iff.mpr fun d hd => ?_
  rcases List.mem_append.mp hd with hd | hd
  · obtain ⟨act, -, rfl⟩ := List.mem_map.mp hd
    rfl
  · revert hd
    cases turn.next <;> simp +contextual [Next.deeds, Deed.asked?]

theorem weighed_deeds (turn : Turn σ α ε) :
    weighed turn.deeds = turn.acts.filterMap Act.weighed? := by
  have hnext : weighed turn.next.deeds = [] := by cases turn.next <;> rfl
  rw [Turn.deeds, weighed_append, hnext, List.append_nil, weighed, List.filterMap_map]
  rfl

/-- A turn after the tap has been asked for items, or for nothing. -/
structure Forwards (asked : Option UInt64) (turn : Turn σ α ε) : Prop where
  /-- What is asked for is weighed, if it is anything. -/
  weighed : (weighed turn.deeds).map Prod.fst = asked.toList.filter Demand.isPositive
  /-- The source is asked, by its handle, for what the hook has granted, and for nothing else. -/
  passed : match turn.next with
    | .up h (.request n) _ => turn.tap.source = some h ∧ granting turn.deeds = [n]
    | _ => granting turn.deeds = []

/-- A turn that weighs nothing and asks for nothing. -/
theorem Forwards.of_none (hacts : ∀ act ∈ turn.acts, act.weighed? = none)
    (hup : ∀ h c r, turn.next = .up h c r → c = .cancel) : turn.Forwards none := by
  have hnone : Tap.weighed turn.deeds = [] := by
    rw [weighed_deeds]
    exact List.filterMap_eq_nil_iff.mpr hacts
  refine ⟨by rw [hnone]; rfl, ?_⟩
  rw [granting, hnone]
  split
  next h n r hnext => cases hup h _ r hnext
  next => rfl

theorem Candid.forwards {attached : Bool} (h : turn.Candid attached) : turn.Forwards none := by
  refine .of_none (fun act hact => ?_) h.up
  have hfree := h.acts act hact
  cases act with
  | ran hook failure => cases hook <;> first | rfl | cases hfree
  | _ => rfl

/-- In a cancellation no request is weighed. -/
theorem Parting.forwards {attached : Bool} {doings : List (Doing α ε)}
    (h : turn.Parting .cancel attached doings) : turn.Forwards none := by
  have hdone : ∀ act, .act act ∈ doings ++ turn.doings → act.weighed? = none := by
    cases h with
    | waits hnext hsource hattached hawaits =>
        generalize doings ++ turn.doings = done at hawaits
        cases hawaits <;> simp [Act.weighed?]
    | tells hnext hdetached hattached hparts hdoings =>
        rw [hdoings, hattached]
        cases hparts <;> simp [Act.weighed?, telling]
    | ends hnext hdetached hsilent hparts hdoings =>
        rw [hdoings]
        cases attached <;> cases hparts <;> simp [Act.weighed?, telling]
  refine .of_none (fun act hact => hdone act ?_) fun handle c r hup => ?_
  · exact List.mem_append_right _ (List.mem_append_left _ (List.mem_map_of_mem hact))
  · cases h with
    | waits hnext =>
        rw [hnext] at hup
        cases hup
        rfl
    | tells hnext =>
        rw [hnext] at hup
        cases hup
    | ends hnext =>
        rw [hnext] at hup
        cases hup

end Turn

variable {t : Tap σ} {h : Handle} (L : Listener σ α ε)

/-- The receiver asks for items. -/
theorem onRequest_forwards (hsource : t.source = some h) (n : UInt64) :
    (t.onRequest L n).Forwards (some n) := by
  unfold onRequest
  split
  next hpositive =>
    unfold runHook
    rcases L.run t.listener (.request n : Hook α ε) with ⟨listener, _ | cause⟩
    · simp only [hsource]
      constructor
      · simp [Turn.weighed_deeds, Turn.after, Act.weighed?, hpositive]
      · simp [granting, Turn.weighed_deeds, Turn.after, Act.weighed?]
    · simp only [fail, cancelSource, hsource]
      constructor
      · simp [Turn.weighed_deeds, Turn.after, Act.weighed?, hpositive]
      · simp [granting, Turn.weighed_deeds, Turn.after, Act.weighed?]
  next hzero =>
    have hnone := (dropError_candid (t := t)
      (.violation (.nonPositiveRequest n) : Undelivered ε)).forwards (α := α)
    refine ⟨hnone.weighed.trans ?_, hnone.passed⟩
    simp [hzero]

/-- A tap next to the source is called. -/
theorem serve_forwards (self : Handle) (conditional : Bool) {pending : List (Resume α ε)}
    {deeds : List (Deed α ε)} {input : Input α ε}
    (hinput : Courteous 0 ⟨t, pending, deeds⟩ input) :
    (t.serve L self conditional input).Forwards input.asked? := by
  cases input with
  | signal s => exact (receive_candid L self conditional s).forwards
  | control c =>
      obtain ⟨handle, hsource⟩ := Life.source_of_courteous hinput
      cases c with
      | cancel => exact (onCancel_parting L hsource).forwards
      | request n => exact onRequest_forwards L hsource n

/-- A tap goes on. -/
theorem resume_forwards {r : Resume α ε} (b : Bool) (hsource : t.source ≠ none) :
    (t.resume L r b).Forwards none := by
  by_cases hreleased : r = .released
  · obtain ⟨handle, hhandle⟩ := Option.ne_none_iff_exists'.mp hsource
    subst hreleased
    exact (resume_parting L hhandle b .released).forwards
  · cases hexcuse : r.isExcuse with
    | false => exact (resume_candid L b hexcuse hreleased).forwards
    | true =>
        cases r with
        | excused f => exact .of_none (by simp [resume, down]) (by simp [resume, down])
        | _ => cases hexcuse

end Tap

end Wiretap

import Wiretap.Proofs.Machine.Driving
import Wiretap.Scenario.Kinds

/-!
# The fast path against the plain path

Behind one tap on a source driven by hand, a client that refuses some items can be offered a whole
list, and a client that refuses nothing can be sent what the other one would take. The listener
hears the same of it, and so do the clients, until the hook for items fails: the item of the failure
reaches the client that was offered it, and only that one. What is offered after that is swallowed.
-/

namespace Wiretap

section

variable {K : Kinds} {σ α ε : Type}

namespace Stage

/-- A client that can refuse items subscribes and is offered items, one after the other. -/
def offering (P : Plan σ α ε) (context ambient : Context) (xs : List α) : Stage σ α ε :=
  .start P ambient (.move (.subscribe ⟨context, true⟩) :: xs.map fun x => .tell (.tryNext x))

/-- A client that cannot refuse items subscribes and is sent items, one after the other. -/
def sending (P : Plan σ α ε) (context ambient : Context) (xs : List α) : Stage σ α ε :=
  .start P ambient (.move (.subscribe ⟨context, false⟩) :: xs.map fun x => .tell (.send (.next x)))

end Stage

/-- Offering all items and sending those that are accepted, up to the first failure, both come to an
end, and they agree. -/
theorem TapPlan.FailsOn.offers_agree {p : TapPlan σ α ε} {f : α → Bool} (hp : p.FailsOn f)
    (adapt : TapError ε → ε) (context ambient : Context) (demands : List UInt64)
    (accepts : α → Bool) (xs : List α) :
    let P : Plan σ α ε := .driven p adapt
    let manner : Manner α ε := .passive demands accepts
    let offering := Stage.offering P context ambient xs
    let sending := Stage.sending P context ambient (Tap.upTo f (xs.filter accepts))
    (∃ fast, offering.Ends P manner fast) ∧ (∃ plain, sending.Ends P manner plain) ∧
      ∀ fast plain, offering.Ends P manner fast → sending.Ends P manner plain →
        Tap.Agree f accepts [.subscribe (.tap 0)] xs (doings (happened fast.past))
          (doings (happened plain.past)) fast.answers := by
  intro P manner offering sending
  obtain ⟨t, log, inside, ht, hlog, hinside, hstart⟩ := hp.start_ready context ambient demands
  obtain ⟨offered, answers, u, sent, given, v, hoffers, hsends, hagree⟩ :=
    ht.serves_agree (.tap 0) accepts (hp.listener inside) xs
  obtain ⟨s, hs, hready, hagenda⟩ := hstart adapt accepts true
    (xs.map fun x => .tell (.tryNext x))
  obtain ⟨s', hs', hready', hagenda'⟩ := hstart adapt accepts false
    ((Tap.upTo f (xs.filter accepts)).map fun x => .tell (.send (.next x)))
  obtain ⟨fast, hfast, hoffered⟩ := hready.tells adapt demands (xs.map .tryNext)
    (by rw [hagenda, List.map_map]; rfl) hinside
    (by rw [List.map_map]; exact hoffers)
  obtain ⟨plain, hplain, hsent⟩ := hready'.tells adapt demands
    ((Tap.upTo f (xs.filter accepts)).map fun x => .send (.next x))
    (by rw [hagenda', List.map_map]; rfl) hinside (by rw [List.map_map]; exact hsends)
  have hfastEnds : offering.Ends P manner fast := ⟨hs.trans hfast.1, hfast.2⟩
  have hplainEnds : sending.Ends P manner plain := ⟨hs'.trans hplain.1, hplain.2⟩
  refine ⟨⟨fast, hfastEnds⟩, ⟨plain, hplainEnds⟩, ?_⟩
  intro fast' plain' hfast' hplain'
  rw [← hfastEnds.unique hfast', ← hplainEnds.unique hplain', hoffered.log, hsent.log,
    hoffered.answers, List.nil_append]
  exact hagree.prepend hlog

end

open scoped Scenario

/-- A tap whose hook for items fails on those that `f` marks. -/
def TapPlan.fussy {α ε : Type} (f : α → Bool) : TapPlan Unit α ε where
  scope := .inert
  create _ _ _ := .ok ()
  listener _ :=
    { run := fun s h => (s, match h with
        | .next x => if f x then some (.message "do_on_next") else none
        | _ => none)
      augment := fun s context => (s, .ok context)
      notice := fun s _ => s }

theorem TapPlan.fussy_failsOn {α ε : Type} (f : α → Bool) :
    (TapPlan.fussy (ε := ε) f).FailsOn f where
  creates := fun _ _ _ => ⟨(), rfl⟩
  listener := fun _ =>
    { next := fun _ x => by cases hx : f x <;> simp [fussy, hx]
      others := fun _ h hh => by cases h <;> first | rfl | cases hh
      augments := fun _ context => ⟨context, rfl⟩ }

/-- Of four items the second one is refused, and the hook fails on the third one. -/
theorem TapPlan.FailsOn.offers_agree_fussy : ∃ fast plain : Stage Unit Nat Nat,
    (Stage.offering (.driven (.fussy (· == 3)) fun _ => 0) .empty .empty [1, 2, 3, 4]).Ends
      (.driven (.fussy (· == 3)) fun _ => 0) (.passive [5] (· != 2)) fast ∧
    (Stage.sending (.driven (.fussy (· == 3)) fun _ => 0) .empty .empty [1, 3]).Ends
      (.driven (.fussy (· == 3)) fun _ => 0) (.passive [5] (· != 2)) plain ∧
    fast.answers = [true, false, true, true] ∧
    Tap.seen (doings (happened fast.past)) = [1, 3] ∧
    ∃ fault, Tap.kept (· != 2) (doings (happened fast.past)) =
        [.subscribe (.tap 0), .next 1, .next 3, .error (.listener fault)] ∧
      Tap.kept (· != 2) (doings (happened plain.past)) =
        [.subscribe (.tap 0), .next 1, .error (.listener fault)] := by
  obtain ⟨⟨fast, hfast⟩, ⟨plain, hplain⟩, hagree⟩ :=
    (TapPlan.fussy_failsOn (ε := Nat) (· == 3)).offers_agree (fun _ => 0) .empty .empty [5]
      (· != 2) [1, 2, 3, 4]
  have h := hagree fast plain hfast hplain
  obtain ⟨ending, hkept, hkept', hending⟩ := h.trace
  obtain ⟨cause, rfl⟩ := hending
  exact ⟨fast, plain, hfast, hplain, h.answers, h.items, _, hkept, hkept'⟩

end Wiretap

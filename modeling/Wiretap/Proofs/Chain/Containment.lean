import Wiretap.Proofs.Machine.Courtesy
import Wiretap.Proofs.Machine.Follow
import Wiretap.Proofs.Tap.Containment
import Wiretap.Scenario.Kinds

/-!
# Faults that end a stream

A tap of a chain whose hook fails on an item, on the completion or on a request cancels its source
before it passes the fault on. The source may be another tap with faults of its own. What it
answers the cancellation with gets past the fault, unless the stream had already been completed.
-/

namespace Wiretap

section

variable {K : Kinds} {σ α ε : Type}

namespace Play

variable {P : Plan σ α ε} {T U V : State σ α ε} {history later : List (Entry α ε)}
  {events : List (Event α ε)} {ambient : Context} {line place : Nat} {t : Tap σ}
  {h : Hook α ε} {cause : Cause}

/-- When such a hook fails and the tap has a receiver, the receiver gets an error next. It is the
fault of the hook if that was the hook for the completion or no error comes before, and only then.
An error can only come before from another tap. -/
theorem fault_contained (hplay : Play P (.start P ambient) history T)
    (hstep : T.step? P = some (U, events)) (hhook : h.isContained = true)
    (hfails : .acted (.ran h (some cause)) ∈ deeds line place events)
    (htap : T.tap? line place = some t) (hattached : t.attached = true)
    (hlater : Play P U later V) :
    (∀ s ∈ (Tap.sent (deeds line place (events ++ happened later))).head?, s.isError = true ∧
      (s = .error (.listener (h.fault cause)) ↔ h.isComplete = true ∨
        Tap.interrupted (deeds line place (events ++ happened later)) = false)) ∧
    (Tap.interrupted (deeds line place (events ++ happened later)) = true → 0 < place) ∧
    (V.isIdle = true → Tap.sent (deeds line place (events ++ happened later)) ≠ []) := by
  have hcivil := (State.Civil.start ambient).play hplay
  rw [List.nil_append] at hcivil
  obtain ⟨p, hplan, hlived⟩ := hcivil.lived htap
  have hstepped := State.step?_stepped hstep
  -- The step in which the hook fails is a turn of this tap.
  obtain ⟨u, hu, ⟨-, -, hnone⟩ | hturn⟩ := hcivil.turn hplan htap hstepped
  · rw [hnone] at hfails
    cases hfails
  obtain ⟨first, hsent, hcalm, hcontained⟩ :=
    (Tap.Life.Lived.ending hlived).contains hturn hattached hhook rfl hfails
  -- What becomes of the fault shows in the rest of the tap's life.
  have hafter := hcivil.step hstepped
  rw [← deeds_append] at hcontained
  obtain ⟨-, v, -, hlife⟩ := hafter.lives hplan hu hlater
  obtain ⟨since, hdeeds, herror, hplace, hidle⟩ := (hcontained.steps hlife).verdict
  have hsince : deeds line place (events ++ happened later) = first ++ since := by
    dsimp only at hdeeds
    rw [List.append_assoc, deeds_append, List.append_assoc] at hdeeds
    exact List.append_cancel_left hdeeds
  have hsame : Tap.sent (first ++ since) = Tap.sent since := by
    rw [Tap.sent_append, hsent, List.nil_append]
  have hcame : Tap.interrupted (first ++ since) = Tap.interrupted since := by
    rw [Tap.interrupted_append, hcalm, hsent]
    rfl
  rw [hsince, hsame, hcame]
  refine ⟨herror, hplace, fun hrest => hidle ?_⟩
  obtain ⟨hstack, -⟩ := State.isIdle_iff.mp hrest
  simp [State.pending, hstack]

end Play

end

open scoped Scenario

/-- A tap fails on a request and the one before it on the cancellation. The receiver gets an error,
but not that of the request. -/
theorem Play.fault_contained_brittle : ∃ history T U events later V,
    Play (.brittlePair "do_on_request") (.start (.brittlePair "do_on_request") .empty) history T ∧
    T.step? (.brittlePair "do_on_request") = some (U, events) ∧
    .acted (.ran (.request 1) (some (.message "do_on_request"))) ∈ deeds 0 1 events ∧
    Play (.brittlePair "do_on_request") U later V ∧ V.isIdle = true ∧
    ∃ s, (Tap.sent (deeds 0 1 (events ++ happened later))).head? = some s ∧ s.isError = true ∧
      s ≠ .error (.listener ⟨.hook "do_on_request", .message "do_on_request"⟩) := by
  obtain ⟨history, S, hplay, hallows, T, hmove, ⟨U, events⟩, hstep, hfails, hopen, ⟨later, V⟩,
      hfollow, hidle, hcame⟩ := Play.of_follow
    (P := .brittlePair "do_on_request") (S := .start (.brittlePair "do_on_request") .empty) 20
    [.subscribe .plain, .signal 0 (.subscribe (.external 0)), .answer true]
    (fun _ S => S.allows (.brittlePair "do_on_request") (.control 0 0 (.request 1)) = true ∧
      ∃ T ∈ S.move? (.brittlePair "do_on_request") (.control 0 0 (.request 1)),
      ∃ outcome ∈ T.step? (.brittlePair "do_on_request"),
        .acted (.ran (.request 1) (some (.message "do_on_request"))) ∈ deeds 0 1 outcome.2 ∧
        (T.tap? 0 1).any (·.attached) = true ∧
      ∃ rest ∈ outcome.1.follow (.brittlePair "do_on_request") 20 [.answer true, .answer true],
        rest.2.isIdle = true ∧
        Tap.interrupted (deeds 0 1 (outcome.2 ++ happened rest.1)) = true)
    (by decide +kernel)
  obtain ⟨t, htap, hattached⟩ := (Option.any_eq_true _ _).mp hopen
  have hbefore := hplay.move hallows hmove
  have hlater := Play.follow hfollow
  obtain ⟨hnext, -, hsome⟩ :=
    hbefore.fault_contained hstep rfl hfails htap hattached hlater
  have hhead := List.head?_eq_some_head (hsome hidle)
  obtain ⟨herror, hfault⟩ := hnext _ hhead
  refine ⟨_, T, U, events, later, V, hbefore, hstep, hfails, hlater, hidle, _, hhead, herror, ?_⟩
  intro hsame
  rcases hfault.mp hsame with hcomplete | hcalm
  · cases hcomplete
  · rw [hcame] at hcalm
    cases hcalm

end Wiretap

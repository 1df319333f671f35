import Wiretap.Proofs.Machine.Follow
import Wiretap.Proofs.Machine.Uses
import Wiretap.Proofs.Tap.Standing
import Wiretap.Scenario.Kinds

/-!
# Taps stand as they should

What is known of the flags of a tap, and of the handle of its source, holds in every run and at
every moment: when nothing is in progress the flags agree, and nothing that they have once said is
ever unsaid.
-/

namespace Wiretap

section

variable {K : Kinds} {σ α ε : Type} {P : Plan σ α ε} {S T U : State σ α ε} {line place : Nat}
  {history later : List (Entry α ε)} {t : Tap σ}

namespace State

theorem Peopled.sound {before : List (Event α ε)} (h : S.Peopled P (fun _ => .any) before)
    (htap : S.tap? line place = some t) : t.standing.Sound (S.pending line place) := by
  rcases h.fate line place with ⟨hnone, -, -⟩ | ⟨-, hnone, -, -, -⟩ | ⟨-, hsome, hlived⟩
  · rw [hnone] at htap
    cases htap
  · rw [hnone] at htap
    cases htap
  · rw [hsome] at htap
    cases htap
    exact hlived.sound

/-- A step takes nothing back. -/
theorem Peopled.step_onward {before events : List (Event α ε)} (hassembled : S.Assembled P)
    (h : S.Peopled P (fun _ => .any) before) (hstep : Stepped P S U events)
    (htap : S.tap? line place = some t) :
    ∃ u, U.tap? line place = some u ∧ t.standing.Onward u.standing := by
  have hsame : U.tap? line place = S.tap? line place →
      ∃ u, U.tap? line place = some u ∧ t.standing.Onward u.standing := fun hsame =>
    ⟨t, hsame.trans htap, .refl _⟩
  rcases step_progress hassembled hstep line place with
    ⟨hnow, -, -⟩ | ⟨hplan, hbefore, hnow, hturn⟩ | ⟨hfocus, -, -, -, -⟩ | ⟨-, hnow, -, -, -⟩
  · exact hsame hnow
  · rw [htap] at hbefore
    cases hbefore
    have hlife := hturn .any [] fun _ _ => trivial
    exact ⟨_, hnow, (hlife.sound (h.sound htap)).1⟩
  · -- A tap is only set up where there is none.
    rw [(h.vacant hassembled hfocus).1] at htap
    cases htap
  · exact hsame hnow

end State

/-- Later in a run nothing has been taken back. -/
theorem Run.onward (hbegins : T.Begins P) (hrun : Run P T history S) (hlater : Run P S later U)
    (htap : S.tap? line place = some t) :
    ∃ u, U.tap? line place = some u ∧ t.standing.Onward u.standing := by
  induction hlater with
  | refl => exact ⟨t, htap, .refl _⟩
  | step hlater hstep ih =>
      obtain ⟨u, hu, honward⟩ := ih
      have hsofar := hrun.trans hlater
      obtain ⟨v, hv, hnext⟩ := (hbegins.lives hsofar).step_onward (hbegins.assembled.run hsofar)
        (State.step?_stepped hstep) hu
      exact ⟨v, hv, honward.trans hnext⟩
  | move hlater hmove ih =>
      obtain ⟨u, hu, honward⟩ := ih
      have hline := State.lt_of_tap? (Option.isSome_of_eq_some hu)
      have hkept := (State.move_keeps (State.move?_moved hmove) hline place).1
      exact ⟨u, hkept.trans hu, honward⟩

/-- In every run, be it of a chain or of a single tap that has been set up by hand, whatever the
outside does and whichever hooks fail: when no call to a tap is in progress, the receiver has been
let go if and only if the subscription has ended or the last hook has been settled. In the middle of
a call, too, it is let go for no other reason, but it may be attached longer, and then the tap waits
for a cancellation because of a fault. Whatever happens later, the tap is still there and has the
handle that it had; the end, the settling of the last hook and the loss of the receiver are
final. -/
theorem Run.standing_sound (hbegins : T.Begins P) (hrun : Run P T history S)
    (htap : S.tap? line place = some t) :
    (S.pending line place = [] → (t.attached = false ↔ t.done = true ∨ t.finalized = true)) ∧
    (t.attached = false → t.done = true ∨ t.finalized = true) ∧
    (t.attached = true → t.done = true ∨ t.finalized = true →
      ∃ r ∈ S.pending line place, r.isFatal = true) ∧
    ∀ later U, Run P S later U → ∃ u, U.tap? line place = some u ∧
      (t.done = true → u.done = true) ∧ (t.finalized = true → u.finalized = true) ∧
      (t.attached = false → u.attached = false) ∧
      ∀ h, t.source = some h → u.source = some h := by
  have hsound := (hbegins.lives hrun).sound htap
  refine ⟨fun hidle => ?_, hsound.shut, hsound.owed, fun later U hlater => ?_⟩
  · rw [hidle] at hsound
    exact hsound.not_over
  · obtain ⟨u, hu, honward⟩ := hrun.onward hbegins hlater htap
    exact ⟨u, hu, honward.done, honward.finalized, honward.detached, honward.source⟩

end

open scoped Scenario

/-- The hook for the completion fails, so the tap cancels the handle that it has been given. As long
as that call is in progress the client is attached although the end has come. Then the client gets
the fault, and when nothing is in progress any more it has been let go. -/
theorem Run.standing_sound_brittle :
    (∃ history S t, Run (.brittle [["do_on_complete"]])
        (.startTap (.brittle [["do_on_complete"]]) .plain () .empty .empty) history S ∧
      S.tap? 0 0 = some t ∧ t.attached = true ∧ t.done = true ∧
      ∃ r ∈ S.pending 0 0, r.isFatal = true) ∧
    ∃ history S t, Run (.brittle [["do_on_complete"]])
        (.startTap (.brittle [["do_on_complete"]]) .plain () .empty .empty) history S ∧
      S.tap? 0 0 = some t ∧ t.source = some (.external 0) ∧ S.pending 0 0 = [] ∧
      (t.attached = false ↔ t.done = true ∨ t.finalized = true) ∧
      ∀ later U, Run (.brittle [["do_on_complete"]]) S later U → ∃ u, U.tap? 0 0 = some u ∧
        u.source = some (.external 0) := by
  constructor
  · obtain ⟨history, S, hplay, hcheck⟩ := Play.of_follow
      (P := .brittle [["do_on_complete"]])
      (S := .startTap (.brittle [["do_on_complete"]]) .plain () .empty .empty) 20
      [.signal 0 (.subscribe (.external 0)), .answer true, .signal 0 .complete]
      (fun _ S => (S.tap? 0 0).any (fun t => t.attached && t.done) = true) (by decide +kernel)
    obtain ⟨t, htap, hflags⟩ := (Option.any_eq_true _ _).mp hcheck
    obtain ⟨hattached, hdone⟩ := Bool.and_eq_true_iff.mp hflags
    have hsound := hplay.run.standing_sound (.startTap rfl .plain () .empty .empty) htap
    exact ⟨history, S, t, hplay.run, htap, hattached, hdone, hsound.2.2.1 hattached (.inl hdone)⟩
  · obtain ⟨history, S, hplay, hcheck, hidle⟩ := Play.of_follow
      (P := .brittle [["do_on_complete"]])
      (S := .startTap (.brittle [["do_on_complete"]]) .plain () .empty .empty) 20
      [.signal 0 (.subscribe (.external 0)), .answer true, .signal 0 .complete, .answer true,
        .answer true]
      (fun _ S => (S.tap? 0 0).any (fun t => t.source = some (.external 0)) = true ∧
        S.stack.isEmpty = true) (by decide +kernel)
    obtain ⟨t, htap, hsource⟩ := (Option.any_eq_true _ _).mp hcheck
    have hsource : t.source = some (.external 0) := of_decide_eq_true hsource
    have hpending : S.pending 0 0 = [] := by rw [State.pending, List.isEmpty_iff.mp hidle]; rfl
    have hsound := hplay.run.standing_sound (.startTap rfl .plain () .empty .empty) htap
    refine ⟨history, S, t, hplay.run, htap, hsource, hpending, hsound.1 hpending, ?_⟩
    intro later U hlater
    obtain ⟨u, hu, -, -, -, hkept⟩ := hsound.2.2.2 later U hlater
    exact ⟨u, hu, hkept _ hsource⟩

end Wiretap

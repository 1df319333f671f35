import Wiretap.Proofs.Machine.Follow
import Wiretap.Proofs.Machine.Uses
import Wiretap.Scenario.Kinds

/-!
# The first handle counts

A source should give its receiver one handle. A tap that is given more keeps to the first one for
all it asks, whatever has become of its subscription, and lets the others go.
-/

namespace Wiretap

section

variable {K : Kinds} {σ α ε : Type} {P : Plan σ α ε} {T S : State σ α ε}
  {history : List (Entry α ε)}

theorem Run.opens_once (hbegins : T.Begins P) (hrun : Run P T history S) (line place : Nat) :
    Tap.openings (deeds line place (happened history)) ≤ 1 := by
  rcases (hbegins.lives hrun).fate line place with
    ⟨-, -, hdeeds⟩ | ⟨-, -, -, hfails, hdeeds⟩ | ⟨-, -, hlived⟩
  · rw [hdeeds]
    exact Nat.zero_le 1
  · rw [hdeeds]
    cases hfails <;> exact Nat.zero_le 1
  · exact hlived.opens_once

/-- In every run, be it of a chain or of a single tap that has been set up by hand, and whatever the
outside does, a tap runs the hook for a handle once at most. It turns to the first handle that it
has been given with all it asks, except that it cancels those that come later; if they are distinct,
each of these is used just once, to cancel it. A step in which the tap does anything but receive a
later handle leads to no use of one. A call that brings a later handle leads to its cancellation at
once, and when that returns, the tap returns: neither step runs a hook or sends anything, and apart
from the scope, which is left as it was entered, they leave everything as it is. -/
theorem Run.first_handle_counts (hbegins : T.Begins P) (hrun : Run P T history S) (line : Nat)
    {place : Nat} (hplace : place < P.depth) :
    Tap.openings (deeds line place (happened history)) ≤ 1 ∧
    (∃ uses, RunUsing P T line place history uses S) ∧
    (∀ uses, RunUsing P T line place history uses S →
      (∀ u ∈ uses ++ S.usage line place,
        (Tap.handles (deeds line place (happened history))).head? = some u.1 ∨
          u.1 ∈ (Tap.handles (deeds line place (happened history))).tail ∧ u.2 = .cancel) ∧
      ((Tap.handles (deeds line place (happened history))).Nodup →
        ∀ h ∈ (Tap.handles (deeds line place (happened history))).tail,
          (uses ++ S.usage line place).filter (·.1 = h) = [(h, .cancel)])) ∧
    (∀ U events, S.step? P = some (U, events) →
      (Tap.handles (deeds line place (happened history)) = [] ∨
        ∀ h, S.focus ≠ .call (.tap line place (.subscribe h))) →
      ∀ u ∈ U.usage line place,
        (Tap.handles (deeds line place (happened history ++ events))).head? = some u.1) ∧
    (∀ h, Tap.handles (deeds line place (happened history)) ≠ [] →
      S.focus = .call (.tap line place (.subscribe h)) →
      ∃ inside guard, guard.release inside = S.ambient ∧
        S.step? P = some ({ S with
          ambient := inside
          stack := .tap line place guard .ignored :: S.stack
          focus := .call (.control line place h .cancel) },
          [.received line place (.signal (.subscribe h)), .entered line place inside])) ∧
    ∀ b guard rest, S.focus = .back b → S.stack = .tap line place guard .ignored :: rest →
      S.step? P = some ({ S with
        ambient := guard.release S.ambient
        stack := rest
        focus := .back true },
        [.acted line place S.ambient .ignoredHandle, .left line place (guard.release S.ambient),
          .returned line place true]) := by
  have hassembled := hbegins.assembled.run hrun
  have hpeopled := hbegins.lives hrun
  refine ⟨hrun.opens_once hbegins line place, hrun.using line place, fun uses huses => ?_,
    fun U events hstep htimely u hu => ?_, fun h hgiven hfocus => ?_,
    fun b guard rest hfocus hstack => ?_⟩
  · have hloyal := huses.loyal hbegins hplace
    exact ⟨fun u hu => hloyal.cases_of_mem hu, fun hdistinct h hh => hloyal.once hdistinct hh⟩
  · exact hpeopled.step_usage (State.step?_stepped hstep) htimely hu
  · obtain ⟨p, t, first, hplan, htap, hsource⟩ := hpeopled.handled hgiven
    exact State.step?_late hplan htap hsource hfocus
  · have hwaits := hassembled.waiting line place guard .ignored (hstack ▸ List.mem_cons_self)
    obtain ⟨p, hplan⟩ := hassembled.planned hwaits
    obtain ⟨t, htap⟩ := Option.isSome_iff_exists.mp hwaits
    exact State.step?_ignored hplan htap hfocus hstack

end

open scoped Scenario

/-- The hook for the first handle fails. Further handles come while the client is given an empty
handle, while it is told of the fault, and after that. -/
theorem Run.first_handle_counts_refused :
    (∃ history S, Run (.brittle [["do_on_subscription"]])
        (.startTap (.brittle [["do_on_subscription"]]) .plain () .empty .empty) history S ∧
      S.isIdle = true ∧
      Tap.handles (deeds 0 0 (happened history)) =
        [.external 0, .external 1, .external 2, .external 3] ∧
      Tap.openings (deeds 0 0 (happened history)) = 1 ∧
      ∀ uses, RunUsing (.brittle [["do_on_subscription"]])
          (.startTap (.brittle [["do_on_subscription"]]) .plain () .empty .empty) 0 0 history uses
          S →
        ∀ h ∈ [Handle.external 1, .external 2, .external 3],
          uses.filter (·.1 = h) = [(h, .cancel)]) ∧
    ∃ history S, Run (.brittle [["do_on_subscription"]])
        (.startTap (.brittle [["do_on_subscription"]]) .plain () .empty .empty) history S ∧
      Tap.handles (deeds 0 0 (happened history)) = [.external 0] ∧
      S.focus = .call (.tap 0 0 (.subscribe (.external 1))) ∧
      ∃ inside guard, guard.release inside = S.ambient ∧
        S.step? (.brittle [["do_on_subscription"]]) = some ({ S with
          ambient := inside
          stack := .tap 0 0 guard .ignored :: S.stack
          focus := .call (.control 0 0 (.external 1) .cancel) },
          [.received 0 0 (.signal (.subscribe (.external 1))), .entered 0 0 inside]) := by
  constructor
  · obtain ⟨history, S, hplay, hidle, hgiven, hopened, hnone⟩ := Play.of_follow
      (P := .brittle [["do_on_subscription"]])
      (S := .startTap (.brittle [["do_on_subscription"]]) .plain () .empty .empty) 20
      [.signal 0 (.subscribe (.external 0)), .answer true, .signal 0 (.subscribe (.external 1)),
        .answer true, .answer true, .signal 0 (.subscribe (.external 2)), .answer true,
        .answer true, .signal 0 (.subscribe (.external 3)), .answer true]
      (fun history S => S.isIdle = true ∧
        Tap.handles (deeds 0 0 (happened history)) =
          [.external 0, .external 1, .external 2, .external 3] ∧
        Tap.openings (deeds 0 0 (happened history)) = 1 ∧ S.usage 0 0 = []) (by decide +kernel)
    refine ⟨history, S, hplay.run, hidle, hgiven, hopened, fun uses huses => ?_⟩
    have hplace : 0 < Plan.depth (.brittle [["do_on_subscription"]]) := by decide
    have hcounts := hplay.run.first_handle_counts (.startTap rfl .plain () .empty .empty) 0 hplace
    have honce := (hcounts.2.2.1 uses huses).2
    rw [hgiven, hnone, List.append_nil] at honce
    exact honce (by decide)
  · obtain ⟨history, S, hplay, hgiven, hmoves⟩ := Play.of_follow
      (P := .brittle [["do_on_subscription"]])
      (S := .startTap (.brittle [["do_on_subscription"]]) .plain () .empty .empty) 20
      [.signal 0 (.subscribe (.external 0)), .answer true]
      (fun history S => Tap.handles (deeds 0 0 (happened history)) = [.external 0] ∧
        (S.move? (.brittle [["do_on_subscription"]])
          (.signal 0 (.subscribe (.external 1)))).isSome = true) (by decide +kernel)
    obtain ⟨T, hmove⟩ := Option.isSome_iff_exists.mp hmoves
    cases State.move?_moved hmove with
    | signal hturn hlines hstack hnext =>
        have hrun := hplay.run.move hmove
        have hthen : Tap.handles (deeds 0 0 (happened (history ++ [.move
            (.signal 0 (.subscribe (.external 1)))]))) = [.external 0] := by
          rw [happened_append, happened_move, List.append_nil, hgiven]
        have hplace : 0 < Plan.depth (.brittle [["do_on_subscription"]]) := by decide
        have hcounts := hrun.first_handle_counts (.startTap rfl .plain () .empty .empty) 0 hplace
        exact ⟨_, T, hrun, hthen, hnext,
          hcounts.2.2.2.2.1 _ (hthen ▸ List.cons_ne_nil _ _) hnext⟩

end Wiretap

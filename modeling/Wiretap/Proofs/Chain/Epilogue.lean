import Wiretap.Proofs.Machine.Calls
import Wiretap.Proofs.Machine.Courtesy
import Wiretap.Proofs.Machine.Follow
import Wiretap.Proofs.Tap.Epilogue
import Wiretap.Scenario.Kinds

/-!
# The last hook in a run

However a tap is called, the last hook runs once at most, and it runs in the call that ended the
subscription, after all that belongs to the ending. Without a fault it does run.

Next to the source, a fault of any hook of the subscription keeps the last hook from running, with
one exception: the hook after the ending failed, and the receiver cancels a subscription that has
ended already.
-/

namespace Wiretap

section

variable {K : Kinds} {σ α ε : Type}

namespace State

variable {P : Plan σ α ε} {S : State σ α ε} {line : Nat} {events : List (Event α ε)}

/-- A tap next to the source that has shown a fault of its subscription is there. -/
theorem Civil.foreseen (h : S.Civil P events) {hook : Hook α ε} {failure : Option Cause}
    (hran : .acted (.ran hook failure) ∈ deeds line 0 events) (hhook : hook ≠ .first) :
    ∃ t : Tap σ, Tap.Life.Foreseen ⟨t, S.pending line 0, deeds line 0 events⟩ := by
  rcases h.peopled.fate line 0 with ⟨-, -, hdeeds⟩ | ⟨-, -, -, hfails, hdeeds⟩ | ⟨-, -, hlived⟩
  · rw [hdeeds] at hran
    cases hran
  · -- A tap that could not be set up has run its first hook at most.
    rw [hdeeds] at hran
    cases hfails <;> simp [hhook] at hran
  · exact ⟨_, Tap.Life.Lived.foreseen hlived⟩

end State

/-- In every play, once a hook of a tap next to the source has failed, be it one that ends the
stream or the one after an ending, the last hook runs only with a cancellation, only if it was the
hook after an ending that failed, and only if nothing had settled the last hook before and nothing
does until the cancellation; and then it does run. -/
theorem Play.last_hook_after_fault {P : Plan σ α ε} {ambient : Context}
    {history : List (Entry α ε)} {U : State σ α ε} (hplay : Play P (.start P ambient) history U)
    {line : Nat} {hook : Hook α ε} {cause : Cause} {before later : List (Tap.Deed α ε)}
    (hdeeds : deeds line 0 (happened history) =
      before ++ .acted (.ran hook (some cause)) :: later)
    (hhook : hook.isFatal = true ∨ hook.isAfter = true) :
    (∀ ending failure, .acted (.ran (.finally ending) failure) ∈ later →
        ending = .cancel ∧ Tap.Life.Reopened hook before later) ∧
      (U.isIdle = true → Tap.Life.Reopened hook before later →
        ∃ failure, .acted (.ran (.finally .cancel) failure) ∈ later) := by
  have hcivil := (State.Civil.start (P := P) ambient).play hplay
  rw [List.nil_append] at hcivil
  have hfirst : hook ≠ .first := by
    rintro rfl
    simp [Hook.isFatal, Hook.isAfter] at hhook
  have hran : .acted (.ran hook (some cause)) ∈ deeds line 0 (happened history) := by
    rw [hdeeds]
    exact List.mem_append_right _ List.mem_cons_self
  obtain ⟨t, hforeseen⟩ := hcivil.foreseen hran hfirst
  constructor
  · intro ending failure hlater
    exact hforeseen.reopened hdeeds hhook hlater
  · intro hidle hreopened
    have hpending : U.pending line 0 = [] := by
      rw [State.pending, (State.isIdle_iff.mp hidle).1]
      rfl
    exact hforeseen.runs_of_reopened hdeeds hpending hreopened

end

open scoped Scenario

/-- The hook after the completion fails, its fault is dropped, and then the client cancels. -/
theorem Play.last_hook_after_fault_brittle : ∃ (history : List (Entry Nat Nat))
    (U : State Unit Nat Nat) (before later : List (Tap.Deed Nat Nat)),
    Play (.brittle [["do_after_complete"]]) (.start (.brittle [["do_after_complete"]]) .empty)
      history U ∧
    U.isIdle = true ∧
    deeds 0 0 (happened history) =
      before ++ .acted (.ran .afterComplete (some (.message "do_after_complete"))) :: later ∧
    Tap.Life.Reopened (.afterComplete : Hook Nat Nat) before later ∧
    ∃ failure, .acted (.ran (.finally .cancel) failure) ∈ later := by
  obtain ⟨history, U, hplay, hidle, hdeeds⟩ := Play.of_follow
    (P := .brittle [["do_after_complete"]])
    (S := .start (.brittle [["do_after_complete"]]) .empty) 20
    [.subscribe .plain, .signal 0 (.subscribe (.external 0)), .answer true, .answer true,
      .signal 0 .complete, .answer true, .control 0 0 .cancel, .answer true]
    (fun history U => U.isIdle = true ∧ deeds 0 0 (happened history) =
      [.created none, .acted (.ran .first none), .acted (.augmented none),
        .received (.signal (.subscribe (.external 0))), .acted (.ran .subscription none),
        .sent (.subscribe (.tap 0)), .returned true, .received (.signal .complete),
        .acted (.ran .complete none), .sent .complete] ++
      .acted (.ran .afterComplete (some (.message "do_after_complete"))) ::
      ([.acted (.reported ⟨.hook "do_after_complete", .message "do_after_complete"⟩),
        .acted (.droppedError (.fault ⟨.hook "do_after_complete", .message "do_after_complete"⟩)),
        .returned true, .received (.control .cancel)] ++
      .acted (.ran .cancel none) :: [.acted (.ran (.finally .cancel) none), .returned true]))
    (by decide +kernel)
  have hlast := (hplay.last_hook_after_fault hdeeds (.inr rfl)).2 hidle
  refine (fun hreopened => ⟨history, U, _, _, hplay, hidle, hdeeds, hreopened, hlast hreopened⟩) ?_
  exact ⟨rfl, by decide, _, _, rfl, by decide⟩

section

variable {K : Kinds} {σ α ε : Type}

/-- In every run of a tap that has been set up by hand, whatever the outside does, the last hook
runs at most once, and only where it belongs; and if no hook has failed, then it has run in the end
just if the tap has been called with an ending or been cancelled. -/
theorem Run.last_hook {P : Plan σ α ε} {p : TapPlan σ α ε} (hplan : P.taps = [p])
    (client : Client) (listener : σ) (context ambient : Context) {history : List (Entry α ε)}
    {U : State σ α ε} (hrun : Run P (.startTap P client listener context ambient) history U)
    (line : Nat) :
    Tap.endings (deeds line 0 (happened history)) ≤ 1 ∧
      State.Ends line 0 (happened history) ∧
      (U.isIdle = true → Tap.failures (deeds line 0 (happened history)) = [] →
        Tap.endings (deeds line 0 (happened history)) =
          if Tap.ended (deeds line 0 (happened history)) then 1 else 0) := by
  have hassembled := State.Assembled.startTap hplan client listener context ambient
  have hpeopled : (State.startTap P client listener context ambient).Peopled P (fun _ => .any) [] :=
    .startTap hplan client listener context ambient
  have hfiled := State.Filed.run hassembled hpeopled
    (.startTap P client listener context ambient line 0) hrun
  have hfate := (hpeopled.run hassembled hrun).fate line 0
  rw [List.nil_append] at hfate
  suffices hcount : Tap.endings (deeds line 0 (happened history)) ≤ 1 ∧ (U.isIdle = true →
      Tap.failures (deeds line 0 (happened history)) = [] →
        Tap.endings (deeds line 0 (happened history)) =
          if Tap.ended (deeds line 0 (happened history)) then 1 else 0) from
    ⟨hcount.1, hfiled.ends, hcount.2⟩
  rcases hfate with ⟨-, -, hdeeds⟩ | ⟨-, -, -, hfails, hdeeds⟩ | ⟨-, htap, -⟩
  · rw [hdeeds]
    exact ⟨Nat.zero_le 1, fun _ _ => rfl⟩
  · rw [hdeeds]
    cases hfails <;> exact ⟨Nat.zero_le 1, fun _ _ => rfl⟩
  · have hrecord := hfiled.record _ htap
    have honce := hrecord.once
    refine ⟨Nat.le_trans honce (Bool.toNat_le _), fun hidle hnone => ?_⟩
    obtain ⟨hran, -, hfresh, hclosing⟩ := hrecord.unspoiled hnone
    have hpending : U.pending line 0 = [] := by
      rw [State.pending, (State.isIdle_iff.mp hidle).1]
      rfl
    cases hended : Tap.ended (deeds line 0 (happened history)) with
    | true =>
        rcases hclosing hended with hfinalized | ⟨r, hr, -⟩
        · have hpositive := hran hfinalized
          rw [hfinalized, Bool.toNat_true] at honce
          exact Nat.le_antisymm honce hpositive
        · rw [hpending] at hr
          cases hr
    | false =>
        rw [(hfresh hended).1] at honce
        exact Nat.eq_zero_of_le_zero honce

end

/-- The client cancels while it is told of the completion. The last hook runs in the cancellation,
and not again when the tap goes on with the completion. -/
theorem Run.last_hook_nested : ∃ history U,
    Run (.brittle [[]]) (.startTap (.brittle [[]]) .plain () .empty .empty) history U ∧
    U.isIdle = true ∧ Tap.failures (deeds 0 0 (happened history)) = [] ∧
    Tap.Deed.acted (.ran (.finally .cancel) none) ∈ deeds 0 0 (happened history) ∧
    Tap.endings (deeds 0 0 (happened history)) = 1 ∧ State.Ends 0 0 (happened history) := by
  obtain ⟨history, U, hplay, hidle, hnone, hran, hended⟩ := Play.of_follow (P := .brittle [[]])
    (S := .startTap (.brittle [[]]) .plain () .empty .empty) 20
    [.signal 0 (.subscribe (.external 0)), .answer true, .signal 0 .complete,
      .control 0 0 .cancel, .answer true, .answer true]
    (fun history U => U.isIdle = true ∧ Tap.failures (deeds 0 0 (happened history)) = [] ∧
      Tap.Deed.acted (.ran (.finally .cancel) none) ∈ deeds 0 0 (happened history) ∧
      Tap.ended (deeds 0 0 (happened history)) = true) (by decide +kernel)
  have hlast := hplay.run.last_hook rfl .plain () .empty .empty 0
  refine ⟨history, U, hplay.run, hidle, hnone, hran, ?_, hlast.2.1⟩
  rw [hlast.2.2 hidle hnone, hended]
  rfl

end Wiretap

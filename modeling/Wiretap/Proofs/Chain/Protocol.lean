import Wiretap.Proofs.Machine.Courtesy
import Wiretap.Proofs.Machine.Follow
import Wiretap.Scenario.Kinds

/-!
# The protocol behind a single tap

A tap may be called in any order and from inside any callback, with signals from its source and
with controls from its receiver, and any of its hooks may fail on any run. Nothing of that shows in
the order of the signals that the receiver gets.
-/

namespace Wiretap

section

variable {K : Kinds} {σ α ε : Type}

/-- In every run of a tap that has been set up by hand, whatever the outside does, the receiver gets
at most one handle and at most one ending, and nothing after an ending. -/
theorem Run.stream_lawful {P : Plan σ α ε} {p : TapPlan σ α ε} (hplan : P.taps = [p])
    (client : Client) (listener : σ) (context ambient : Context) {history : List (Entry α ε)}
    {U : State σ α ε} (hrun : Run P (.startTap P client listener context ambient) history U)
    (line : Nat) : Signal.Lawful (heardBy line (happened history)) := by
  have hassembled := State.Assembled.startTap hplan client listener context ambient
  have hpeopled := State.Peopled.run hassembled
    (.startTap hplan client listener context ambient) hrun
  have hdelivers := State.Delivers.run hassembled (.nothing rfl rfl) hrun
  have hlast : 0 + 1 = P.depth := by rw [Plan.depth, hplan]; rfl
  rw [List.nil_append] at hpeopled hdelivers
  apply (hpeopled.given_lawful line 0).of_isPrefix
  exact hdelivers.heardBy_given hlast

end

open scoped Scenario

/-- An item whose hook fails ends the stream, and what comes after that is not passed on. -/
theorem Run.stream_lawful_brittle : ∃ history U,
    Run (.brittle [["do_on_next"]])
      (.startTap (.brittle [["do_on_next"]]) .plain () .empty .empty) history U ∧
    heardBy 0 (happened history) = [.subscribe (.tap 0),
      .error (.listener ⟨.hook "do_on_next", .message "do_on_next"⟩)] ∧
    Signal.Lawful (heardBy 0 (happened history)) := by
  obtain ⟨history, U, hplay, hheard⟩ := Play.of_follow (P := .brittle [["do_on_next"]])
    (S := .startTap (.brittle [["do_on_next"]]) .plain () .empty .empty) 20
    [.signal 0 (.subscribe (.external 0)), .answer true, .signal 0 (.next 1), .answer true,
      .signal 0 (.next 2), .answer true, .signal 0 .complete]
    (fun history _ => heardBy 0 (happened history) = [.subscribe (.tap 0),
      .error (.listener ⟨.hook "do_on_next", .message "do_on_next"⟩)]) (by decide +kernel)
  have hrun := hplay.run
  exact ⟨history, U, hrun, hheard, hrun.stream_lawful rfl .plain () .empty .empty 0⟩

end Wiretap

import Wiretap.Proofs.Machine.Courtesy
import Wiretap.Proofs.Machine.Dealings
import Wiretap.Scenario.Kinds

/-!
# Nothing is lost

Whatever a source and a client do to a single tap, and whatever its hooks do, every item and every
error that the tap is called with goes to one place, once, and the client is never told of an error
of the source that the source has not sent.
-/

namespace Wiretap

section

variable {K : Kinds} {σ α ε : Type}

theorem mem_deeds_received {line place : Nat} {input : Tap.Input α ε} {events : List (Event α ε)}
    (h : .received input ∈ deeds line place events) : .received line place input ∈ events := by
  obtain ⟨e, he, hdeed⟩ := List.mem_filterMap.mp h
  cases e <;> simp [Event.deed?] at hdeed
  obtain ⟨⟨rfl, rfl⟩, rfl⟩ := hdeed
  exact he

/-- When a client behind a single tap is told of an error of the source, the tap has received it. -/
theorem State.received_of_telling {P : Plan σ α ε} {S : State σ α ε} {events : List (Event α ε)}
    {manners : Nat → Tap.Life.Manners σ α ε} (hdepth : P.depth = 1)
    (hpeopled : S.Peopled P manners events) (hdelivers : S.Delivers P events) {line : Nat}
    {err : TapError ε} {e : ε} (hfocus : S.focus = .call (.client line (.error err)))
    (he : err.source? = some e) : .received line 0 (.signal (.error e)) ∈ events := by
  have hclient := hdelivers.client (l := line) (hdepth.symm : 0 + 1 = P.depth)
  have hgiven : .error err ∈ Tap.given (deeds line 0 events) := by
    have hmem : Call.client line (.error err) ∈
        (Tap.given (deeds line 0 events)).map (Call.client line : _ → Call α ε) := by
      rw [← hclient]
      simp [inFlight, hfocus, hdepth]
    obtain ⟨s, hs, heq⟩ := List.mem_map.mp hmem
    cases heq
    exact hs
  rcases hpeopled.fate line 0 with ⟨-, -, hdeeds⟩ | ⟨-, -, -, hfails, hdeeds⟩ | ⟨-, -, hlived⟩
  · rw [hdeeds] at hgiven
    cases hgiven
  · -- A tap that could not be set up gives its own fault.
    rw [hdeeds, hfails.given] at hgiven
    simp only [List.mem_cons, reduceCtorEq, Signal.error.injEq, List.not_mem_nil, or_false,
      false_or] at hgiven
    rw [hgiven] at he
    cases he
  · rw [hlived.given_eq] at hgiven
    obtain ⟨d, hd, hsent⟩ := List.mem_filterMap.mp hgiven
    cases d <;> simp [Tap.Deed.sent?] at hsent
    subst hsent
    exact mem_deeds_received (hlived.honest.sent err e hd he)

/-- In every run of a tap that has been set up by hand, whatever the outside does, every call of
the tap accounts for what it was made for when it returns; no call goes on for ever; what the tap
has sent has been delivered in the end; and whenever the client is told of an error of the source,
on its own or together with a fault, the tap has been called with this error before. -/
theorem Run.nothing_lost {P : Plan σ α ε} {p : TapPlan σ α ε} (hplan : P.taps = [p])
    (client : Client) (listener : σ) (context ambient : Context) {history : List (Entry α ε)}
    {U : State σ α ε} (hrun : Run P (.startTap P client listener context ambient) history U)
    (line : Nat) :
    Settles line history ∧
      (∀ call ∈ openCalls line 0 (happened history), call.length ≤ 3) ∧
      (U.isIdle = true → openCalls line 0 (happened history) = [] ∧
        heardBy line (happened history) = Tap.given (deeds line 0 (happened history))) ∧
      ∀ before err ambient' later e,
        happened history = before ++ .called (.client line (.error err)) ambient' :: later →
        err.source? = some e → .received line 0 (.signal (.error e)) ∈ before := by
  have hdepth : P.depth = 1 := by rw [Plan.depth, hplan]; rfl
  have hassembled := State.Assembled.startTap hplan client listener context ambient
  have hpeopled : (State.startTap P client listener context ambient).Peopled P (fun _ => .any) [] :=
    .startTap hplan client listener context ambient
  have hdelivers : (State.startTap P client listener context ambient).Delivers P [] :=
    .nothing rfl rfl
  have hdealt := State.Dealt.run hdepth hassembled
    (.startTap P client listener context ambient line) hrun
  refine ⟨hdealt.settles, hdealt.brief, fun hidle => ⟨hdealt.idle hidle, ?_⟩, ?_⟩
  · obtain ⟨hstack, b, hfocus⟩ := State.isIdle_iff.mp hidle
    have hdelivered := hdelivers.run hassembled hrun
    rw [List.nil_append] at hdelivered
    exact hdelivered.heardBy_eq hstack hfocus hdepth.symm
  · intro before err ambient' later e hsplit he
    obtain ⟨first, T, hfirst, rfl, hfocus, -⟩ := hrun.telling hsplit
    have hthen := hpeopled.run hassembled hfirst
    have hdelivered := hdelivers.run hassembled hfirst
    rw [List.nil_append] at hthen hdelivered
    exact State.received_of_telling hdepth hthen hdelivered hfocus he

end

open scoped Scenario

/-- The source fails while the client looks at an item that it was offered, and so does the hook for
the error. The client is told of both, and then it refuses the item. -/
theorem Run.nothing_lost_nested : ∃ history U,
    Run (.brittle [["do_on_error"]]) (.startTap (.brittle [["do_on_error"]]) ⟨.empty, true⟩ ()
      .empty .empty) history U ∧
    U.isIdle = true ∧
    heardBy 0 (happened history) = [.subscribe (.tap 0), .offer 1,
      .error (.multiple ⟨.hook "do_on_error", .message "do_on_error"⟩ 7)] ∧
    Tap.Deed.returned false ∈ deeds 0 0 (happened history) ∧
    Settles 0 history ∧ openCalls 0 0 (happened history) = [] := by
  obtain ⟨history, U, hplay, hidle, hheard, hreturned⟩ := Play.of_follow
    (P := .brittle [["do_on_error"]])
    (S := .startTap (.brittle [["do_on_error"]]) ⟨.empty, true⟩ () .empty .empty) 20
    [.signal 0 (.subscribe (.external 0)), .answer true, .signal 0 (.offer 1),
      .signal 0 (.error 7), .answer true, .answer true, .answer false]
    (fun history U => U.isIdle = true ∧
      heardBy 0 (happened history) = [.subscribe (.tap 0), .offer 1,
        .error (.multiple ⟨.hook "do_on_error", .message "do_on_error"⟩ 7)] ∧
      Tap.Deed.returned false ∈ deeds 0 0 (happened history)) (by decide +kernel)
  obtain ⟨hsettles, -, hend, -⟩ := hplay.run.nothing_lost rfl ⟨.empty, true⟩ () .empty .empty 0
  exact ⟨history, U, hplay.run, hidle, hheard, hreturned, hsettles, (hend hidle).1⟩

end Wiretap

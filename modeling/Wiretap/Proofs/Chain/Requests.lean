import Wiretap.Proofs.Chain.Parting
import Wiretap.Proofs.Machine.Requests
import Wiretap.Scenario.Kinds

/-!
# Demand passes through unchanged

What a client asks a tap for, the tap asks the source for, unless the client asks for nothing or the
listener does not bear the request.
-/

namespace Wiretap

section

variable {K : Kinds} {σ α ε : Type} {P : Plan σ α ε} {p : TapPlan σ α ε} {T : State σ α ε}
  {history : List (Entry α ε)} {ambient : Context} {line : Nat}

/-- On a line with one tap the source is asked for exactly what the client has asked the tap for and
the listener has granted, in order. A request for no items runs no hook, reaches nobody, changes
nothing and is dropped as one violation. A request whose hook fails goes no further: the source is
cancelled, the fault is reported, and the client hears of it, unless it has been let go before; then
the fault is dropped. -/
theorem Play.requests_pass (hplan : P.taps = [p]) (hplay : Play P (.start P ambient) history T) :
    T.Forwards (happened history) line ∧
      (∀ (S : State σ α ε) t position, S.tap? line 0 = some t →
        S.focus = .call (.control line position (.tap 0) (.request 0)) →
        ∃ inside, S.step? P = some ({ S with focus := .back true },
          [.controlled line position (.request 0), .received line 0 (.control (.request 0)),
            .entered line 0 inside,
            .acted line 0 inside (.droppedError (.violation (.nonPositiveRequest 0))),
            .left line 0 S.ambient, .returned line 0 true])) ∧
      ∀ position n t, T.focus = .call (.control line position (.tap 0) (.request n)) → n ≠ 0 →
        T.tap? line 0 = some t →
        ((p.listener (T.inside p t)).run t.listener (.request n)).2 ≠ none →
        ∃ attached : Bool, (attached = false ↔ LetGo line (happened history)) ∧
          ∀ during U, Meanwhile P T during U →
            Concludes P T (happened history) line (.request n) attached during U := by
  have hplan' : P.taps[0]? = some p := by rw [hplan]; rfl
  refine ⟨.play (List.getElem?_eq_some_iff.mp hplan').1 hplay, fun S t position htap hfocus =>
    State.step?_request_nothing hplan' htap hfocus, ?_⟩
  intro position n t hfocus hn htap hfails
  obtain ⟨t', h, haddressed⟩ := hplay.addressed hplan hfocus
  obtain rfl : t' = t := Option.some.inj (haddressed.tap.symm.trans htap)
  obtain ⟨cause, hcause⟩ := Option.ne_none_iff_exists'.mp hfails
  refine ⟨t'.attached, haddressed.attached, fun during U hduring => ?_⟩
  exact hduring.concludes hplan hplay hfocus haddressed
    (Tap.onRequest_parting (p.listener (T.inside p t')) haddressed.source
      (by simpa [Demand.isPositive] using hn) hcause)

end

open scoped Scenario

/-- A client asks for items from inside its callbacks, and once for none. Then the same client meets
a listener that does not bear its request. -/
theorem Play.requests_pass_brittle :
    (∃ history T, Play (.brittle [[]]) (.start (.brittle [[]]) .empty) history T ∧
      Tap.requested (deeds 0 0 (happened history)) = [2, 0, 3] ∧
      forwarded 0 (happened history) = [2, 3] ∧ T.Forwards (happened history) 0) ∧
    ∃ history during T U,
      Play (.brittle [["do_on_request"]]) (.start (.brittle [["do_on_request"]]) .empty) history T ∧
      T.focus = .call (.control 0 1 (.tap 0) (.request 1)) ∧
      Meanwhile (.brittle [["do_on_request"]]) T during U ∧ T.Returned U ∧
      heardBy 0 (happened (history ++ during)) = [.subscribe (.tap 0),
        .error (.listener ⟨.hook "do_on_request", .message "do_on_request"⟩)] ∧
      ∃ attached : Bool, (attached = false ↔ LetGo 0 (happened history)) ∧
        Concludes (.brittle [["do_on_request"]]) T (happened history) 0 (.request 1) attached during
          U := by
  constructor
  · obtain ⟨history, T, hplay, hrequested, hforwarded⟩ := Play.of_follow (P := .brittle [[]])
      (S := .start (.brittle [[]]) .empty) 20
      [.subscribe .plain, .signal 0 (.subscribe (.external 0)), .control 0 0 (.request 2),
        .answer true, .control 0 0 (.request 0), .answer true, .answer true, .signal 0 (.next 1),
        .control 0 0 (.request 3), .answer true, .answer true]
      (fun history _ => Tap.requested (deeds 0 0 (happened history)) = [2, 0, 3] ∧
        forwarded 0 (happened history) = [2, 3]) (by decide +kernel)
    exact ⟨history, T, hplay, hrequested, hforwarded, (hplay.requests_pass rfl).1⟩
  · obtain ⟨before, S, hplay, hreceived, hallows, T, hmove, ⟨during, U⟩, hfollow, hlength, hback,
        hheard⟩ := Play.of_follow (P := .brittle [["do_on_request"]])
      (S := .start (.brittle [["do_on_request"]]) .empty) 20
      [.subscribe .plain, .signal 0 (.subscribe (.external 0))]
      (fun before S => S.received? 0 0 = some (.tap 0) ∧
        S.allows (.brittle [["do_on_request"]]) (.control 0 0 (.request 1)) = true ∧
        ∃ T ∈ S.move? (.brittle [["do_on_request"]]) (.control 0 0 (.request 1)),
        ∃ outcome ∈ T.followWithin (.brittle [["do_on_request"]]) 20 [.answer true, .answer true] T,
          outcome.2.stack.length = T.stack.length ∧ outcome.2.focus.isBack = true ∧
          heardBy 0 (happened (before ++ outcome.1)) = [.subscribe (.tap 0),
            .error (.listener ⟨.hook "do_on_request", .message "do_on_request"⟩)])
      (by decide +kernel)
    have hfocus : T.focus = .call (.control 0 1 (.tap 0) (.request 1)) :=
      State.focus_of_control hreceived hmove
    have hhistory := hplay.move hallows hmove
    have hduring : Meanwhile _ T during U := Meanwhile.refl.followWithin hfollow
    have hreturned := hduring.returned hhistory.civil.assembled hfocus hlength hback
    obtain ⟨t, h, haddressed⟩ := hhistory.addressed rfl hfocus
    obtain ⟨attached, hattached, hconcludes⟩ := (hhistory.requests_pass rfl).2.2 1 1 t hfocus
      (by decide) haddressed.tap (by simp [TapPlan.brittle, Listener.brittle, Hook.name])
    refine ⟨_, during, T, U, hhistory, hfocus, hduring, hreturned, ?_, attached, hattached,
      hconcludes during U hduring⟩
    rwa [happened_append, happened_append, happened_move, List.append_nil, ← happened_append]

end Wiretap

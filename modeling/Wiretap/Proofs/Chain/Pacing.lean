import Wiretap.Proofs.Chain.Backpressure
import Wiretap.Proofs.Chain.Release
import Wiretap.Proofs.Machine.Lookahead
import Wiretap.Scenario.Kinds

/-!
# How a sequence is handed out

Whoever asks, from wherever and however often, the source of a line sends one signal at a time. It
sends nothing more once its receiver has cancelled, and it always knows one item more than it has
handed out.
-/

namespace Wiretap

/-! ## One signal at a time -/

section

variable {K : Kinds} {σ α ε : Type} {P : Plan σ α ε} {S U : State σ α ε} {line : Nat}
  {ambient : Context} {history : List (Entry α ε)} {pull : Nat → Option α}

theorem Run.paced (hsource : P.source = .sequence pull) (hitems : pull 0 ≠ none)
    (hrun : Run P (.start P ambient) history S) : Paced line S :=
  (Paced.of_start ambient).run (.start ambient) hsource hitems hrun

/-- What a line's source sends is sent from a frame in which the source waits. -/
theorem Run.sends (hsource : P.source = .sequence pull) (hitems : pull 0 ≠ none)
    (hrun : Run P (.start P ambient) history S) {s : Signal α ε} (hs : s.isSubscribe = false)
    (hfocus : S.focus = .call (P.sourceSignal line s)) :
    ∃ f rest, S.stack = f :: rest ∧ f.isSending line = true := by
  have hdriven : P.isDriven = false := by rw [Plan.isDriven, hsource]
  cases hrun with
  | refl => cases hfocus
  | @step history T _ events hbefore hstep =>
      have hpaced : Paced line T := hbefore.paced hsource hitems
      rcases State.step_sends ((State.Assembled.start ambient).run hbefore) hpaced.endless
        (State.step?_stepped hstep) hfocus with ⟨hsubscribe, -⟩ | ⟨f, rest, -, hstack, hsends, -⟩
      · rw [hs] at hsubscribe
        cases hsubscribe
      · exact ⟨f, rest, hstack, hsends⟩
  | move hbefore hmove => exact absurd hfocus (State.move_unsent hdriven hmove s)

theorem Run.silenced (hsource : P.source = .sequence pull) (hitems : pull 0 ≠ none)
    {later : List (Entry α ε)} (hassembled : S.Assembled P) (hpaced : Paced line S)
    (hrenounced : S.Renounced line) (hnow : ∀ s, S.focus ≠ .call (P.sourceSignal line s))
    (hlater : Run P S later U) (s : Signal α ε) : U.focus ≠ .call (P.sourceSignal line s) := by
  have hdriven : P.isDriven = false := by rw [Plan.isDriven, hsource]
  cases hlater with
  | refl => exact hnow s
  | step hbefore hstep =>
      exact ((hrenounced.run hpaced hassembled hsource hitems hbefore).step
        (hpaced.run hassembled hsource hitems hbefore) (hassembled.run hbefore) hsource hstep).2 s
  | move hbefore hmove => exact State.move_unsent hdriven hmove s

/-- On a line whose source is a sequence with items, whatever the outside does: when the source
sends an item or the completion, it waits for nothing else that it has sent on the line to be taken;
and from the moment when somebody cancels the line's emission, it sends nothing any more. -/
theorem Run.one_at_a_time (hsource : P.source = .sequence pull) (hitems : pull 0 ≠ none)
    (hrun : Run P (.start P ambient) history S) :
    (∀ s, s.isSubscribe = false → S.focus = .call (P.sourceSignal line s) →
      ∃ f rest, S.stack = f :: rest ∧ f.isSending line = true ∧
        ∀ g ∈ rest, g.isSending line = false) ∧
    ∀ position e, S.focus = .call (.control line position .emission .cancel) →
      S.emission? line = some e →
      ∀ later U, Run P S later U → ∀ s, U.focus ≠ .call (P.sourceSignal line s) := by
  have hpaced : Paced line S := hrun.paced hsource hitems
  refine ⟨fun s hs hfocus => ?_, fun position e hfocus hemission later U hlater => ?_⟩
  · obtain ⟨f, rest, hstack, hsends⟩ := hrun.sends hsource hitems hs hfocus
    exact ⟨f, rest, hstack, hsends, hpaced.alone hstack hsends⟩
  · refine Run.silenced hsource hitems ((State.Assembled.start ambient).run hrun) hpaced
      ⟨e, hemission, .inr ⟨position, hfocus⟩⟩ (fun s => ?_) hlater
    rw [hfocus]
    unfold Plan.sourceSignal
    split <;> simp

end

open scoped Scenario

/-- From inside its first item the client asks for another one, which does not come before the first
one has been taken. From inside the second one it cancels. -/
theorem Run.one_at_a_time_nested :
    (∃ history S s, Run (.brittleCounting []) (.start (.brittleCounting []) .empty) history S ∧
      asked 0 history = [1, 1] ∧ s.item? = some 2 ∧
      S.focus = .call (Plan.sourceSignal (.brittleCounting []) 0 s) ∧
      ∃ f rest, S.stack = f :: rest ∧ f.isSending 0 = true ∧
        ∀ g ∈ rest, g.isSending 0 = false) ∧
    ∃ history S, Run (.brittleCounting []) (.start (.brittleCounting []) .empty) history S ∧
      Signal.items (heardBy 0 (happened history)) = [1, 2] ∧ S.callbacks.length = 2 ∧
      S.focus = .call (.control 0 0 .emission .cancel) ∧
      ∀ later U, Run (.brittleCounting []) S later U →
        ∀ s, U.focus ≠ .call (Plan.sourceSignal (.brittleCounting []) 0 s) := by
  constructor
  · obtain ⟨history, S, hplay, hasked, hcoming⟩ := Play.of_followTo (P := .brittleCounting [])
      (S := .start (.brittleCounting []) .empty) 20
      [.subscribe .plain, .control 0 0 (.request 1), .control 0 0 (.request 1)] (.answer true) 2
      (fun history S => asked 0 history = [1, 1] ∧ S.coming (.brittleCounting []) 0 = [2])
      (by decide +kernel)
    obtain ⟨s, hitem, hfocus⟩ := State.focus_of_coming (hcoming ▸ List.mem_singleton_self 2)
    have hs : s.isSubscribe = false := by cases s <;> first | rfl | cases hitem
    exact ⟨history, S, s, hplay.run, hasked, hitem, hfocus,
      (Run.one_at_a_time rfl (by decide) hplay.run).1 s hs hfocus⟩
  · obtain ⟨history, S, hplay, hitems, hcallbacks, hreceived, hemission, hmoves⟩ := Play.of_follow
      (P := .brittleCounting []) (S := .start (.brittleCounting []) .empty) 20
      [.subscribe .plain, .control 0 0 (.request 1), .control 0 0 (.request 1), .answer true]
      (fun history S => Signal.items (heardBy 0 (happened history)) = [1, 2] ∧
        S.callbacks.length = 2 ∧ S.received? 0 0 = some .emission ∧
        (S.emission? 0).isSome = true ∧
        (S.move? (.brittleCounting []) (.control 0 0 .cancel)).isSome = true)
      (by decide +kernel)
    obtain ⟨T, hmove⟩ := Option.isSome_iff_exists.mp hmoves
    obtain ⟨e, he⟩ := Option.isSome_iff_exists.mp hemission
    cases State.move?_moved hmove with
    | control hturn hhandle hlines hstack hnext =>
        obtain rfl := Option.some.inj (hreceived.symm.trans hhandle)
        have hrun := hplay.run.move hmove
        refine ⟨_, T, hrun, ?_, ?_, hnext, ?_⟩
        · rw [happened_append, happened_move, List.append_nil, hitems]
        · rw [State.callbacks, hstack]
          exact hcallbacks
        · exact (Run.one_at_a_time rfl (by decide) hrun).2 0 e hnext
            ((State.emission?_eq hlines 0).trans he)

/-! ## One item ahead -/

section

variable {K : Kinds} {σ α ε : Type} {P : Plan σ α ε} {S : State σ α ε} {line : Nat}
  {ambient : Context} {history : List (Entry α ε)} {pull : Nat → Option α} {given : List α}

/-- Nothing comes after the end of a list of answers of which only the last one can be an end. -/
theorem eq_nil_of_answers {before after : List (Option α)} {ahead : Option α}
    (h : given.map some ++ [ahead] = before ++ none :: after) : after = [] := by
  rcases List.eq_nil_or_concat after with rfl | ⟨init, last, rfl⟩
  · rfl
  · have hshape : given.map some ++ [ahead] = (before ++ none :: init) ++ [last] := by
      rw [h]
      simp
    have hnone : none ∈ given.map some := by
      rw [(List.append_inj' hshape rfl).1]
      simp
    simp at hnone

theorem Play.foresees (hsource : P.source = .sequence pull)
    (hplay : Play P (.start P ambient) history S) :
    Foresees pull line (pulls line (happened history))
        (supplied P line (happened history) ++ S.coming P line) S ∧
      ∀ context, .joined line 0 context ∈ happened history →
        pulls line (happened history) ≠ [] := by
  have hdriven : P.isDriven = false := by rw [Plan.isDriven, hsource]
  induction hplay with
  | refl =>
      refine ⟨?_, fun context hjoined => absurd hjoined List.not_mem_nil⟩
      rw [State.coming_of_outside rfl, happened_nil, quiet_nil.supplied]
      exact .of_start ambient
  | @step history T U events hplay hstep ih =>
      obtain ⟨hforesees, hasked⟩ := ih
      have hcivil := hplay.civil
      have harrived : supplied P line events = T.coming P line :=
        State.step_supplied hcivil.assembled hcivil.handled (State.step?_stepped hstep)
      rw [happened_append, happened_map_event, supplied_append, harrived, pulls_append]
      refine ⟨hforesees.step hcivil.assembled hsource hstep, fun context hjoined => ?_⟩
      rcases List.mem_append.mp hjoined with hbefore | hnow
      · exact List.append_ne_nil_of_left_ne_nil (hasked context hbefore) _
      · exact List.append_ne_nil_of_right_ne_nil _
          (hforesees.asks hcivil.assembled hsource hstep hnow)
  | @move history T U m hplay hallows hmove ih =>
      obtain ⟨hforesees, hasked⟩ := ih
      obtain ⟨b, hfocus⟩ := State.move_turn (State.move?_moved hmove)
      rw [State.coming_of_outside hfocus] at hforesees
      rw [happened_append, happened_move, List.append_nil, State.move_coming hdriven hmove]
      exact ⟨hforesees.move (State.move?_moved hmove), hasked⟩

/-- The loop does not go round where nothing is ahead. -/
theorem Play.loops_ahead (hsource : P.source = .sequence pull)
    (hplay : Play P (.start P ambient) history S) {m : UInt64} {e : Emission α}
    (hfocus : S.focus = .call (.emit line m)) (hemission : S.emission? line = some e) :
    e.ahead ≠ none := by
  obtain ⟨_, hitems, -⟩ := (hplay.foresees hsource).1.emitting (.inl ⟨m, hfocus, rfl⟩)
  have hpaced : Paced line S := hplay.run.paced hsource hitems
  obtain ⟨e', hsome, -, -, -, hturn⟩ := hpaced.emitting (.inl ⟨m, hfocus, rfl⟩)
  obtain rfl := Option.some.inj (hemission.symm.trans hsome)
  rcases hturn with ⟨-, -, hahead⟩ | ⟨b, -, hback, -⟩
  · exact hahead
  · rw [hfocus] at hback
    cases hback

/-- Once a line has been joined to its sequence, this has been asked for its next item once more
than items have been sent to the line, the one on its way included: it has given all of those, in
order, and one answer ahead. What it gives is what its pulls are, it has not been asked again after
it has ended, and the loop of its emission never goes round without an item ahead. -/
theorem Play.looks_ahead (hsource : P.source = .sequence pull)
    (hplay : Play P (.start P ambient) history S) {context : Context}
    (hjoined : .joined line 0 context ∈ happened history) :
    (pulls line (happened history)).length =
        (supplied P line (happened history) ++ S.coming P line).length + 1 ∧
      (∃ ahead, pulls line (happened history) =
        (supplied P line (happened history) ++ S.coming P line).map some ++ [ahead]) ∧
      pulls line (happened history) =
        (List.range (pulls line (happened history)).length).map pull ∧
      (∀ before after, pulls line (happened history) = before ++ none :: after → after = []) ∧
      ∀ m e, S.focus = .call (.emit line m) → S.emission? line = some e → e.ahead ≠ none := by
  have hasked := (hplay.foresees hsource).2 context hjoined
  obtain ⟨⟨ahead, hanswers⟩, hpulls⟩ := (hplay.foresees hsource).1.ledger hasked
  refine ⟨?_, ⟨ahead, hanswers⟩, hpulls, fun before after hsplit => ?_,
    fun m e => hplay.loops_ahead hsource⟩
  · rw [hanswers, List.length_append, List.length_map]
    rfl
  · rw [hanswers] at hsplit
    exact eq_nil_of_answers hsplit

end

/-- A client refuses its first item, asks for one more from inside the second one, which it takes,
and cancels from inside the third one. What it asks for after that is not served, and the sequence
is not asked for more than the one item ahead. -/
theorem Play.looks_ahead_counting : ∃ history U,
    Play (.brittleCounting []) (.start (.brittleCounting []) .empty) history U ∧
    asked 0 history = [1, 1, 5] ∧ supplied (.brittleCounting []) 0 (happened history) = [1, 2, 3] ∧
    U.coming (.brittleCounting []) 0 = [] ∧ (pulls 0 (happened history)).length = 4 ∧
    pulls 0 (happened history) = [1, 2, 3, 4].map some := by
  obtain ⟨history, U, hplay, hasked, hsupplied, hcoming, hjoins⟩ := Play.of_follow
    (P := .brittleCounting []) (S := .start (.brittleCounting []) .empty) 20
    [.subscribe ⟨.empty, true⟩, .control 0 0 (.request 1), .answer false,
      .control 0 0 (.request 1), .answer true, .control 0 0 .cancel, .answer false,
      .control 0 0 (.request 5)]
    (fun history U => asked 0 history = [1, 1, 5] ∧
      supplied (.brittleCounting []) 0 (happened history) = [1, 2, 3] ∧
      U.coming (.brittleCounting []) 0 = [] ∧
      (happened history).any (Event.isSourceJoined 0) = true)
    (by decide +kernel)
  obtain ⟨context, hjoined⟩ := joined_of_any hjoins
  obtain ⟨hlength, -, hpulls, -⟩ := Play.looks_ahead rfl hplay hjoined
  rw [hsupplied, hcoming] at hlength
  refine ⟨history, U, hplay, hasked, hsupplied, hcoming, hlength, ?_⟩
  rw [hpulls, hlength]
  rfl

end Wiretap

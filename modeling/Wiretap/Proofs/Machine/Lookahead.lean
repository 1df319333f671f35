import Wiretap.Proofs.Machine.Pacing

/-!
# An emission looks one item ahead

A sequence is asked for its next item when a line is joined to it, and then once for every item that
is handed out, just before. So it has always given one answer more than items were handed out, and
these are the answers in order. Since the loop hands out nothing where nothing is ahead, the
sequence is not asked again once it has ended.
-/

namespace Wiretap

variable {K : Kinds} {σ α ε : Type} {P : Plan σ α ε} {S U : State σ α ε} {line : Nat}
  {pull : Nat → Option α} {events : List (Event α ε)} {e : Emission α}
  {rest : List (Frame α ε)}

/-- What the sequence of a line gave if the event is that it was asked. -/
def Event.pull? (line : Nat) : Event α ε → Option (Option α)
  | .pulled l item => if l = line then some item else none
  | _ => none

/-- What the sequence of a line has given, each time that it was asked for its next item. -/
def pulls (line : Nat) (events : List (Event α ε)) : List (Option α) :=
  events.filterMap (Event.pull? line)

/-- Is the event that the first receiver of a line was joined to the source, or that the source was
asked for its next item? -/
def Event.concernsSource (line : Nat) : Event α ε → Bool
  | .joined l 0 _ | .pulled l _ => l == line
  | _ => false

@[simp] theorem pulls_pulled (item : Option α) :
    pulls line [(.pulled line item : Event α ε)] = [item] := by
  simp [pulls, Event.pull?]

theorem pulls_append (first second : List (Event α ε)) :
    pulls line (first ++ second) = pulls line first ++ pulls line second :=
  List.filterMap_append

/-- The source of the line is neither joined nor asked in these events. -/
def Unasked (line : Nat) (events : List (Event α ε)) : Prop :=
  ∀ event ∈ events, event.concernsSource line = false

namespace Unasked

theorem nil : Unasked line ([] : List (Event α ε)) := fun _ hevent => absurd hevent List.not_mem_nil

theorem cons {event : Event α ε} (h : event.concernsSource line = false)
    (hlater : Unasked line events) : Unasked line (event :: events) := by
  intro other hother
  rcases List.mem_cons.mp hother with rfl | hother
  · exact h
  · exact hlater other hother

theorem append {later : List (Event α ε)} (h : Unasked line events)
    (hlater : Unasked line later) : Unasked line (events ++ later) := by
  intro event hevent
  exact (List.mem_append.mp hevent).elim (h event) (hlater event)

theorem acted (l place : Nat) (ambient : Context) (acts : List (Tap.Act α ε)) :
    Unasked line (acts.map (.acted l place ambient)) := by
  intro event hevent
  obtain ⟨act, -, rfl⟩ := List.mem_map.mp hevent
  rfl

theorem pulls_eq (h : Unasked line events) : pulls line events = [] := by
  refine List.filterMap_eq_nil_iff.mpr fun event hevent => ?_
  have hother := h event hevent
  cases event with
  | pulled l item =>
      have hline : l ≠ line := by simpa [Event.concernsSource] using hother
      exact if_neg hline
  | _ => rfl

theorem not_joined (h : Unasked line events) (context : Context) :
    .joined line 0 context ∉ events := by
  intro hmem
  simpa [Event.concernsSource] using h _ hmem

end Unasked

namespace State

/-! ## Who asks -/

theorem settle_unasked (l place : Nat) (guard : Guard) (turn : Tap.Turn σ α ε) :
    Unasked line (settle P S l place guard turn).2 := by
  unfold settle
  cases turn.next with
  | answer b => exact (Unasked.acted _ _ _ _).append (.cons rfl (.cons rfl .nil))
  | down s r => exact (Unasked.acted _ _ _ _).append (.cons rfl .nil)
  | up h c r => exact .acted _ _ _ _

theorem callTap_unasked (l place : Nat) (input : Tap.Input α ε) :
    Unasked line (callTap P S l place input).2 := by
  unfold callTap
  split
  · exact .cons rfl (.cons rfl (settle_unasked l place _ _))
  · exact .nil

theorem resumeTap_unasked (l place : Nat) (guard : Guard) (r : Tap.Resume α ε) (b : Bool) :
    Unasked line (resumeTap P S l place guard r b).2 := by
  unfold resumeTap
  split
  · exact settle_unasked l place guard _
  · exact .nil

theorem setUpTap_unasked (l place : Nat) (context : Context) :
    Unasked line (setUpTap P S l place context).2 := by
  unfold setUpTap
  split
  · exact .nil
  · dsimp only
    split
    · exact .cons rfl (.cons rfl .nil)
    · split
      · exact (Unasked.cons rfl (.acted _ _ _ _)).append (.cons rfl .nil)
      · exact (Unasked.cons rfl (.acted _ _ _ _)).append (.cons rfl .nil)

theorem joinSource_unasked {l : Nat} (hother : l ≠ line) :
    Unasked line (joinSource P S l).2 := by
  have hpulled : ∀ item : Option α, (.pulled l item : Event α ε).concernsSource line = false :=
    fun _ => beq_false_of_ne hother
  unfold joinSource
  split
  · exact .nil
  · exact .nil
  · exact .cons rfl .nil
  · split
    · exact .cons (hpulled _) .nil
    · exact .cons (hpulled _) .nil

theorem controlEmission_unasked (l : Nat) (c : Control) :
    Unasked line (controlEmission S l c : Outcome σ α ε).2 := by
  unfold controlEmission
  split
  · split
    · exact .nil
    · exact .cons rfl .nil
  · exact .nil
  · exact .nil

theorem control_unasked (l position : Nat) (h : Handle) (c : Control) :
    Unasked line (make P S (.control l position h c)).2 := by
  refine .cons rfl ?_
  cases h with
  | empty => exact .nil
  | emission => exact controlEmission_unasked l c
  | tap place => exact callTap_unasked l place _
  | external id => exact .cons rfl .nil

theorem emit_unasked {l : Nat} (hother : l ≠ line) (n : UInt64) :
    Unasked line (emit P S l n).2 := by
  unfold emit
  split
  · split
    · exact .nil
    · dsimp only
      split <;> exact .nil
    · split
      · exact .nil
      · exact .cons (beq_false_of_ne hother) .nil
  · exact .nil

/-- The sequence of a line is asked when the line is joined to it and by the loop, and by nobody
else. -/
theorem step?_unasked (hstep : S.step? P = some (U, events))
    (haside : ∀ rest, ¬S.Emitting line rest)
    (hjoin : ∀ context, S.focus ≠ .call (.join line 0 context)) : Unasked line events := by
  unfold step? at hstep
  split at hstep
  · cases hstep
  next c hfocus =>
    obtain ⟨-, rfl⟩ := Prod.mk.inj (Option.some.inj hstep)
    cases c with
    | join l position context =>
        cases position with
        | zero =>
            have hother : l ≠ line := by
              rintro rfl
              exact hjoin context hfocus
            exact .cons (beq_false_of_ne hother) (joinSource_unasked hother)
        | succ place => exact .cons rfl (setUpTap_unasked l place context)
    | tap l place s => exact callTap_unasked l place _
    | client l s => exact .cons rfl .nil
    | control l position h c => exact control_unasked l position h c
    | emit l n =>
        refine emit_unasked ?_ n
        rintro rfl
        exact haside S.stack (.inl ⟨n, hfocus, rfl⟩)
  next b hfocus =>
    split at hstep
    · cases hstep
      exact .nil
    next f rest hstack =>
      obtain ⟨-, rfl⟩ := Prod.mk.inj (Option.some.inj hstep)
      cases f with
      | tap l place guard r => exact resumeTap_unasked l place guard r b
      | joining l place guard => exact .cons rfl .nil
      | _ => exact .nil

/-- When a line is joined to its sequence, this is asked once. -/
theorem step?_joins {context : Context} (hsource : P.source = .sequence pull)
    (hfocus : S.focus = .call (.join line 0 context)) (hstarted : line < S.lines.length)
    (hstep : S.step? P = some (U, events)) :
    pulls line events = [pull 0] ∧ (∃ s, U.focus = .call (P.sourceSignal line s)) ∧
      U.emission? line = match pull 0 with
        | some x => some (.start x)
        | none => S.emission? line := by
  simp only [step?, hfocus, make, join, joinSource, hsource] at hstep
  cases hpull : pull 0 with
  | none =>
      simp only [hpull, Option.some.injEq, Prod.mk.injEq] at hstep
      obtain ⟨rfl, rfl⟩ := hstep
      exact ⟨pulls_pulled none, ⟨_, rfl⟩, rfl⟩
  | some x =>
      simp only [hpull, Option.some.injEq, Prod.mk.injEq] at hstep
      obtain ⟨rfl, rfl⟩ := hstep
      exact ⟨pulls_pulled (some x), ⟨_, rfl⟩, setEmission_emission?_self hstarted _⟩

end State

/-! ## The ledger -/

/-- The sequence of a line has given `answers`, and the items `given` have been handed out. -/
inductive Foresees (pull : Nat → Option α) (line : Nat) :
    List (Option α) → List α → State σ α ε → Prop
  /-- The line has not been joined to the sequence. -/
  | unborn {S : State σ α ε} (hemission : S.emission? line = none)
    (hrounds : Unrounded line S.stack) (hloop : ∀ n, S.focus ≠ .call (.emit line n)) :
    Foresees pull line [] [] S
  /-- The sequence has no items. -/
  | barren {S : State σ α ε} (hpull : pull 0 = none) (hline : line < S.lines.length)
    (hemission : S.emission? line = none) (hrounds : Unrounded line S.stack)
    (hcalm : S.Calm line) : Foresees pull line [none] [] S
  /-- The sequence has been asked once for every item handed out, and once more. -/
  | running {S : State σ α ε} {e : Emission α} {given : List α} (hpull : pull 0 ≠ none)
    (hemission : S.emission? line = some e)
    (hjoined : ∀ position context, S.focus ≠ .call (.join line position context))
    (hpulled : (List.range e.pulled).map pull = given.map some ++ [e.ahead]) :
    Foresees pull line (given.map some ++ [e.ahead]) given S

namespace Foresees

variable {answers : List (Option α)} {given : List α}

theorem of_start (ambient : Context) : Foresees pull line [] [] (State.start P ambient) :=
  .unborn rfl (fun _ hf => absurd hf List.not_mem_nil) (by simp [State.start])

/-- The loop runs only where there is something to hand out. -/
theorem emitting (h : Foresees pull line answers given S) (hemitting : S.Emitting line rest) :
    ∃ e, pull 0 ≠ none ∧ S.emission? line = some e ∧ answers = given.map some ++ [e.ahead] ∧
      (List.range e.pulled).map pull = given.map some ++ [e.ahead] := by
  cases h with
  | unborn _ hrounds hloop => exact absurd hemitting (hrounds.not_emitting hloop)
  | barren _ _ _ hrounds hcalm => exact absurd hemitting (hrounds.not_emitting hcalm.emit)
  | running hpull hemission _ hpulled => exact ⟨_, hpull, hemission, rfl, hpulled⟩

/-- The loop asks for one more item when it hands one out. -/
theorem round (h : Foresees pull line answers given S) (hsource : P.source = .sequence pull)
    (hemitting : S.Emitting line rest) (hstep : S.step? P = some (U, events)) :
    Foresees pull line (answers ++ pulls line events) (given ++ U.coming P line) U := by
  obtain ⟨e, hpull, hbefore, rfl, hpulled⟩ := h.emitting hemitting
  have hquietly : ∀ {e' : Emission α}, U.emission? line = some e' → e'.pulled = e.pulled →
      e'.ahead = e.ahead → (∀ position context, U.focus ≠ .call (.join line position context)) →
      U.coming P line = [] → Foresees pull line (given.map some ++ [e.ahead] ++ [])
        (given ++ U.coming P line) U := by
    intro e' hemission hsame hahead hjoined hcoming
    rw [hcoming, List.append_nil, List.append_nil, ← hahead]
    exact .running hpull hemission hjoined (by rw [hsame, hpulled, hahead])
  cases State.step?_rounds hsource hemitting hbefore hstep with
  | leave _ hemission _ hnext =>
      exact hquietly hemission rfl rfl (by simp [hnext]) (State.coming_of_back hnext)
  | complete _ hemission _ hnext =>
      exact hquietly hemission rfl rfl (State.Calm.of_sourceSignal hnext).join
        (State.coming_of_call hnext (item?_sourceSignal _))
  | settle _ _ hemission _ hnext =>
      exact hquietly hemission rfl rfl (by simp [hnext]) (State.coming_of_back hnext)
  | @deliver m x _ _ hahead hemission _ hnext =>
      have hcoming : U.coming P line = [x] := by
        rw [State.coming_sourceSignal hnext, if_pos rfl]
        cases S.isConditional line <;> rfl
      have hanswers : given.map some ++ [e.ahead] ++
            pulls line [(.pulled line (e.advance pull).ahead : Event α ε)] =
          (given ++ [x]).map some ++ [(e.advance pull).ahead] := by
        simp [hahead]
      rw [hcoming, hanswers]
      refine .running hpull hemission (State.Calm.of_sourceSignal hnext).join ?_
      simp [Emission.advance, List.range_succ, hpulled, hahead]
  | goOn _ _ hemission _ hnext =>
      exact hquietly hemission rfl rfl (by simp [hnext]) (State.coming_of_call hnext rfl)

/-- A sequence without items is asked once all the same. -/
theorem join (h : Foresees pull line answers given S) (hassembled : S.Assembled P)
    (hsource : P.source = .sequence pull) {context : Context}
    (hfocus : S.focus = .call (.join line 0 context)) (hstep : S.step? P = some (U, events)) :
    Foresees pull line (answers ++ pulls line events) (given ++ U.coming P line) U := by
  have haside : ∀ rest, ¬S.Emitting line rest := by simp [State.Emitting, hfocus]
  have hstepped := State.step?_stepped hstep
  have hstarted : line < S.lines.length := (hassembled.joining _ _ _ hfocus).started
  obtain ⟨hpulls, ⟨s, hnext⟩, hemission⟩ := State.step?_joins hsource hfocus hstarted hstep
  rw [hpulls, State.step?_coming hstep haside, List.append_nil]
  cases h with
  | unborn hnone hrounds _ =>
      cases hpull : pull 0 with
      | none =>
          -- The end is all that the sequence gives, and nothing is emitted.
          rw [hpull] at hemission
          exact .barren hpull (State.step_length hstepped ▸ hstarted) (hemission.trans hnone)
            (hrounds.step hstepped haside) (.of_sourceSignal hnext)
      | some x =>
          rw [hpull] at hemission
          have hpulled : (List.range (Emission.start x).pulled).map pull =
              ([] : List α).map some ++ [(Emission.start x).ahead] := by
            simp [Emission.start, hpull]
          exact .running (by simp [hpull]) hemission (State.Calm.of_sourceSignal hnext).join hpulled
  | barren _ _ _ _ hcalm => exact absurd hfocus (hcalm.join 0 context)
  | running _ _ hjoined => exact absurd hfocus (hjoined 0 context)

/-- Nobody else asks. -/
theorem aside (h : Foresees pull line answers given S) (hassembled : S.Assembled P)
    (hsource : P.source = .sequence pull) (haside : ∀ rest, ¬S.Emitting line rest)
    (hjoin : ∀ context, S.focus ≠ .call (.join line 0 context))
    (hstep : S.step? P = some (U, events)) :
    Foresees pull line (answers ++ pulls line events) (given ++ U.coming P line) U := by
  have hstepped := State.step?_stepped hstep
  rw [(State.step?_unasked hstep haside hjoin).pulls_eq, State.step?_coming hstep haside,
    List.append_nil, List.append_nil]
  have hjoined : (∀ position context, S.focus ≠ .call (.join line position context)) →
      ∀ position context, U.focus ≠ .call (.join line position context) := by
    intro hbefore position context hnow
    obtain ⟨context', hfocus, -⟩ := State.step_join hstepped hnow
    exact hbefore _ _ hfocus
  cases State.step?_feeds hassembled hsource (fun rest hrest => absurd hrest (haside rest))
      hstep with
  | aside _ hemission hnext =>
      cases h with
      | unborn hnone hrounds _ =>
          exact .unborn (hemission.trans hnone) (hrounds.step hstepped haside) hnext
      | barren hpull hline hnone hrounds hcalm =>
          exact .barren hpull (State.step_length hstepped ▸ hline) (hemission.trans hnone)
            (hrounds.step hstepped haside) (hcalm.aside hstepped hnext)
      | running hpull hsome hbefore hpulled =>
          exact .running hpull (hemission.trans hsome) (hjoined hbefore) hpulled
  | start hfocus => exact absurd hfocus (hjoin _)
  | @request position n e hfocus hn hbefore hemission =>
      cases h with
      | unborn hnone => rw [hbefore] at hnone; cases hnone
      | barren _ _ hnone => rw [hbefore] at hnone; cases hnone
      | running hpull hsome hbefore' hpulled =>
          obtain rfl := Option.some.inj (hbefore.symm.trans hsome)
          exact .running (e := e.request n) hpull hemission (hjoined hbefore') hpulled
  | @cancel position e hfocus hbefore hemission =>
      cases h with
      | unborn hnone => rw [hbefore] at hnone; cases hnone
      | barren _ _ hnone => rw [hbefore] at hnone; cases hnone
      | running hpull hsome hbefore' hpulled =>
          obtain rfl := Option.some.inj (hbefore.symm.trans hsome)
          exact .running (e := e.cancel) hpull hemission (hjoined hbefore') hpulled
  | deliver hfocus => exact absurd (.inl ⟨_, hfocus, rfl⟩) (haside S.stack)
  | settle hfocus => exact absurd (.inl ⟨_, hfocus, rfl⟩) (haside S.stack)
  | finish hrest => exact absurd hrest (haside _)
  | goOn hfocus hwaits => exact absurd (.inr ⟨_, _, false, hfocus, hwaits⟩) (haside _)

/-- A step writes down what the sequence gives in it, and the item that it sends on its way. -/
theorem step (h : Foresees pull line answers given S) (hassembled : S.Assembled P)
    (hsource : P.source = .sequence pull) (hstep : S.step? P = some (U, events)) :
    Foresees pull line (answers ++ pulls line events) (given ++ U.coming P line) U := by
  by_cases hemitting : ∃ rest, S.Emitting line rest
  · obtain ⟨rest, hemitting⟩ := hemitting
    exact h.round hsource hemitting hstep
  · have haside : ∀ rest, ¬S.Emitting line rest := fun rest hrest => hemitting ⟨rest, hrest⟩
    by_cases hjoin : ∃ context, S.focus = .call (.join line 0 context)
    · obtain ⟨context, hfocus⟩ := hjoin
      exact h.join hassembled hsource hfocus hstep
    · exact h.aside hassembled hsource haside (fun context hfocus => hjoin ⟨context, hfocus⟩) hstep

theorem move {m : Move α ε} (h : Foresees pull line answers given S) (hmove : Moved P S U m) :
    Foresees pull line answers given U := by
  have hemission : U.emission? line = S.emission? line := State.move_emission? hmove
  cases h with
  | unborn hnone hrounds hloop =>
      exact .unborn (hemission.trans hnone) (hrounds.move hmove) (State.move_ne_emit hmove)
  | barren hpull hline hnone hrounds hcalm =>
      exact .barren hpull (Nat.lt_of_lt_of_le hline (State.move_lines hmove).1)
        (hemission.trans hnone) (hrounds.move hmove) (.of_move hmove hline)
  | running hpull hsome hjoined hpulled =>
      exact .running hpull (hemission.trans hsome)
        (State.Calm.of_move hmove (State.lt_of_emission? hsome)).join hpulled

/-- A line that has been joined to its sequence has asked it. -/
theorem asks (h : Foresees pull line answers given S) (hassembled : S.Assembled P)
    (hsource : P.source = .sequence pull) (hstep : S.step? P = some (U, events))
    {context : Context} (hjoined : .joined line 0 context ∈ events) : pulls line events ≠ [] := by
  by_cases hemitting : ∃ rest, S.Emitting line rest
  · obtain ⟨rest, hemitting⟩ := hemitting
    obtain ⟨e, -, hbefore, -⟩ := h.emitting hemitting
    cases State.step?_rounds hsource hemitting hbefore hstep <;> simp at hjoined
  · by_cases hjoin : ∃ context, S.focus = .call (.join line 0 context)
    · obtain ⟨context, hfocus⟩ := hjoin
      have hstarted : line < S.lines.length := (hassembled.joining _ _ _ hfocus).started
      rw [(State.step?_joins hsource hfocus hstarted hstep).1]
      exact List.cons_ne_nil _ _
    · have hunasked : Unasked line events :=
        State.step?_unasked hstep (fun rest hrest => hemitting ⟨rest, hrest⟩)
          fun context hfocus => hjoin ⟨context, hfocus⟩
      exact absurd hjoined (hunasked.not_joined context)

/-- What a sequence that has been asked has given. -/
theorem ledger (h : Foresees pull line answers given S) (hasked : answers ≠ []) :
    (∃ ahead, answers = given.map some ++ [ahead]) ∧
      answers = (List.range answers.length).map pull := by
  cases h with
  | unborn => exact absurd rfl hasked
  | barren hpull => exact ⟨⟨none, rfl⟩, by simp [List.range_succ, hpull]⟩
  | running hpull hemission hjoined hpulled =>
      refine ⟨⟨_, rfl⟩, ?_⟩
      have hlength := congrArg List.length hpulled
      rw [List.length_map, List.length_range] at hlength
      rw [← hlength, hpulled]

end Foresees

end Wiretap

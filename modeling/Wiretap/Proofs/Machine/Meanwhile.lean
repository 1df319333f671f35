import Wiretap.Proofs.Machine.Calling
import Wiretap.Proofs.Machine.Dealings
import Wiretap.Proofs.Machine.Play
import Wiretap.Proofs.Machine.Release
import Wiretap.Proofs.Machine.Visit
import Wiretap.Proofs.Tap.Release

/-!
# While a call lasts

A call lasts until the machine has come back to the calls that waited when it was made. Meanwhile
its own frame, if it has left one, stays where it is, whatever is called above it, and the use of a
handle and the return of a call can be found among the events.
-/

namespace Wiretap

variable {K : Kinds} {σ α ε : Type}

/-- A play from where the call in focus of `S` is made, for as long as it has not returned. -/
inductive Meanwhile (P : Plan σ α ε) (S : State σ α ε) : List (Entry α ε) → State σ α ε → Prop
  /-- Nothing happens. -/
  | refl : Meanwhile P S [] S
  /-- The machine makes a step. -/
  | step {history : List (Entry α ε)} {T U : State σ α ε} {events : List (Event α ε)} :
    Meanwhile P S history T → ¬S.Returned T → T.step? P = some (U, events) →
    Meanwhile P S (history ++ events.map .event) U
  /-- The outside makes a move. -/
  | move {history : List (Entry α ε)} {T U : State σ α ε} {m : Move α ε} :
    Meanwhile P S history T → T.allows P m = true → T.move? P m = some U →
    Meanwhile P S (history ++ [.move m]) U

theorem Meanwhile.play {P : Plan σ α ε} {S U : State σ α ε} {history : List (Entry α ε)}
    (h : Meanwhile P S history U) : Play P S history U := by
  induction h with
  | refl => exact .refl
  | step _ _ hstep ih => exact ih.step hstep
  | move _ hallows hmove ih => exact ih.move hallows hmove

/-! ## Computing what happens meanwhile -/

namespace State

/-- Step until the outside has the turn or the call in focus of `S` has returned, at most `fuel`
times. -/
def settleWithin (P : Plan σ α ε) (S : State σ α ε) :
    Nat → State σ α ε → List (Entry α ε) × State σ α ε
  | 0, T => ([], T)
  | fuel + 1, T =>
    match Visit.isUnderWay S T, T.step? P with
    | true, some outcome =>
      let later := settleWithin P S fuel outcome.1
      (outcome.2.map .event ++ later.1, later.2)
    | _, _ => ([], T)

/-- The same with some moves in between, which have to be those of an orderly outside. -/
def followWithin (P : Plan σ α ε) (S : State σ α ε) (fuel : Nat) :
    List (Move α ε) → State σ α ε → Option (List (Entry α ε) × State σ α ε)
  | [], T => some (settleWithin P S fuel T)
  | m :: moves, T =>
    let settled := settleWithin P S fuel T
    if settled.2.allows P m then
      match settled.2.move? P m with
      | some U => (followWithin P S fuel moves U).map fun later =>
        (settled.1 ++ .move m :: later.1, later.2)
      | none => none
    else none

end State

namespace Meanwhile

variable {P : Plan σ α ε} {S T U : State σ α ε} {during later : List (Entry α ε)}

theorem settleWithin (fuel : Nat) (h : Meanwhile P S during T) :
    Meanwhile P S (during ++ (S.settleWithin P fuel T).1) (S.settleWithin P fuel T).2 := by
  induction fuel generalizing during T with
  | zero => simpa [State.settleWithin] using h
  | succ fuel ih =>
      unfold State.settleWithin
      split
      next outcome hunder hstep =>
        have hnext := ih (h.step (Visit.not_returned_of_isUnderWay hunder) hstep)
        rwa [List.append_assoc] at hnext
      next => simpa using h

theorem followWithin {fuel : Nat} {moves : List (Move α ε)} (h : Meanwhile P S during T)
    (hfollow : S.followWithin P fuel moves T = some (later, U)) :
    Meanwhile P S (during ++ later) U := by
  induction moves generalizing during later T with
  | nil =>
      have hsettled := h.settleWithin fuel
      rw [State.followWithin, Option.some.injEq] at hfollow
      rwa [hfollow] at hsettled
  | cons m moves ih =>
      unfold State.followWithin at hfollow
      dsimp only at hfollow
      split at hfollow
      next hallows =>
        split at hfollow
        next V hmove =>
          obtain ⟨rest, hrest, heq⟩ := Option.map_eq_some_iff.mp hfollow
          cases heq
          have hnext := ih ((h.settleWithin fuel).move hallows hmove) hrest
          simpa [List.append_assoc] using hnext
        next => cases hfollow
      next => cases hfollow

/-- If what is followed while a call lasts passes a check, then there is a while that does. -/
theorem of_followWithin (fuel : Nat) (moves : List (Move α ε))
    (check : List (Entry α ε) → State σ α ε → Prop) [∀ during U, Decidable (check during U)]
    (h : (S.followWithin P fuel moves S).any
      (fun outcome => decide (check outcome.1 outcome.2)) = true) :
    ∃ during U, Meanwhile P S during U ∧ check during U := by
  obtain ⟨outcome, hfollow, hcheck⟩ := (Option.any_eq_true _ _).mp h
  exact ⟨outcome.1, outcome.2, Meanwhile.refl.followWithin hfollow, of_decide_eq_true hcheck⟩

end Meanwhile

namespace State

variable {P : Plan σ α ε} {S U : State σ α ε} {line place : Nat} {before events : List (Event α ε)}

/-! ## Frames stay -/

theorem above_of_cons {f : Frame α ε} {rest above below : List (Frame α ε)} {guard : Guard}
    {r : Tap.Resume α ε} (hstack : f :: rest = above ++ .tap line place guard r :: below)
    (hf : f.resume? line place = none) :
    ∃ above', rest = above' ++ .tap line place guard r :: below := by
  cases above with
  | nil =>
      rw [List.nil_append, List.cons.injEq] at hstack
      rw [hstack.1] at hf
      simp [Frame.resume?] at hf
  | cons g above => exact ⟨above, (List.cons.inj hstack).2⟩

/-- The frame of a tap stays where it is until the tap goes on. -/
theorem step_above (hassembled : S.Assembled P) (hstep : Stepped P S U events)
    {above below : List (Frame α ε)} {guard : Guard} {r : Tap.Resume α ε}
    (hstack : S.stack = above ++ .tap line place guard r :: below)
    (hunseen : deeds line place events = []) :
    ∃ above', U.stack = above' ++ .tap line place guard r :: below := by
  have hpush : ∀ f : Frame α ε, U.stack = f :: S.stack →
      ∃ above', U.stack = above' ++ .tap line place guard r :: below :=
    fun f hnow => ⟨f :: above, by rw [hnow, hstack, List.cons_append]⟩
  have hsame : U.stack = S.stack →
      ∃ above', U.stack = above' ++ .tap line place guard r :: below :=
    fun hnow => ⟨above, hnow.trans hstack⟩
  have hpop : ∀ (f : Frame α ε) (rest : List (Frame α ε)), S.stack = f :: rest →
      f.resume? line place = none → ∃ above', rest = above' ++ .tap line place guard r :: below :=
    fun f rest hthen hf => above_of_cons (hthen.symm.trans hstack) hf
  have hemit : ∀ {l : Nat} {rest : List (Frame α ε)}, S.Emitting l rest →
      ∃ above', rest = above' ++ .tap line place guard r :: below := by
    rintro l rest (⟨n, -, rfl⟩ | ⟨b, n, last, -, hthen⟩)
    · exact ⟨above, hstack⟩
    · exact hpop _ _ hthen rfl
  cases hstep with
  | serve hfocus hinput hplan htap hturned hshows =>
      rcases hturned.stack with ⟨-, hnow⟩ | ⟨guard', r', -, hnow⟩
      · exact hsame hnow
      · exact hpush _ hnow
  | @resume b l q guard' r' rest p t hfocus hthen hplan htap hturned hshows =>
      have hother : (Frame.tap l q guard' r').resume? line place = none := by
        refine resume?_other (fun hhere => ?_) guard' r'
        obtain ⟨rfl, rfl⟩ := hhere
        exact Tap.resume_deeds_ne_nil (p.listener _) r' b (hshows.here ▸ hunseen)
      obtain ⟨above', habove⟩ := hpop _ _ hthen hother
      rcases hturned.stack with ⟨-, hnow⟩ | ⟨guard'', r'', -, hnow⟩
      · exact ⟨above', hnow.trans habove⟩
      · exact ⟨_ :: above', by rw [hnow, habove, List.cons_append]⟩
  | setUp hfocus hplan hlines hnow hnext hshows => exact hpush _ hnow
  | refuse hfocus hplan hlines hnow hnext hfails hshows => exact hpush _ hnow
  | explain hfocus hthen hlines hrest hnext hquiet =>
      obtain ⟨above', habove⟩ := hpop _ _ hthen rfl
      exact ⟨above', hrest.trans habove⟩
  | hear hfocus hlines hnow hnext hevents => exact hpush _ hnow
  | callOut hfocus hcall hlines hnow hnext hquiet => exact hpush _ hnow
  | endStream hfocus hlines hnow hnext hquiet => exact hpush _ hnow
  | ended hfocus hthen hlines hrest hnext hs hquiet =>
      obtain ⟨above', habove⟩ := hpop _ _ hthen rfl
      exact ⟨above', hrest.trans habove⟩
  | startEmission hfocus hlines hnow hnext hquiet => exact hsame hnow
  | emit hemitting hlines hframe hnow hnext hs hquiet =>
      obtain ⟨above', habove⟩ := hemit hemitting
      exact ⟨_ :: above', by rw [hnow, habove, List.cons_append]⟩
  | loop hemitting hlines hnow hnext hquiet =>
      rcases hemitting with hemitting | ⟨position, k, -, rfl⟩
      · obtain ⟨above', habove⟩ := hemit hemitting
        exact ⟨above', hnow.trans habove⟩
      · exact hsame hnow
  | idle hfocus hcall hclient hlines hnow hnext hquiet => exact hsame hnow
  | pop hfocus hthen hframe hlines hrest hnext hquiet =>
      obtain ⟨above', habove⟩ :=
        hpop _ _ hthen (resume?_foreign (foreign_of_pop hassembled hthen hframe))
      exact ⟨above', hrest.trans habove⟩
  | handOver hfocus hthen hlines hnow hnext hquiet => exact hsame hnow

/-- No frame of a tap goes on in a move. -/
theorem move_above {m : Move α ε} (hmove : Moved P S U m) {above below : List (Frame α ε)}
    {guard : Guard} {r : Tap.Resume α ε}
    (hstack : S.stack = above ++ .tap line place guard r :: below) :
    ∃ above', U.stack = above' ++ .tap line place guard r :: below := by
  cases hmove with
  | answer hturn hthen hlines hrest hnext =>
      obtain ⟨above', habove⟩ := above_of_cons (hthen.symm.trans hstack) rfl
      exact ⟨above', hrest.trans habove⟩
  | subscribe hturn hlines hnow hnext => exact ⟨above, hnow.trans hstack⟩
  | signal hturn hlines hnow hnext => exact ⟨above, hnow.trans hstack⟩
  | control hturn hreceived hlines hnow hnext => exact ⟨above, hnow.trans hstack⟩
  | direct hturn hlines hnow hnext => exact ⟨above, hnow.trans hstack⟩

/-! ## Uses and returns -/

/-- A handle is to be used at the end of a step only where a tap has taken a turn. -/
theorem acts_of_due (hstep : Stepped P S U events) (hdue : U.due line place ≠ []) :
    ∃ p t, P.taps[place]? = some p ∧ S.tap? line place = some t ∧
      Acts P S U events line place p t := by
  cases hstep with
  | @serve c l q input p t hfocus hinput hplan htap hturned hshows =>
      by_cases hhere : line = l ∧ place = q
      · obtain ⟨rfl, rfl⟩ := hhere
        exact ⟨p, t, hplan, htap, .serve hfocus hinput hturned hshows.here⟩
      · exact absurd (due_of_turned_other hhere hturned) hdue
  | @resume b l q guard r rest p t hfocus hstack hplan htap hturned hshows =>
      by_cases hhere : line = l ∧ place = q
      · obtain ⟨rfl, rfl⟩ := hhere
        exact ⟨p, t, hplan, htap, .resume hfocus hstack hturned hshows.here⟩
      · exact absurd (due_of_turned_other hhere hturned) hdue
  | setUp hfocus hplan hlines hstack hnext hshows => exact absurd (by rw [due, hnext]) hdue
  | refuse hfocus hplan hlines hstack hnext hfails hshows => exact absurd (due_of_signal hnext) hdue
  | explain hfocus hstack hlines hrest hnext hquiet => exact absurd (due_of_signal hnext) hdue
  | hear hfocus hlines hstack hnext hevents => exact absurd (due_of_outside hnext) hdue
  | callOut hfocus hcall hlines hstack hnext hquiet => exact absurd (due_of_outside hnext) hdue
  | endStream hfocus hlines hstack hnext hquiet => exact absurd (due_of_sourceSignal hnext) hdue
  | ended hfocus hstack hlines hrest hnext hs hquiet =>
      exact absurd (due_of_sourceSignal hnext) hdue
  | startEmission hfocus hlines hstack hnext hquiet => exact absurd (due_of_sourceSignal hnext) hdue
  | emit hemitting hlines hframe hstack hnext hs hquiet =>
      exact absurd (due_of_sourceSignal hnext) hdue
  | loop hemitting hlines hstack hnext hquiet => exact absurd (by rw [due, hnext]) hdue
  | idle hfocus hcall hclient hlines hstack hnext hquiet => exact absurd (due_of_back hnext) hdue
  | pop hfocus hstack hframe hlines hrest hnext hquiet => exact absurd (due_of_back hnext) hdue
  | handOver hfocus hstack hlines hsame hnext hquiet => exact absurd (due_of_outside hnext) hdue

/-- Where there is no tap, no handle is to be used at the end of a step. -/
theorem due_of_vacant (hstep : Stepped P S U events) (hnone : S.tap? line place = none) :
    U.due line place = [] := by
  by_contra hdue
  obtain ⟨p, t, -, htap, -⟩ := acts_of_due hstep hdue
  rw [hnone] at htap
  cases htap

/-- Where nothing can be seen of a tap, and behind the last tap, no handle is to be used at the end
of a step. -/
theorem step_due (hstep : Stepped P S U events)
    (hunseen : place < P.depth → deeds line place events = []) : U.due line place = [] := by
  by_contra hdue
  obtain ⟨p, t, hplan, -, hacts⟩ := acts_of_due hstep hdue
  have hnone := hunseen (List.getElem?_eq_some_iff.mp hplan).1
  cases hacts with
  | serve hfocus hinput hturned hdeeds =>
      rw [hdeeds] at hnone
      cases hnone
  | @resume b guard r rest hfocus hstack hturned hdeeds =>
      rw [hdeeds] at hnone
      exact Tap.resume_deeds_ne_nil (p.listener _) r b hnone

/-- After a move no tap is to use its handle. -/
theorem move_due {m : Move α ε} (hmove : Moved P S U m) (hplace : place < P.depth) :
    U.due line place = [] := by
  have hcontrol : ∀ l h c, U.focus = .call (.control l P.depth h c) → U.due line place = [] := by
    intro l h c hnext
    rw [due, hnext]
    simp [Nat.ne_of_gt hplace]
  cases hmove with
  | subscribe hturn hlines hstack hnext => rw [due, hnext]
  | signal hturn hlines hstack hnext => exact due_of_sourceSignal hnext
  | control hturn hreceived hlines hstack hnext => exact hcontrol _ _ _ hnext
  | direct hturn hlines hstack hnext => exact hcontrol _ _ _ hnext
  | answer hturn hstack hlines hrest hnext => exact due_of_back hnext

/-- In a move the open calls of a tap stay. -/
theorem move_calls {m : Move α ε} (hmove : Moved P S U m) (hplace : place < P.depth) :
    U.calls line place before = S.calls line place before := by
  obtain ⟨b, hturn⟩ := move_turn hmove
  rw [calls, calls, move_due hmove hplace, due_of_outside hturn]

/-- A tap that returns at the end of a turn does so in an event of the step. -/
theorem step?_returns (hstep : S.step? P = some (U, events)) (turn : Tap.Turn σ α ε) {b : Bool}
    (begun : List (Tap.Deed α ε)) {call : Tap.OpenCall α ε} {outer : List (Tap.OpenCall α ε)}
    (hdeeds : deeds line place events = begun ++ turn.deeds) (hnext : turn.next = .answer b)
    (hbegun : begun.foldl Tap.Deed.file (S.calls line place before) = call :: outer) :
    ∃ shown after, events = shown ++ .returned line place b :: after ∧
      openCalls line place (before ++ shown) = call.did turn.doings :: outer := by
  rw [Tap.Turn.deeds, hnext, Tap.Next.deeds, ← List.append_assoc] at hdeeds
  obtain ⟨first, second, rfl, hfirst, hsecond⟩ := List.filterMap_eq_append_iff.mp hdeeds
  obtain ⟨silent, e, after, rfl, hsilent, he, -⟩ := List.filterMap_eq_cons_iff.mp hsecond
  obtain rfl : e = .returned line place b := by
    cases e with
    | returned l q b' =>
        simp only [Event.deed?, Option.ite_none_right_eq_some, Option.some.injEq,
          Tap.Deed.returned.injEq] at he
        obtain ⟨⟨rfl, rfl⟩, rfl⟩ := he
        rfl
    | _ => simp [Event.deed?] at he
  refine ⟨first ++ silent, after, by simp, ?_⟩
  have hshown : deeds line place (first ++ silent) = begun ++ turn.acts.map .acted := by
    rw [deeds_append, show deeds line place first = _ from hfirst,
      show deeds line place silent = [] from List.filterMap_eq_nil_iff.mpr hsilent,
      List.append_nil]
  have hsplit : first ++ (silent ++ .returned line place b :: after) =
      (first ++ silent) ++ .returned line place b :: after := (List.append_assoc ..).symm
  rw [step?_calls hstep before hsplit (by simp [Event.isUse]), hshown, List.foldl_append, hbegun,
    foldl_note_acted, Tap.Turn.doings, hnext, Tap.Next.doings, List.append_nil]

end State

end Wiretap

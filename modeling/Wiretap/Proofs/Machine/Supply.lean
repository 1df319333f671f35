import Wiretap.Proofs.Machine.Handles
import Wiretap.Proofs.Machine.Mail
import Wiretap.Proofs.Machine.Offers

/-!
# What a line is supplied with

The items that the first receiver of a line gets are those that the loop of the line's emission
hands out. Each is on its way for one step, and then it has arrived.
-/

namespace Wiretap

variable {K : Kinds} {σ α ε : Type} {P : Plan σ α ε} {S U : State σ α ε} {line : Nat}
  {events : List (Event α ε)}

/-- The item in the signal that a call delivers. -/
def Call.item? : Call α ε → Option α
  | .tap _ _ s => s.item?
  | .client _ s => s.item?
  | _ => none

/-- The items that the first receiver of a line has got. -/
def supplied (P : Plan σ α ε) (line : Nat) (events : List (Event α ε)) : List α :=
  (arrivals P line 0 events).filterMap Call.item?

/-- The item that is on its way to the first receiver of a line. -/
def State.coming (P : Plan σ α ε) (S : State σ α ε) (line : Nat) : List α :=
  (S.inFlight P line 0).filterMap Call.item?

theorem supplied_append (first second : List (Event α ε)) :
    supplied P line (first ++ second) = supplied P line first ++ supplied P line second := by
  simp [supplied, arrivals_append]

theorem Quiet.supplied (h : Quiet events) : supplied P line events = [] := by
  rw [Wiretap.supplied, h.arrivals]
  rfl

theorem item?_signal (position : Nat) (s : Signal α (TapError ε)) :
    (P.signal line position s).item? = s.item? := by
  unfold Plan.signal
  split <;> simp [Call.item?]

theorem item?_sourceSignal (s : Signal α ε) : (P.sourceSignal line s).item? = s.item? := by
  unfold Plan.sourceSignal
  split <;> simp [Call.item?]

namespace State

theorem coming_of_call {c : Call α ε} (hfocus : S.focus = .call c) (hc : c.item? = none) :
    S.coming P line = [] := by
  unfold coming inFlight
  rw [hfocus]
  cases c with
  | tap l place s =>
      dsimp only
      split
      · rw [List.filterMap_cons_none hc]
        rfl
      · rfl
  | client l s =>
      dsimp only
      split
      · rw [List.filterMap_cons_none hc]
        rfl
      · rfl
  | _ => rfl

theorem coming_of_back {b : Bool} (hfocus : S.focus = .back b) : S.coming P line = [] := by
  simp [coming, inFlight, hfocus]

theorem coming_of_outside {b : Bool} (hfocus : S.focus = .outside b) : S.coming P line = [] := by
  simp [coming, inFlight, hfocus]

/-- What a source sends is on its way to the first receiver of its line. -/
theorem coming_sourceSignal {l : Nat} {s : Signal α ε}
    (hfocus : S.focus = .call (P.sourceSignal l s)) :
    S.coming P line = if l = line then s.item?.toList else [] := by
  have hflight : S.inFlight P line 0 = if l = line then [P.sourceSignal l s] else [] := by
    unfold inFlight
    rw [hfocus]
    unfold Plan.sourceSignal
    by_cases hpositive : 0 < P.depth
    · simp [hpositive]
    · simp [hpositive, Nat.le_zero.mpr (Nat.eq_zero_of_not_pos hpositive)]
  rw [coming, hflight]
  split
  · rw [Tap.filterMap_cons_toList, item?_sourceSignal]
    simp
  · rfl

/-- An item that is on its way has been sent by the source of the line. -/
theorem focus_of_coming {x : α} (h : x ∈ S.coming P line) :
    ∃ s, s.item? = some x ∧ S.focus = .call (P.sourceSignal line s) := by
  obtain ⟨c, hc, hitem⟩ := List.mem_filterMap.mp h
  unfold inFlight at hc
  split at hc
  next l place s hfocus =>
    split at hc
    next hhere =>
      obtain rfl := List.mem_singleton.mp hc
      obtain ⟨rfl, rfl, hpositive⟩ := hhere
      refine ⟨s, hitem, ?_⟩
      rw [hfocus, Plan.sourceSignal, if_pos hpositive]
    next => cases hc
  next l s hfocus =>
    split at hc
    next hhere =>
      obtain rfl := List.mem_singleton.mp hc
      obtain ⟨rfl, hdepth⟩ := hhere
      have hnone : ¬0 < P.depth := by omega
      cases s with
      | next y =>
          refine ⟨.next y, hitem, ?_⟩
          rw [hfocus, Plan.sourceSignal, if_neg hnone]
          rfl
      | offer y =>
          refine ⟨.offer y, hitem, ?_⟩
          rw [hfocus, Plan.sourceSignal, if_neg hnone]
          rfl
      | _ => cases hitem
    next => cases hc
  next => cases hc

/-- An item that is on its way finds the first tap there. -/
theorem there_of_item (hhandled : S.Handled P) (hassembled : S.Assembled P) {s : Signal α ε}
    (hfocus : S.focus = .call (.tap line 0 s)) (hpositive : 0 < P.depth) {x : α}
    (hs : s.item? = some x) : (∃ p, P.taps[0]? = some p) ∧ ∃ t, S.tap? line 0 = some t := by
  have hbegun : S.hasBegun P line = true := by
    refine (hhandled.called _ hfocus).begun line ?_
    cases s <;> first | rfl | cases hs
  rw [hasBegun, if_pos hpositive] at hbegun
  obtain ⟨t, htap, -⟩ := source_of_hasHandle hbegun
  exact ⟨hassembled.planned (by rw [htap]; rfl), t, htap⟩

/-- What is on its way arrives in the next step. -/
theorem step_supplied (hassembled : S.Assembled P) (hhandled : S.Handled P)
    (hstep : Stepped P S U events) : supplied P line events = S.coming P line := by
  have hquietly : Quiet events → S.coming P line = [] →
      supplied P line events = S.coming P line := fun hquiet hnone =>
    hquiet.supplied.trans hnone.symm
  cases hstep with
  | serve hfocus hinput hplan htap hturned hshows =>
      rw [supplied, coming, serve_arrivals hfocus hinput hshows]
  | resume hfocus hstack hplan htap hturned hshows =>
      rw [supplied, shows_arrivals hshows (by simp), coming_of_back hfocus]
      rfl
  | setUp hfocus hplan hlines hstack hnext hshows =>
      rw [supplied, shows_arrivals hshows rfl, coming_of_call hfocus rfl]
      rfl
  | refuse hfocus hplan hlines hstack hnext hfails hshows =>
      rw [supplied, shows_arrivals hshows (by cases hfails <;> rfl), coming_of_call hfocus rfl]
      rfl
  | @hear l s hfocus hlines hstack hnext hevents =>
      have harrived : arrivals P line 0 events = S.inFlight P line 0 := by
        rw [hevents, arrivals, inFlight, hfocus]
        by_cases hpositive : 0 < P.depth
        · simp [hpositive, Event.deed?, Nat.not_le.mpr hpositive]
        · have hle : P.depth ≤ 0 := Nat.not_lt.mp hpositive
          by_cases hline : l = line <;> simp [hpositive, hle, hline, Event.heard?]
      rw [supplied, coming, harrived]
  | explain hfocus hstack hlines hrest hnext hquiet => exact hquietly hquiet (coming_of_back hfocus)
  | callOut hfocus hcall hlines hstack hnext hquiet =>
      refine hquietly hquiet (coming_of_call hfocus ?_)
      rcases hcall with ⟨-, -, -, -, rfl, -⟩ | ⟨-, -, rfl, -⟩ <;> rfl
  | endStream hfocus hlines hstack hnext hquiet =>
      exact hquietly hquiet (coming_of_call hfocus rfl)
  | ended hfocus hstack hlines hrest hnext hs hquiet =>
      exact hquietly hquiet (coming_of_back hfocus)
  | startEmission hfocus hlines hstack hnext hquiet =>
      exact hquietly hquiet (coming_of_call hfocus rfl)
  | emit hemitting hlines hframe hstack hnext hs hquiet =>
      refine hquietly hquiet ?_
      rw [coming, inFlight_emitting hemitting]
      rfl
  | loop hemitting hlines hstack hnext hquiet =>
      refine hquietly hquiet ?_
      rcases hemitting with hemitting | ⟨position, k, hfocus, -⟩
      · rw [coming, inFlight_emitting hemitting]
        rfl
      · exact coming_of_call hfocus rfl
  | @idle c b hfocus hcall hclient hlines hstack hnext hquiet =>
      refine hquietly hquiet ?_
      cases c with
      | tap l place s =>
          cases hitem : s.item? with
          | none => exact coming_of_call hfocus hitem
          | some x =>
              unfold coming inFlight
              rw [hfocus]
              refine congrArg _ (if_neg ?_)
              rintro ⟨rfl, rfl, hpositive⟩
              obtain ⟨⟨p, hplan⟩, t, htap⟩ :=
                there_of_item hhandled hassembled hfocus hpositive hitem
              rcases hcall _ _ _ rfl with hnone | hnone
              · rw [hplan] at hnone
                cases hnone
              · rw [htap] at hnone
                cases hnone
      | client l s => exact absurd rfl (hclient l s)
      | _ => exact coming_of_call hfocus rfl
  | pop hfocus hstack hframe hlines hrest hnext hquiet =>
      exact hquietly hquiet (coming_of_back hfocus)
  | handOver hfocus hstack hlines hsame hnext hquiet =>
      exact hquietly hquiet (coming_of_back hfocus)

/-- A step that does not concern the emission sends its line nothing. -/
theorem step?_coming (hstep : S.step? P = some (U, events))
    (haside : ∀ rest, ¬S.Emitting line rest) : U.coming P line = [] := by
  have hturned : ∀ {rest : List (Frame α ε)} {l place : Nat} {turn : Tap.Turn σ α ε}
      {p : TapPlan σ α ε}, P.taps[place]? = some p → Turned P S rest l place turn U →
      U.coming P line = [] := by
    intro rest l place turn p hplan hturned
    rcases hturned.focus with ⟨b, hnext⟩ | ⟨s, hnext⟩ | ⟨handle, c, hnext⟩
    · exact coming_of_back hnext
    · have hplace : place < P.depth := (List.getElem?_eq_some_iff.mp hplan).1
      rw [coming, inFlight_signal hplace (Nat.zero_le _) hnext, if_neg (by simp)]
      rfl
    · exact coming_of_call hnext rfl
  cases step?_stepped hstep with
  | serve hfocus hinput hplan htap hturn => exact hturned hplan hturn
  | resume hfocus hstack hplan htap hturn => exact hturned hplan hturn
  | setUp hfocus hplan hlines hstack hnext => exact coming_of_call hnext rfl
  | refuse hfocus hplan hlines hstack hnext => exact coming_of_call hnext (item?_signal _ _)
  | explain hfocus hstack hlines hrest hnext => exact coming_of_call hnext (item?_signal _ _)
  | hear hfocus hlines hstack hnext => exact coming_of_outside hnext
  | callOut hfocus hcall hlines hstack hnext => exact coming_of_outside hnext
  | endStream hfocus hlines hstack hnext => exact coming_of_call hnext (item?_sourceSignal _)
  | ended hfocus hstack hlines hrest hnext =>
      obtain ⟨s, hsent, hs⟩ := step?_ending hstep hfocus hstack
      exact coming_of_call hsent ((item?_sourceSignal s).trans hs)
  | startEmission hfocus hlines hstack hnext => exact coming_of_call hnext (item?_sourceSignal _)
  | @emit l rest f s hemitting hlines hframe hstack hnext =>
      rw [coming_sourceSignal hnext, if_neg]
      rintro rfl
      exact haside rest hemitting
  | loop hemitting hlines hstack hnext => exact coming_of_call hnext rfl
  | idle hfocus hcall hclient hlines hstack hnext => exact coming_of_back hnext
  | pop hfocus hstack hframe hlines hrest hnext => exact coming_of_back hnext
  | handOver hfocus hstack hlines hsame hnext => exact coming_of_outside hnext

end State

end Wiretap

import Wiretap.Proofs.Machine.Play

/-!
# Following a list of moves

A play is determined by its moves, so it can be computed: the machine steps as long as it can, then
the next move is made. Here this is also done for taps whose listeners fail whenever certain hooks
run, which is how single plays are shown to exist.
-/

namespace Wiretap

variable {K : Kinds} {σ α ε : Type}

namespace State

/-- Step until the outside has the turn, at most `fuel` times. -/
def settleDown (P : Plan σ α ε) : Nat → State σ α ε → List (Entry α ε) × State σ α ε
  | 0, S => ([], S)
  | fuel + 1, S =>
    match S.step? P with
    | none => ([], S)
    | some outcome =>
      let later := settleDown P fuel outcome.1
      (outcome.2.map .event ++ later.1, later.2)

/-- Step until the outside has the turn, make a move, and so on. There is no outcome if a move is
not one of an orderly outside. -/
def follow (P : Plan σ α ε) (fuel : Nat) :
    List (Move α ε) → State σ α ε → Option (List (Entry α ε) × State σ α ε)
  | [], S => some (S.settleDown P fuel)
  | m :: moves, S =>
    let settled := S.settleDown P fuel
    if settled.2.allows P m then
      match settled.2.move? P m with
      | some U => (follow P fuel moves U).map fun later =>
        (settled.1 ++ .move m :: later.1, later.2)
      | none => none
    else none

/-- Follow some moves, make one more, and then no more than so many steps. -/
def followTo (P : Plan σ α ε) (fuel : Nat) (moves : List (Move α ε)) (last : Move α ε) (steps : Nat)
    (S : State σ α ε) : Option (List (Entry α ε) × State σ α ε) :=
  (S.follow P fuel moves).bind fun now =>
    if now.2.allows P last then
      (now.2.move? P last).map fun U =>
        let later := U.settleDown P steps
        (now.1 ++ [.move last] ++ later.1, later.2)
    else none

end State

namespace Play

variable {P : Plan σ α ε} {S U : State σ α ε} {history : List (Entry α ε)}

theorem settleDown (P : Plan σ α ε) (fuel : Nat) (S : State σ α ε) :
    Play P S (S.settleDown P fuel).1 (S.settleDown P fuel).2 := by
  induction fuel generalizing S with
  | zero => exact .refl
  | succ fuel ih =>
      unfold State.settleDown
      split
      · exact .refl
      next outcome hstep =>
        have hfirst : Play P S ([] ++ outcome.2.map .event) outcome.1 := .step .refl hstep
        rw [List.nil_append] at hfirst
        exact hfirst.trans (ih outcome.1)

theorem follow {fuel : Nat} {moves : List (Move α ε)}
    (h : S.follow P fuel moves = some (history, U)) : Play P S history U := by
  induction moves generalizing S history with
  | nil =>
      have hsettled := settleDown P fuel S
      rw [State.follow, Option.some.injEq] at h
      rwa [h] at hsettled
  | cons m moves ih =>
      unfold State.follow at h
      dsimp only at h
      split at h
      next hallows =>
        split at h
        next T hmove =>
          obtain ⟨later, hlater, heq⟩ := Option.map_eq_some_iff.mp h
          cases heq
          have hmoved := (settleDown P fuel S).move hallows hmove
          have hplay := hmoved.trans (ih hlater)
          rwa [List.append_assoc] at hplay
        next => cases h
      next => cases h

/-- If what is followed passes a check, then there is a play that does. -/
theorem of_follow (fuel : Nat) (moves : List (Move α ε))
    (check : List (Entry α ε) → State σ α ε → Prop) [∀ history U, Decidable (check history U)]
    (h : (S.follow P fuel moves).any (fun outcome => decide (check outcome.1 outcome.2)) = true) :
    ∃ history U, Play P S history U ∧ check history U := by
  obtain ⟨outcome, hfollow, hcheck⟩ := (Option.any_eq_true _ _).mp h
  exact ⟨outcome.1, outcome.2, .follow hfollow, of_decide_eq_true hcheck⟩

theorem followTo {fuel steps : Nat} {moves : List (Move α ε)} {last : Move α ε}
    (h : S.followTo P fuel moves last steps = some (history, U)) : Play P S history U := by
  obtain ⟨now, hnow, hlater⟩ := Option.bind_eq_some_iff.mp h
  split at hlater
  next hallows =>
    obtain ⟨T, hmove, heq⟩ := Option.map_eq_some_iff.mp hlater
    cases heq
    exact ((follow hnow).move hallows hmove).trans (settleDown P steps T)
  next => cases hlater

/-- If what is followed up to some step passes a check, then there is a play that does. -/
theorem of_followTo (fuel : Nat) (moves : List (Move α ε)) (last : Move α ε) (steps : Nat)
    (check : List (Entry α ε) → State σ α ε → Prop) [∀ history U, Decidable (check history U)]
    (h : (S.followTo P fuel moves last steps).any
      (fun outcome => decide (check outcome.1 outcome.2)) = true) :
    ∃ history U, Play P S history U ∧ check history U := by
  obtain ⟨outcome, hfollow, hcheck⟩ := (Option.any_eq_true _ _).mp h
  exact ⟨outcome.1, outcome.2, .followTo hfollow, of_decide_eq_true hcheck⟩

end Play

/-- A listener that fails whenever one of the listed hooks runs. -/
def Listener.brittle [Kinds] (failing : List String) : Listener Unit α ε where
  run s h := (s, if h.name ∈ failing then some (.message h.name) else none)
  augment s c := (s, .ok c)
  notice s _ := s

/-- A tap whose listeners fail whenever one of the listed hooks runs. -/
def TapPlan.brittle [Kinds] (failing : List String) : TapPlan Unit α ε where
  scope := .inert
  create _ _ _ := .ok ()
  listener _ := .brittle failing

/-- A source driven by hand with such taps on it. -/
def Plan.brittle [Kinds] (failing : List (List String)) : Plan Unit Nat Nat where
  source := .manual
  taps := failing.map .brittle
  adapt e := e.source?.getD 0

/-- Two such taps. The first one fails on a cancellation. -/
def Plan.brittlePair [Kinds] (failing : String) : Plan Unit Nat Nat :=
  .brittle [["do_on_cancel"], [failing]]

/-- A client that takes every item. -/
def Client.plain [Kinds] : Client := ⟨.empty, false⟩

end Wiretap

import Wiretap.Proofs.Machine.Follow

/-!
# Dialogues

A client that has subscribed hears signals, uses the handle that it has got, and returns from its
callbacks. A dialogue lists just that, in order, and nothing of what goes on behind the client's
back. So two plans that have the same dialogues with a client are the same to it.
-/

namespace Wiretap

variable {K : Kinds} {σ α ε : Type}

/-- One entry of a dialogue. -/
inductive Utterance (α ε : Type)
  /-- The client hears a signal; which handle it is given does not show. -/
  | heard (s : Signal α (TapError ε))
  /-- The client uses its handle. -/
  | used (c : Control)
  /-- The client returns from the callback in progress. -/
  | answered (b : Bool)
deriving DecidableEq

/-- The signal with its handle made unrecognizable. -/
def Signal.faceless : Signal α ε → Signal α ε
  | .subscribe _ => .subscribe .empty
  | s => s

/-- What events say to the client. -/
def told (events : List (Event α ε)) : List (Utterance α ε) :=
  (heardBy 0 events).map fun s => .heard s.faceless

@[simp] theorem told_nil : told ([] : List (Event α ε)) = [] := rfl

@[simp] theorem told_append (first second : List (Event α ε)) :
    told (first ++ second) = told first ++ told second := by
  simp [told]

/-- May a client say this next, given the callback in progress? -/
def Conduct (α ε : Type) : Type := Option (Signal α (TapError ε)) → Utterance α ε → Bool

namespace State

/-- The callback of the client that is in progress. -/
def callback? (S : State σ α ε) : Option (Signal α (TapError ε)) :=
  match S.stack with
  | .outside (.client _ s) :: _ => some s
  | _ => none

/-- The client has subscribed to a fresh plan, and nothing has happened yet. -/
def hosting (P : Plan σ α ε) (client : Client) (ambient : Context) : State σ α ε :=
  ((start P ambient).addLine P client).call (.join 0 P.depth client.context)

theorem move?_subscribe (P : Plan σ α ε) (client : Client) (ambient : Context) :
    (start P ambient).move? P (.subscribe client) = some (hosting P client ambient) := rfl

end State

/-- The machine makes steps until the outside has the turn. -/
def State.Yields (P : Plan σ α ε) (S : State σ α ε) : Prop :=
  ∃ (events : List (Event α ε)) (U : State σ α ε) (b : Bool),
    Run P S (events.map .event) U ∧ U.focus = .outside b

namespace State.Yields

variable {P : Plan σ α ε} {S T : State σ α ε} {events : List (Event α ε)}

theorem of_outside {b : Bool} (h : S.focus = .outside b) : S.Yields P := ⟨[], S, b, .refl, h⟩

theorem of_step (hstep : S.step? P = some (T, events)) (h : T.Yields P) : S.Yields P := by
  obtain ⟨later, U, b, hrun, hU⟩ := h
  have hfirst : Run P S ([] ++ events.map .event) T := .step .refl hstep
  refine ⟨events ++ later, U, b, ?_, hU⟩
  rw [List.map_append]
  exact hfirst.trans hrun

end State.Yields

/-- A client that subscribes to a fresh plan can have this dialogue, and the last state is where it
leads. -/
inductive Talks (P : Plan σ α ε) (conduct : Conduct α ε) (client : Client) (ambient : Context) :
    List (Utterance α ε) → State σ α ε → Prop
  /-- The client subscribes. -/
  | subscribe {S : State σ α ε} : (State.start P ambient).move? P (.subscribe client) = some S →
    Talks P conduct client ambient [] S
  /-- The machine makes a step. -/
  | step {d : List (Utterance α ε)} {T U : State σ α ε} {events : List (Event α ε)} :
    Talks P conduct client ambient d T → T.step? P = some (U, events) →
    Talks P conduct client ambient (d ++ told events) U
  /-- The client uses a handle. -/
  | use {d : List (Utterance α ε)} {T U : State σ α ε} {nth : Nat} {c : Control} :
    Talks P conduct client ambient d T → conduct T.callback? (.used c) = true →
    T.move? P (.control 0 nth c) = some U → Talks P conduct client ambient (d ++ [.used c]) U
  /-- The client returns from a callback. -/
  | answer {d : List (Utterance α ε)} {T U : State σ α ε} {b : Bool} :
    Talks P conduct client ambient d T → conduct T.callback? (.answered b) = true →
    T.move? P (.answer b) = some U → Talks P conduct client ambient (d ++ [.answered b]) U

namespace State

/-- What becomes of what the client says, if it has the turn. -/
def reply? (P : Plan σ α ε) (S : State σ α ε) : Utterance α ε → Option (State σ α ε)
  | .used c => S.move? P (.control 0 0 c)
  | .answered b => S.move? P (.answer b)
  | .heard _ => none

/-- Step until the client has the turn, have it say the next thing, and so on. -/
def converse (P : Plan σ α ε) (conduct : Conduct α ε) (fuel : Nat) :
    List (Utterance α ε) → State σ α ε → Option (List (Utterance α ε) × State σ α ε)
  | [], S =>
    let settled := S.settleDown P fuel
    some (told (happened settled.1), settled.2)
  | u :: more, S =>
    let settled := S.settleDown P fuel
    if conduct settled.2.callback? u then
      match settled.2.reply? P u with
      | some U => (converse P conduct fuel more U).map fun later =>
        (told (happened settled.1) ++ u :: later.1, later.2)
      | none => none
    else none

end State

namespace Talks

variable {P : Plan σ α ε} {conduct : Conduct α ε} {client : Client} {ambient : Context}
  {d later : List (Utterance α ε)} {S U : State σ α ε}

theorem settleDown (h : Talks P conduct client ambient d S) (fuel : Nat) :
    Talks P conduct client ambient (d ++ told (happened (S.settleDown P fuel).1))
      (S.settleDown P fuel).2 := by
  induction fuel generalizing S d with
  | zero => simpa [State.settleDown] using h
  | succ fuel ih =>
      unfold State.settleDown
      split
      · simpa using h
      next outcome hstep =>
        have hlater := ih (h.step hstep)
        simpa using hlater

theorem converse {fuel : Nat} {said : List (Utterance α ε)}
    (h : Talks P conduct client ambient d S)
    (hsaid : S.converse P conduct fuel said = some (later, U)) :
    Talks P conduct client ambient (d ++ later) U := by
  induction said generalizing S d later with
  | nil =>
      cases hsaid
      exact h.settleDown fuel
  | cons u more ih =>
      unfold State.converse at hsaid
      dsimp only at hsaid
      split at hsaid
      next hconduct =>
        split at hsaid
        next T hreply =>
          obtain ⟨rest, hrest, heq⟩ := Option.map_eq_some_iff.mp hsaid
          cases heq
          have hsettled := h.settleDown fuel
          have hreplied : Talks P conduct client ambient
              (d ++ told (happened (S.settleDown P fuel).1) ++ [u]) T := by
            cases u with
            | heard s => cases hreply
            | used c => exact hsettled.use hconduct hreply
            | answered b => exact hsettled.answer hconduct hreply
          have htalks := ih hreplied hrest
          simpa using htalks
        next => cases hsaid
      next => cases hsaid

/-- If what comes of a conversation passes a check, then there is a dialogue that does. -/
theorem of_converse (P : Plan σ α ε) (conduct : Conduct α ε) (client : Client) (ambient : Context)
    (fuel : Nat) (said : List (Utterance α ε))
    (check : List (Utterance α ε) → State σ α ε → Prop) [∀ d U, Decidable (check d U)]
    (h : ((State.hosting P client ambient).converse P conduct fuel said).any
      (fun outcome => decide (check outcome.1 outcome.2)) = true) :
    ∃ d U, Talks P conduct client ambient d U ∧ check d U := by
  obtain ⟨outcome, hconverse, hcheck⟩ := (Option.any_eq_true _ _).mp h
  have htalks := converse (.subscribe (State.move?_subscribe P client ambient)) hconverse
  exact ⟨outcome.1, outcome.2, htalks, of_decide_eq_true hcheck⟩

end Talks

namespace State

/-- What the client of a line without taps may do when it has the turn. -/
theorem move?_control_eq_some {P : Plan σ α ε} {S U : State σ α ε} {line nth : Nat} {c : Control}
    (h : S.move? P (.control line nth c) = some U) :
    (∃ b, S.focus = .outside b) ∧ ∃ handle, S.received? line nth = some handle ∧
      U = S.call (.control line P.depth handle c) := by
  unfold move? at h
  cases hfocus : S.focus with
  | outside b =>
      rw [hfocus] at h
      obtain ⟨handle, hreceived, hU⟩ := Option.map_eq_some_iff.mp h
      exact ⟨⟨b, rfl⟩, handle, hreceived, hU.symm⟩
  | call c' => simp [hfocus] at h
  | back b => simp [hfocus] at h

theorem move?_answer_eq_some {P : Plan σ α ε} {S U : State σ α ε} {b : Bool}
    (h : S.move? P (.answer b) = some U) :
    (∃ b', S.focus = .outside b') ∧ ∃ callback rest, S.stack = .outside callback :: rest ∧
      U = ({ S with stack := rest } : State σ α ε).back (callback.answer b) := by
  unfold move? at h
  cases hfocus : S.focus with
  | outside b' =>
      rw [hfocus] at h
      dsimp only at h
      split at h
      next callback rest hstack =>
        exact ⟨⟨b', rfl⟩, callback, rest, hstack, (Option.some.inj h).symm⟩
      next => cases h
  | call c' => simp [hfocus] at h
  | back b' => simp [hfocus] at h

end State

end Wiretap

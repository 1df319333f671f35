import Wiretap.Proofs.Machine.Dialogue

/-!
# Machines with one line

A machine with one line holds a client, its handles, the emission of the source, and perhaps taps.
Here is what each step does that no tap takes part in. Where there are no taps, signals go from the
source straight to the client.
-/

namespace Wiretap

variable {K : Kinds} {σ α ε : Type}

/-- How a client is handed an item. -/
def Client.item (client : Client) (x : α) : Signal α ε :=
  if client.conditional then .offer x else .next x

theorem Client.item_mapError {ε' : Type} (client : Client) (f : ε → ε') (x : α) :
    (client.item x : Signal α ε).mapError f = client.item x := by
  unfold Client.item
  split <;> rfl

/-- The signal by which a source without items ends its stream. -/
def Signal.ofEnd : Option ε → Signal α ε
  | none => .complete
  | some e => .error e

/-- The source has no items and ends its stream, by an error if there is one. -/
inductive Plan.Ends (P : Plan σ α ε) : Option ε → Prop
  | empty (h : P.source = .empty) : Ends P none
  | failed {e : ε} (h : P.source = .failed e) : Ends P (some e)
  | exhausted {pull : Nat → Option α} (h : P.source = .sequence pull) (hpull : pull 0 = none) :
    Ends P none

/-- Nothing waits, or a callback of the outside does, so a return hands the turn to the outside. -/
inductive HandsOver : List (Frame α ε) → Prop
  | nil : HandsOver []
  | callback {c : Callback α ε} {rest : List (Frame α ε)} : HandsOver (.outside c :: rest)

theorem HandsOver.of_or {stack : List (Frame α ε)} {c : Callback α ε}
    (h : stack = [] ∨ stack = [.outside c]) : HandsOver stack := by
  rcases h with rfl | rfl
  · exact .nil
  · exact .callback

namespace State

/-- A machine with one line. -/
def alone (taps : List (Option (Tap σ))) (created : List Nat) (client : Client) (ambient : Context)
    (received : List Handle) (emission : Option (Emission α)) (stack : List (Frame α ε))
    (focus : Focus α ε) : State σ α ε where
  lines := [⟨client, received, taps, emission⟩]
  created
  ambient
  stack
  focus

/-- A machine with one line that has no taps. -/
abbrev solo (client : Client) (ambient : Context) (received : List Handle)
    (emission : Option (Emission α)) (stack : List (Frame α ε)) (focus : Focus α ε) :
    State σ α ε :=
  alone [] [] client ambient received emission stack focus

section

variable {P : Plan σ α ε} {taps : List (Option (Tap σ))} {created : List Nat} {client : Client}
  {ambient : Context} {received : List Handle} {emission : Option (Emission α)} {e : Emission α}
  {stack : List (Frame α ε)} {focus : Focus α ε} {pull : Nat → Option α}

theorem hosting_solo (hbare : P.taps = []) :
    (hosting P client ambient : State σ α ε) =
      solo client ambient [] none [] (.call (.join 0 0 client.context)) := by
  simp [hosting, start, addLine, call, solo, alone, Plan.depth, hbare]

theorem sourceSignal_solo (hbare : P.taps = []) (s : Signal α ε) :
    P.sourceSignal 0 s = .client 0 (s.mapError .source) := by
  simp [Plan.sourceSignal, Plan.depth, hbare]

theorem eq_of_received {h handle : Handle} {nth : Nat}
    (hreceived : (alone taps created client ambient [h] emission stack focus :
      State σ α ε).received? 0 nth = some handle) : handle = h :=
  List.mem_singleton.mp (List.mem_of_getElem? hreceived)

/-! ## Sources -/

theorem step?_start {x : α} (hsource : P.source = .sequence pull) (hpull : pull 0 = some x)
    (context : Context) :
    (alone taps created client ambient received emission stack (.call (.join 0 0 context)) :
        State σ α ε).step? P =
      some (alone taps created client ambient received (some (.start x)) stack
        (.call (P.sourceSignal 0 (.subscribe .emission))),
        [.joined 0 0 context, .pulled 0 (some x)]) := by
  simp [step?, make, join, joinSource, hsource, hpull, alone, setEmission, modifyLine, call]

theorem step?_endStream {x : Option ε} (hends : P.Ends x) (context : Context) :
    ∃ events, (alone taps created client ambient received emission stack
        (.call (.join 0 0 context)) : State σ α ε).step? P =
      some (alone taps created client ambient received emission (.ending 0 x :: stack)
        (.call (P.sourceSignal 0 (.subscribe .empty))), events) ∧ heardBy 0 events = [] := by
  cases hends with
  | empty h =>
      refine ⟨[.joined 0 0 context], ?_, rfl⟩
      simp [step?, make, join, joinSource, h, alone, endStream, callFrom]
  | failed h =>
      refine ⟨[.joined 0 0 context], ?_, rfl⟩
      simp [step?, make, join, joinSource, h, alone, endStream, callFrom]
  | exhausted h hpull =>
      refine ⟨[.joined 0 0 context, .pulled 0 none], ?_, rfl⟩
      simp [step?, make, join, joinSource, h, hpull, alone, endStream, callFrom]

theorem step?_end {x : Option ε} {b : Bool} :
    (alone taps created client ambient received emission (.ending 0 x :: stack) (.back b) :
        State σ α ε).step? P =
      some (alone taps created client ambient received emission stack
        (.call (P.sourceSignal 0 (.ofEnd x))), []) := by
  cases x <;> rfl

/-! ## Clients -/

theorem step?_client (s : Signal α (TapError ε)) :
    (alone taps created client ambient received emission stack (.call (.client 0 s)) :
        State σ α ε).step? P =
      some (alone taps created client ambient (s.handle?.toList ++ received) emission
        (.outside (.client 0 s) :: stack) (.outside true), [.called (.client 0 s) ambient]) := by
  cases s <;> rfl

theorem step?_handOver {b : Bool} (hstack : HandsOver stack) :
    (alone taps created client ambient received emission stack (.back b) : State σ α ε).step? P =
      some (alone taps created client ambient received emission stack (.outside b), []) := by
  cases hstack <;> rfl

/-! ## Controls -/

theorem step?_request {n : UInt64} (hn : n ≠ 0) :
    (alone taps created client ambient received (some e) stack
        (.call (.control 0 0 .emission (.request n))) : State σ α ε).step? P =
      some (alone taps created client ambient received (some (e.request n)) stack
        (if e.startsLoop then .call (.emit 0 0) else .back true),
        [.controlled 0 0 (.request n)]) := by
  have hpositive : Demand.isPositive n = true := by simpa [Demand.isPositive] using hn
  cases hloop : e.startsLoop <;>
    simp [step?, make, control, controlEmission, alone, emission?, hpositive, hloop, setEmission,
      modifyLine, call, back]

theorem step?_request_zero :
    (alone taps created client ambient received (some e) stack
        (.call (.control 0 0 .emission (.request 0))) : State σ α ε).step? P =
      some (alone taps created client ambient received (some e) stack (.back true),
        [.controlled 0 0 (.request 0), .dropped 0 (.nonPositiveRequest 0)]) := rfl

theorem step?_cancel :
    (alone taps created client ambient received (some e) stack
        (.call (.control 0 0 .emission .cancel)) : State σ α ε).step? P =
      some (alone taps created client ambient received (some e.cancel) stack (.back true),
        [.controlled 0 0 .cancel]) := rfl

theorem step?_nothing (c : Control) :
    (alone taps created client ambient received emission stack
        (.call (.control 0 0 .empty c)) : State σ α ε).step? P =
      some (alone taps created client ambient received emission stack (.back true),
        [.controlled 0 0 c]) := rfl

/-! ## The loop of an emission -/

theorem step?_stop (hsource : P.source = .sequence pull) {m : UInt64}
    (hverdict : e.verdict m = .stop) :
    (alone taps created client ambient received (some e) stack (.call (.emit 0 m)) :
        State σ α ε).step? P =
      some (alone taps created client ambient received (some e) stack (.back true), []) := by
  simp [step?, make, emit, hsource, alone, emission?, hverdict, back]

theorem step?_settle (hsource : P.source = .sequence pull) {m : UInt64}
    (hverdict : e.verdict m = .settle) :
    (alone taps created client ambient received (some e) stack (.call (.emit 0 m)) :
        State σ α ε).step? P =
      some (alone taps created client ambient received (some (e.settle m)) stack
        (if (e.settle m).requested = 0 then .back true else .call (.emit 0 0)), []) := by
  by_cases hzero : (e.settle m).requested = 0 <;>
    simp [step?, make, emit, hsource, alone, emission?, hverdict, hzero, setEmission, modifyLine,
      back, call]

theorem step?_deliver (hsource : P.source = .sequence pull) {m : UInt64}
    (hverdict : e.verdict m = .deliver) {x : α} (hahead : e.ahead = some x) :
    (alone taps created client ambient received (some e) stack (.call (.emit 0 m)) :
        State σ α ε).step? P =
      some (alone taps created client ambient received (some (e.advance pull))
        (.emitting 0 m (e.advance pull).ahead.isNone :: stack)
        (.call (P.sourceSignal 0 (client.item x))), [.pulled 0 (e.advance pull).ahead]) := by
  cases hconditional : client.conditional <;>
    simp [step?, make, emit, hsource, alone, emission?, hverdict, hahead, setEmission, modifyLine,
      callFrom, isConditional, Client.item, hconditional]

/-- What becomes of an emission that has handed out its last item. -/
theorem completeEmission_alone (e : Emission α) :
    completeEmission P
        (alone taps created client ambient received (some e) stack focus : State σ α ε) 0 e =
      if e.mayComplete then
        alone taps created client ambient received (some e.detach) (.completing 0 :: stack)
          (.call (P.sourceSignal 0 .complete))
      else alone taps created client ambient received (some e) stack (.back true) := rfl

theorem step?_exhausted (hsource : P.source = .sequence pull) {m : UInt64}
    (hverdict : e.verdict m = .deliver) (hahead : e.ahead = none) :
    (alone taps created client ambient received (some e) stack (.call (.emit 0 m)) :
        State σ α ε).step? P =
      some (completeEmission P (alone taps created client ambient received (some e) stack
        (.call (.emit 0 m))) 0 e, []) := by
  simp [step?, make, emit, hsource, alone, emission?, hverdict, hahead]

theorem step?_last {m : UInt64} {b : Bool} :
    (alone taps created client ambient received (some e) (.emitting 0 m true :: stack) (.back b) :
        State σ α ε).step? P =
      some (completeEmission P (alone taps created client ambient received (some e) stack
        (.back b)) 0 e, []) := rfl

theorem step?_goOn {m : UInt64} {b : Bool} :
    (alone taps created client ambient received emission (.emitting 0 m false :: stack) (.back b) :
        State σ α ε).step? P =
      some (alone taps created client ambient received emission stack
        (.call (.emit 0 (if client.conditional && !b then m else m + 1))), []) := by
  simp [step?, resume, resumeEmission, alone, isConditional, call]

theorem step?_completed {b : Bool} :
    (alone taps created client ambient received emission (.completing 0 :: stack) (.back b) :
        State σ α ε).step? P =
      some (alone taps created client ambient received emission stack (.back true), []) := rfl

/-! ## Turns -/

theorem yields_back {b : Bool} (hstack : HandsOver stack) :
    (alone taps created client ambient received emission stack (.back b) :
      State σ α ε).Yields P :=
  .of_step (step?_handOver hstack) (.of_outside rfl)

theorem yields_client (s : Signal α (TapError ε)) :
    (alone taps created client ambient received emission stack (.call (.client 0 s)) :
      State σ α ε).Yields P :=
  .of_step (step?_client s) (.of_outside rfl)

theorem yields_signal (hbare : P.taps = []) (s : Signal α ε) :
    (alone taps created client ambient received emission stack (.call (P.sourceSignal 0 s)) :
      State σ α ε).Yields P := by
  rw [sourceSignal_solo hbare]
  exact yields_client _

/-- A request for nothing is dropped, and all is as it was. -/
theorem request_zero (hstack : HandsOver stack) {h : Handle}
    (hh : h = .empty ∨ h = .emission ∧ emission.isSome = true) :
    ∃ events : List (Event α ε),
      Run P (alone taps created client ambient received emission stack
          (.call (.control 0 0 h (.request 0))))
        (events.map .event)
        (alone taps created client ambient received emission stack (.outside true)) ∧
      heardBy 0 events = [] := by
  have hstep : ∃ events, (alone taps created client ambient received emission stack
      (.call (.control 0 0 h (.request 0))) : State σ α ε).step? P =
        some (alone taps created client ambient received emission stack (.back true), events) ∧
      heardBy 0 events = [] := by
    rcases hh with rfl | ⟨rfl, hsome⟩
    · exact ⟨_, step?_nothing _, rfl⟩
    · obtain ⟨e, rfl⟩ := Option.isSome_iff_exists.mp hsome
      exact ⟨_, step?_request_zero, rfl⟩
  obtain ⟨events, hstep, hquiet⟩ := hstep
  refine ⟨events, ?_, hquiet⟩
  have hrun := (Run.refl.step hstep).step (step?_handOver hstack)
  simpa using hrun

end

end State

end Wiretap

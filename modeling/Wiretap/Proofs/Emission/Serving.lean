import Wiretap.Proofs.Emission.Account
import Wiretap.Proofs.Machine.Solo

/-!
# How an emission serves a client

Where a plan has no taps, the machine holds little more than the emission. It either rests, or its
loop runs below at most one callback. The phases below say which states there are while a client
asks for items and does not cancel, and what the client has heard by then. A step leads from phase
to phase, and so does whatever the client does.
-/

namespace Wiretap

variable {K : Kinds} {σ α ε : Type}

/-- The signals of a dialogue. -/
def signals (d : List (Utterance α ε)) : List (Signal α (TapError ε)) :=
  d.filterMap fun
    | .heard s => some s
    | _ => none

/-- The numbers of items asked for in a dialogue. -/
def requests (d : List (Utterance α ε)) : List UInt64 :=
  d.filterMap fun
    | .used (.request n) => some n
    | _ => none

@[simp] theorem signals_append (first second : List (Utterance α ε)) :
    signals (first ++ second) = signals first ++ signals second :=
  List.filterMap_append

@[simp] theorem requests_append (first second : List (Utterance α ε)) :
    requests (first ++ second) = requests first ++ requests second :=
  List.filterMap_append

@[simp] theorem signals_told (events : List (Event α ε)) :
    signals (told events) = (heardBy 0 events).map Signal.faceless := by
  rw [told, signals, List.filterMap_map]
  exact congrFun (List.filterMap_eq_map' ) _

@[simp] theorem requests_told (events : List (Event α ε)) : requests (told events) = [] := by
  rw [told, requests, List.filterMap_map]
  exact List.filterMap_eq_nil_iff.mpr fun _ _ => rfl

/-- A client that does not cancel, and that takes just the items which satisfy `p`. -/
def Conduct.takes (p : α → Bool) : Conduct α ε := fun callback u =>
  match callback, u with
  | _, .used .cancel => false
  | some (.offer x), .answered b => b == p x
  | _, _ => true

namespace Emission

variable (client : Client) (p : α → Bool) (all : List α)

/-- Nothing is to be done by the machine: the client has the turn or gets it back, or it asks for
items through its handle; the number of those has not arrived yet. -/
inductive Light (h : Handle) : Focus α ε → Nat → Prop
  | outside (b : Bool) : Light h (.outside b) 0
  | back (b : Bool) : Light h (.back b) 0
  | request (n : UInt64) : Light h (.call (.control 0 0 h (.request n))) n.toNat

/-- The loop was started by the client on its own, or while it was given its handle. -/
def Base (stack : List (Frame α ε)) : Prop :=
  stack = [] ∨ stack = [.outside (.client 0 (.subscribe .emission))]

/-- The number of items taken once the last one has been answered. -/
def taken (m : UInt64) (x : α) : UInt64 := if p x then m + 1 else m

/-- What a client hears while it is handed the items. -/
def hearing (before : List α) : List (Signal α (TapError ε)) :=
  .subscribe .empty :: before.map client.item

/-- The phases of serving a client all items of a list. -/
inductive Serving (ambient : Context) :
    List (Signal α (TapError ε)) → Nat → State σ α ε → Prop
  /-- The client is joined to the source. -/
  | joining (context : Context) :
    Serving ambient [] 0 (.solo client ambient [] none [] (.call (.join 0 0 context)))
  /-- The client is about to get its handle. -/
  | greeting {x : α} {rest : List α} (hall : all = x :: rest) :
    Serving ambient [] 0 (.solo client ambient [] (some (.start x)) []
      (.call (.client 0 (.subscribe .emission))))
  /-- No demand is outstanding. -/
  | resting {before : List α} {e : Emission α} {stack : List (Frame α ε)} {focus : Focus α ε}
    {total more : Nat} {x : α} (howes : e.Owes p all before 0 total)
    (hattached : e.attached = true) (hrequested : e.requested = 0) (hahead : e.ahead = some x)
    (hbase : Base stack) (hlight : Light .emission focus more) :
    Serving ambient (hearing client before) (total + more)
      (.solo client ambient [.emission] (some e) stack focus)
  /-- The loop goes round. -/
  | looping {before : List α} {e : Emission α} {stack : List (Frame α ε)} {total : Nat}
    {m : UInt64} {x : α} (howes : e.Owes p all before m total)
    (hattached : e.attached = true) (hrequested : e.requested ≠ 0) (hahead : e.ahead = some x)
    (hbase : Base stack) :
    Serving ambient (hearing client before) total
      (.solo client ambient [.emission] (some e) stack (.call (.emit 0 m)))
  /-- An item is on its way. -/
  | sending {before : List α} {e : Emission α} {stack : List (Frame α ε)} {total : Nat}
    {m : UInt64} {x : α} (howes : e.Owes p all (before ++ [x]) (taken p m x) total)
    (hattached : e.attached = true) (hrequested : e.requested ≠ 0) (hbase : Base stack) :
    Serving ambient (hearing client before) total
      (.solo client ambient [.emission] (some e) (.emitting 0 m e.ahead.isNone :: stack)
        (.call (.client 0 (client.item x))))
  /-- The client is handed an item. -/
  | waiting {before : List α} {e : Emission α} {stack : List (Frame α ε)} {focus : Focus α ε}
    {total more : Nat} {m : UInt64} {x : α}
    (howes : e.Owes p all (before ++ [x]) (taken p m x) total)
    (hattached : e.attached = true) (hrequested : e.requested ≠ 0) (hbase : Base stack)
    (hlight : Light .emission focus more) :
    Serving ambient (hearing client (before ++ [x])) (total + more)
      (.solo client ambient [.emission] (some e)
        (.outside (.client 0 (client.item x)) :: .emitting 0 m e.ahead.isNone :: stack) focus)
  /-- The client has answered. -/
  | answered {before : List α} {e : Emission α} {stack : List (Frame α ε)} {total : Nat}
    {m : UInt64} {x : α} {b : Bool}
    (howes : e.Owes p all (before ++ [x]) (taken p m x) total)
    (hattached : e.attached = true) (hrequested : e.requested ≠ 0) (hbase : Base stack)
    (hb : (client.conditional && !b) = !p x) :
    Serving ambient (hearing client (before ++ [x])) total
      (.solo client ambient [.emission] (some e) (.emitting 0 m e.ahead.isNone :: stack) (.back b))
  /-- The completion is on its way. -/
  | completing {e : Emission α} {stack : List (Frame α ε)} {total : Nat}
    (hfills : Fills p total all all) (hattached : e.attached = false)
    (hbase : Base stack) :
    Serving ambient (hearing client all) total
      (.solo client ambient [.emission] (some e) (.completing 0 :: stack)
        (.call (.client 0 .complete)))
  /-- The client is told of the completion. -/
  | ending {e : Emission α} {stack : List (Frame α ε)} {focus : Focus α ε}
    {total more : Nat} (hfills : Fills p total all all)
    (hattached : e.attached = false) (hbase : Base stack) (hlight : Light .emission focus more) :
    Serving ambient (hearing client all ++ [.complete]) (total + more)
      (.solo client ambient [.emission] (some e)
        (.outside (.client 0 .complete) :: .completing 0 :: stack) focus)
  /-- The client knows of the completion. -/
  | ended {e : Emission α} {stack : List (Frame α ε)} {total : Nat} {b : Bool}
    (hfills : Fills p total all all) (hattached : e.attached = false)
    (hbase : Base stack) :
    Serving ambient (hearing client all ++ [.complete]) total
      (.solo client ambient [.emission] (some e) (.completing 0 :: stack) (.back b))
  /-- All is done. -/
  | served {e : Emission α} {stack : List (Frame α ε)} {focus : Focus α ε}
    {total more : Nat} (hfills : Fills p total all all)
    (hattached : e.attached = false) (hbase : Base stack) (hlight : Light .emission focus more) :
    Serving ambient (hearing client all ++ [.complete]) (total + more)
      (.solo client ambient [.emission] (some e) stack focus)

section

variable {client : Client} {p : α → Bool} {all : List α} {ambient : Context} {P : Plan σ α ε}
  {U : State σ α ε} {events : List (Event α ε)} {stack : List (Frame α ε)} {focus : Focus α ε}
  {e : Emission α} {more : Nat}

theorem Base.handsOver (h : Base stack) : HandsOver stack := .of_or h

/-- While nothing is to be done by the machine, only a request that arrives changes anything. -/
theorem Light.step (h : Light .emission focus more) (hstack : HandsOver stack)
    (hstep : (State.solo client ambient [.emission] (some e) stack focus : State σ α ε).step? P =
      some (U, events)) :
    heardBy 0 events = [] ∧
      ((more = 0 ∧ ∃ focus', Light .emission focus' 0 ∧
          U = .solo client ambient [.emission] (some e) stack focus') ∨
        ∃ n : UInt64, n ≠ 0 ∧ more = n.toNat ∧
          U = .solo client ambient [.emission] (some (e.request n)) stack
            (if e.startsLoop then .call (.emit 0 0) else .back true)) := by
  cases h with
  | outside b => cases hstep
  | back b =>
      rw [State.step?_handOver hstack] at hstep
      cases hstep
      exact ⟨rfl, .inl ⟨rfl, _, .outside b, rfl⟩⟩
  | request n =>
      by_cases hn : n = 0
      · subst hn
        rw [State.step?_request_zero] at hstep
        cases hstep
        exact ⟨rfl, .inl ⟨rfl, _, .back true, rfl⟩⟩
      · rw [State.step?_request hn] at hstep
        cases hstep
        exact ⟨rfl, .inr ⟨n, hn, rfl, rfl⟩⟩

theorem startsLoop_of_idle (hrequested : e.requested = 0) (hattached : e.attached = true) :
    e.startsLoop = true := by
  rw [startsLoop, hrequested, hattached]
  rfl

theorem startsLoop_of_busy (hrequested : e.requested ≠ 0) : e.startsLoop = false := by
  rw [startsLoop, beq_false_of_ne hrequested]
  rfl

theorem startsLoop_of_detached (hattached : e.attached = false) : e.startsLoop = false := by
  rw [startsLoop, hattached, Bool.and_false]

/-- An emission that has let its receiver go starts no loop, whatever is asked for. -/
theorem Light.step_detached (h : Light .emission focus more) (hstack : HandsOver stack)
    (hattached : e.attached = false)
    (hstep : (State.solo client ambient [.emission] (some e) stack focus : State σ α ε).step? P =
      some (U, events)) :
    heardBy 0 events = [] ∧ ∃ (e' : Emission α) (n rest : Nat) (focus' : Focus α ε),
      more = n + rest ∧ e'.attached = false ∧ Light .emission focus' rest ∧
        U = .solo client ambient [.emission] (some e') stack focus' := by
  obtain ⟨hheard, ⟨rfl, focus', hlight, rfl⟩ | ⟨n, -, rfl, rfl⟩⟩ := h.step hstack hstep
  · exact ⟨hheard, e, 0, 0, focus', rfl, hattached, hlight, rfl⟩
  · rw [startsLoop_of_detached hattached]
    exact ⟨hheard, e.request n, n.toNat, 0, .back true, rfl, hattached, .back true, rfl⟩

theorem request_ne_zero {n : UInt64} (hn : e.requested ≠ 0 ∨ n ≠ 0) :
    (e.request n).requested ≠ 0 := by
  have hsum := Demand.toNat_add e.requested n
  rw [Demand.toNat_unbounded] at hsum
  rw [ne_eq, ne_eq, ← UInt64.toNat_inj, ← UInt64.toNat_inj, UInt64.toNat_zero] at hn
  rw [request, ne_eq, ← UInt64.toNat_inj, UInt64.toNat_zero]
  dsimp only
  omega

end

namespace Serving

variable {client : Client} {p : α → Bool} {all : List α} {ambient : Context} {P : Plan σ α ε}
  {S U : State σ α ε} {heard : List (Signal α (TapError ε))} {total : Nat}
  {events : List (Event α ε)}

theorem item_faceless (client : Client) (x : α) :
    (client.item x : Signal α (TapError ε)).faceless = client.item x := by
  unfold Client.item
  split <;> rfl

theorem item_handle (client : Client) (x : α) :
    (client.item x : Signal α (TapError ε)).handle? = none := by
  unfold Client.item
  split <;> rfl

theorem taken_eq {m : UInt64} {x : α} {b : Bool} (hb : (client.conditional && !b) = !p x) :
    (if client.conditional && !b then m else m + 1) = taken p m x := by
  rw [hb, taken]
  cases p x <;> rfl

theorem hush (h : Serving client p all ambient heard total U) (hheard : heardBy 0 events = []) :
    Serving client p all ambient (heard ++ (heardBy 0 events).map Signal.faceless) total U := by
  rwa [hheard, List.map_nil, List.append_nil]

/-- A step of the machine, whatever the phase. -/
theorem step (h : Serving client p all ambient heard total S) (hbare : P.taps = [])
    (hsource : P.source = .sequence (all[·]?)) (hall : all ≠ []) (hlength : all.length < 2 ^ 64)
    (hstep : S.step? P = some (U, events)) :
    Serving client p all ambient (heard ++ (heardBy 0 events).map Signal.faceless) total U := by
  cases h with
  | joining context =>
      obtain ⟨x, rest, rfl⟩ := List.exists_cons_of_ne_nil hall
      rw [State.step?_start hsource rfl, State.sourceSignal_solo hbare] at hstep
      cases hstep
      exact .greeting rfl
  | greeting heq =>
      rw [State.step?_client] at hstep
      cases hstep
      subst heq
      exact .resting .start rfl rfl rfl (.inr rfl) (.outside true)
  | @resting before e _ _ _ _ _ howes hattached hrequested hahead hbase hlight =>
      obtain ⟨hheard, ⟨rfl, focus, hlight', rfl⟩ | ⟨n, hn, rfl, rfl⟩⟩ :=
        hlight.step hbase.handsOver hstep
      · exact hush (.resting howes hattached hrequested hahead hbase hlight') hheard
      · -- The request finds no demand outstanding, so it starts the loop.
        rw [if_pos (startsLoop_of_idle hrequested hattached)]
        have hpositive := request_ne_zero (e := e) (.inr hn)
        exact hush (.looping (howes.request n) hattached hpositive hahead hbase) hheard
  | @looping before e stack _ m x howes hattached hrequested hahead hbase =>
      cases hverdict : e.verdict m with
      | stop => exact (howes.verdict_ne_stop hverdict).elim
      | settle =>
          obtain ⟨hzero, hsettled⟩ := howes.settle hverdict
          rw [State.step?_settle hsource hverdict, if_pos hzero] at hstep
          cases hstep
          exact hush (.resting hsettled hattached hzero hahead hbase (.back true)) rfl
      | deliver =>
          rw [State.step?_deliver hsource hverdict hahead, State.sourceSignal_solo hbare,
            Client.item_mapError] at hstep
          cases hstep
          have hdelivered := howes.deliver hlength hahead hverdict
          exact hush (.sending hdelivered hattached hrequested hbase) rfl
  | @sending before e stack _ m x howes hattached hrequested hbase =>
      rw [State.step?_client, item_handle] at hstep
      cases hstep
      have hheard : hearing client before ++ (heardBy 0
          [(.called (.client 0 (client.item x)) ambient : Event α ε)]).map Signal.faceless =
            hearing client (before ++ [x]) := by
        simp [hearing, Event.heard?, item_faceless]
      rw [hheard]
      exact .waiting howes hattached hrequested hbase (.outside true)
  | waiting howes hattached hrequested hbase hlight =>
      obtain ⟨hheard, ⟨rfl, focus, hlight', rfl⟩ | ⟨n, hn, rfl, rfl⟩⟩ :=
        hlight.step .callback hstep
      · exact hush (.waiting howes hattached hrequested hbase hlight') hheard
      · -- The loop runs already and looks at the demand again.
        rw [startsLoop_of_busy hrequested]
        have hpositive := request_ne_zero (n := n) (.inl hrequested)
        refine hush (?_ : Serving client p all ambient _ (_ + n.toNat + 0) _) hheard
        exact .waiting (howes.request n) hattached hpositive hbase (.back true)
  | @answered before e stack _ m x b howes hattached hrequested hbase hb =>
      cases hahead : e.ahead with
      | none =>
          have hmay : e.mayComplete = true := by
            rw [mayComplete, howes.staying, hattached]
            rfl
          rw [hahead, Option.isNone_none, State.step?_last, State.completeEmission_alone,
            if_pos hmay, State.sourceSignal_solo hbare] at hstep
          cases hstep
          have heq := howes.eq_all hahead
          have hfills := howes.fills (.inr heq)
          rw [heq] at hfills ⊢
          exact hush (.completing hfills rfl hbase) rfl
      | some y =>
          rw [hahead, Option.isNone_some, State.step?_goOn] at hstep
          cases hstep
          rw [taken_eq hb]
          exact hush (.looping howes hattached hrequested hahead hbase) rfl
  | completing hfills hattached hbase =>
      rw [State.step?_client] at hstep
      cases hstep
      exact .ending hfills hattached hbase (.outside true)
  | ending hfills hattached hbase hlight =>
      obtain ⟨hheard, e', n, rest, focus, rfl, hattached', hlight', rfl⟩ :=
        hlight.step_detached .callback hattached hstep
      rw [← Nat.add_assoc]
      exact hush (.ending (hfills.mono (Nat.le_add_right _ n)) hattached' hbase hlight') hheard
  | ended hfills hattached hbase =>
      rw [State.step?_completed] at hstep
      cases hstep
      exact hush (.served hfills hattached hbase (.back true)) rfl
  | served hfills hattached hbase hlight =>
      obtain ⟨hheard, e', n, rest, focus, rfl, hattached', hlight', rfl⟩ :=
        hlight.step_detached hbase.handsOver hattached hstep
      rw [← Nat.add_assoc]
      exact hush (.served (hfills.mono (Nat.le_add_right _ n)) hattached' hbase hlight') hheard

/-- The client asks for items. -/
theorem request (h : Serving client p all ambient heard total S) (hbare : P.taps = []) {nth : Nat}
    {n : UInt64} (hmove : S.move? P (.control 0 nth (.request n)) = some U) :
    Serving client p all ambient heard (total + n.toNat) U := by
  obtain ⟨⟨b, hfocus⟩, handle, hreceived, rfl⟩ := State.move?_control_eq_some hmove
  have hdepth : P.depth = 0 := by simp [Plan.depth, hbare]
  rw [hdepth]
  cases h with
  | resting howes hattached hrequested hahead hbase hlight =>
      cases hfocus
      cases hlight
      cases State.eq_of_received hreceived
      exact .resting howes hattached hrequested hahead hbase (.request n)
  | waiting howes hattached hrequested hbase hlight =>
      cases hfocus
      cases hlight
      cases State.eq_of_received hreceived
      exact .waiting howes hattached hrequested hbase (.request n)
  | ending hfills hattached hbase hlight =>
      cases hfocus
      cases hlight
      cases State.eq_of_received hreceived
      exact .ending hfills hattached hbase (.request n)
  | served hfills hattached hbase hlight =>
      cases hfocus
      cases hlight
      cases State.eq_of_received hreceived
      exact .served hfills hattached hbase (.request n)
  | _ => cases hfocus

/-- The client returns from a callback. -/
theorem answer (h : Serving client p all ambient heard total S)
    (hplain : client.conditional = false → ∀ x, p x = true) {b : Bool}
    (htakes : Conduct.takes p S.callback? (.answered b) = true)
    (hmove : S.move? P (.answer b) = some U) : Serving client p all ambient heard total U := by
  obtain ⟨⟨b', hfocus⟩, callback, rest, hstack, rfl⟩ := State.move?_answer_eq_some hmove
  cases h with
  | resting howes hattached hrequested hahead hbase hlight =>
      cases hfocus
      cases hlight
      rcases hbase with rfl | rfl
      · cases hstack
      · cases hstack
        exact .resting howes hattached hrequested hahead (.inl rfl) (.back true)
  | @waiting before e stack focus _ more m x howes hattached hrequested hbase hlight =>
      cases hfocus
      cases hlight
      cases hstack
      refine .answered howes hattached hrequested hbase ?_
      cases hconditional : client.conditional with
      | true =>
          -- The item was offered, so the client answers as it takes it.
          have hitem : (client.item x : Signal α (TapError ε)) = .offer x := by
            rw [Client.item, hconditional]
            rfl
          rw [hitem] at htakes ⊢
          have hb : b = p x := beq_iff_eq.mp htakes
          rw [hb]
          rfl
      | false =>
          rw [hplain hconditional x]
          rfl
  | ending hfills hattached hbase hlight =>
      cases hfocus
      cases hlight
      cases hstack
      exact .ended hfills hattached hbase
  | served hfills hattached hbase hlight =>
      cases hfocus
      cases hlight
      rcases hbase with rfl | rfl
      · cases hstack
      · cases hstack
        exact .served hfills hattached (.inl rfl) (.back true)
  | _ => cases hfocus

/-- While all is quiet, just what was asked for has been taken, or everything there is. -/
theorem quiet (h : Serving client p all ambient heard total S) (hlength : all.length < 2 ^ 64)
    (hidle : S.isIdle = true) :
    ∃ before, heard = hearing client before ++
        (if before.length = all.length then [.complete] else []) ∧
      Fills p total all before ∧ (Demand.unbounded.toNat ≤ total → before = all) := by
  obtain ⟨hstack, b, hfocus⟩ := State.isIdle_iff.mp hidle
  cases h with
  | resting howes hattached hrequested hahead hbase hlight =>
      cases hfocus
      cases hlight
      have hcount := howes.countP_eq hrequested
      have hbound := howes.lt_unbounded hlength hahead
      have hlonger := (howes.prefix_ahead hahead).length_le
      rw [List.length_append, List.length_singleton] at hlonger
      refine ⟨_, ?_, howes.fills (.inl hcount), fun hle => ?_⟩
      · rw [if_neg (by omega), List.append_nil]
      · dsimp only [Nat.add_zero] at hle
        omega
  | served hfills hattached hbase hlight =>
      cases hfocus
      cases hlight
      exact ⟨all, by rw [if_pos rfl], hfills, fun _ => rfl⟩
  | joining | greeting | looping | completing => cases hfocus
  | sending | waiting | answered | ending | ended => cases hstack

theorem yields_emit {before : List α} {e : Emission α} {m : UInt64} {x : α}
    {stack : List (Frame α ε)} (hbare : P.taps = []) (hsource : P.source = .sequence (all[·]?))
    (howes : e.Owes p all before m total) (hahead : e.ahead = some x) (hbase : Base stack) :
    (State.solo client ambient [.emission] (some e) stack (.call (.emit 0 m)) :
      State σ α ε).Yields P := by
  cases hverdict : e.verdict m with
  | stop => exact (howes.verdict_ne_stop hverdict).elim
  | settle =>
      have hzero := (howes.settle hverdict).1
      refine .of_step (State.step?_settle hsource hverdict) ?_
      rw [if_pos hzero]
      exact State.yields_back hbase.handsOver
  | deliver =>
      exact .of_step (State.step?_deliver hsource hverdict hahead) (State.yields_signal hbare _)

theorem yields_light {e : Emission α} {stack : List (Frame α ε)} {focus : Focus α ε} {more : Nat}
    (hlight : Light .emission focus more)
    (hstack : HandsOver stack)
    (hloop : ∀ n, e.startsLoop = true → (State.solo client ambient [.emission]
      (some (e.request n)) stack (.call (.emit 0 0)) : State σ α ε).Yields P) :
    (State.solo client ambient [.emission] (some e) stack focus : State σ α ε).Yields P := by
  cases hlight with
  | outside b => exact .of_outside rfl
  | back b => exact State.yields_back hstack
  | request n =>
      by_cases hn : n = 0
      · subst hn
        exact .of_step State.step?_request_zero (State.yields_back hstack)
      · refine .of_step (State.step?_request hn) ?_
        split
        next hstarts => exact hloop n hstarts
        next => exact State.yields_back hstack

/-- In every phase the client gets the turn after finitely many steps. -/
theorem yields (h : Serving client p all ambient heard total S) (hbare : P.taps = [])
    (hsource : P.source = .sequence (all[·]?)) (hall : all ≠ []) : S.Yields P := by
  cases h with
  | joining context =>
      obtain ⟨x, rest, rfl⟩ := List.exists_cons_of_ne_nil hall
      exact .of_step (State.step?_start hsource rfl context) (State.yields_signal hbare _)
  | greeting => exact State.yields_client _
  | resting howes hattached hrequested hahead hbase hlight =>
      refine yields_light hlight hbase.handsOver fun n _ => ?_
      exact yields_emit hbare hsource (howes.request n) hahead hbase
  | looping howes hattached hrequested hahead hbase =>
      exact yields_emit hbare hsource howes hahead hbase
  | sending => exact State.yields_client _
  | waiting howes hattached hrequested hbase hlight =>
      refine yields_light hlight .callback fun n hstarts => ?_
      rw [startsLoop_of_busy hrequested] at hstarts
      cases hstarts
  | @answered before e stack _ m x b howes hattached hrequested hbase hb =>
      cases hahead : e.ahead with
      | none =>
          have hmay : e.mayComplete = true := by
            rw [mayComplete, howes.staying, hattached]
            rfl
          refine .of_step State.step?_last ?_
          rw [State.completeEmission_alone, if_pos hmay]
          exact State.yields_signal hbare _
      | some y =>
          refine .of_step State.step?_goOn ?_
          rw [taken_eq hb]
          exact yields_emit hbare hsource howes hahead hbase
  | completing => exact State.yields_client _
  | ending hfills hattached hbase hlight =>
      refine yields_light hlight .callback fun n hstarts => ?_
      rw [startsLoop_of_detached hattached] at hstarts
      cases hstarts
  | ended hfills hattached hbase =>
      exact .of_step State.step?_completed (State.yields_back hbase.handsOver)
  | served hfills hattached hbase hlight =>
      refine yields_light hlight hbase.handsOver fun n hstarts => ?_
      rw [startsLoop_of_detached hattached] at hstarts
      cases hstarts

/-- While the client has the turn, a request for nothing changes nothing. -/
theorem request_zero (h : Serving client p all ambient heard total S) (hbare : P.taps = [])
    {nth : Nat} (hmove : S.move? P (.control 0 nth (.request 0)) = some U) :
    ∃ events, Run P U (events.map .event) { S with focus := .outside true } ∧
      heardBy 0 events = [] := by
  have hdepth : P.depth = 0 := by simp [Plan.depth, hbare]
  obtain ⟨⟨b, hfocus⟩, handle, hreceived, rfl⟩ := State.move?_control_eq_some hmove
  rw [hdepth]
  cases h with
  | resting howes hattached hrequested hahead hbase hlight =>
      cases State.eq_of_received hreceived
      exact State.request_zero hbase.handsOver (.inr ⟨rfl, rfl⟩)
  | waiting howes hattached hrequested hbase hlight =>
      cases State.eq_of_received hreceived
      exact State.request_zero .callback (.inr ⟨rfl, rfl⟩)
  | ending hfills hattached hbase hlight =>
      cases State.eq_of_received hreceived
      exact State.request_zero .callback (.inr ⟨rfl, rfl⟩)
  | served hfills hattached hbase hlight =>
      cases State.eq_of_received hreceived
      exact State.request_zero hbase.handsOver (.inr ⟨rfl, rfl⟩)
  | _ => cases hfocus

end Serving

/-- The phases of serving a client an empty list. It gets an empty handle, so that whatever it asks
for changes nothing. -/
inductive Dismissing (client : Client) (ambient : Context) :
    List (Signal α (TapError ε)) → State σ α ε → Prop
  /-- The client is joined to the source. -/
  | joining (context : Context) :
    Dismissing client ambient [] (.solo client ambient [] none [] (.call (.join 0 0 context)))
  /-- The client is about to get a handle. -/
  | greeting : Dismissing client ambient []
    (.solo client ambient [] none [.ending 0 none] (.call (.client 0 (.subscribe .empty))))
  /-- The client is given its handle. -/
  | greeted {focus : Focus α ε} {more : Nat} (hlight : Light .empty focus more) :
    Dismissing client ambient [.subscribe .empty]
      (.solo client ambient [.empty] none [.outside (.client 0 (.subscribe .empty)), .ending 0 none]
        focus)
  /-- The client knows its handle. -/
  | closing (b : Bool) : Dismissing client ambient [.subscribe .empty]
    (.solo client ambient [.empty] none [.ending 0 none] (.back b))
  /-- The completion is on its way. -/
  | completing : Dismissing client ambient [.subscribe .empty]
    (.solo client ambient [.empty] none [] (.call (.client 0 .complete)))
  /-- The client is told of the completion, or knows of it. -/
  | served {stack : List (Frame α ε)} {focus : Focus α ε} {more : Nat}
    (hstack : stack = [] ∨ stack = [.outside (.client 0 .complete)])
    (hlight : Light .empty focus more) :
    Dismissing client ambient [.subscribe .empty, .complete]
      (.solo client ambient [.empty] none stack focus)

/-- Through an empty handle nothing changes. -/
theorem Light.step_empty {client : Client} {ambient : Context} {P : Plan σ α ε} {U : State σ α ε}
    {events : List (Event α ε)} {stack : List (Frame α ε)} {focus : Focus α ε}
    {emission : Option (Emission α)} {more : Nat} (h : Light .empty focus more)
    (hstack : HandsOver stack)
    (hstep : (State.solo client ambient [.empty] emission stack focus : State σ α ε).step? P =
      some (U, events)) :
    heardBy 0 events = [] ∧ ∃ focus', Light .empty focus' 0 ∧
      U = .solo client ambient [.empty] emission stack focus' := by
  cases h with
  | outside b => cases hstep
  | back b =>
      rw [State.step?_handOver hstack] at hstep
      cases hstep
      exact ⟨rfl, _, .outside b, rfl⟩
  | request n =>
      rw [State.step?_nothing] at hstep
      cases hstep
      exact ⟨rfl, _, .back true, rfl⟩

namespace Dismissing

variable {client : Client} {ambient : Context} {P : Plan σ α ε} {S U : State σ α ε}
  {heard : List (Signal α (TapError ε))} {events : List (Event α ε)} {pull : Nat → Option α}

theorem step (h : Dismissing client ambient heard S) (hbare : P.taps = [])
    (hsource : P.source = .sequence pull) (hpull : pull 0 = none)
    (hstep : S.step? P = some (U, events)) :
    Dismissing client ambient (heard ++ (heardBy 0 events).map Signal.faceless) U := by
  cases h with
  | joining context =>
      obtain ⟨events', hstep', hquiet⟩ := State.step?_endStream (.exhausted hsource hpull) context
      rw [hstep', State.sourceSignal_solo hbare] at hstep
      cases hstep
      rw [hquiet]
      exact .greeting
  | greeting =>
      rw [State.step?_client] at hstep
      cases hstep
      exact .greeted (.outside true)
  | greeted hlight =>
      obtain ⟨hheard, focus, hlight', rfl⟩ := hlight.step_empty .callback hstep
      rw [hheard, List.map_nil, List.append_nil]
      exact .greeted hlight'
  | closing b =>
      rw [State.step?_end, State.sourceSignal_solo hbare] at hstep
      cases hstep
      exact .completing
  | completing =>
      rw [State.step?_client] at hstep
      cases hstep
      exact .served (.inr rfl) (.outside true)
  | served hstack hlight =>
      obtain ⟨hheard, focus, hlight', rfl⟩ := hlight.step_empty (.of_or hstack) hstep
      rw [hheard, List.map_nil, List.append_nil]
      exact .served hstack hlight'

theorem request (h : Dismissing client ambient heard S) (hbare : P.taps = []) {nth : Nat}
    {n : UInt64} (hmove : S.move? P (.control 0 nth (.request n)) = some U) :
    Dismissing client ambient heard U := by
  obtain ⟨⟨b, hfocus⟩, handle, hreceived, rfl⟩ := State.move?_control_eq_some hmove
  have hdepth : P.depth = 0 := by simp [Plan.depth, hbare]
  rw [hdepth]
  cases h with
  | greeted hlight =>
      cases hfocus
      cases State.eq_of_received hreceived
      exact .greeted (.request n)
  | served hstack hlight =>
      cases hfocus
      cases State.eq_of_received hreceived
      exact .served hstack (.request n)
  | _ => cases hfocus

theorem request_zero (h : Dismissing client ambient heard S) (hbare : P.taps = []) {nth : Nat}
    (hmove : S.move? P (.control 0 nth (.request 0)) = some U) :
    ∃ events, Run P U (events.map .event) { S with focus := .outside true } ∧
      heardBy 0 events = [] := by
  have hdepth : P.depth = 0 := by simp [Plan.depth, hbare]
  obtain ⟨⟨b, hfocus⟩, handle, hreceived, rfl⟩ := State.move?_control_eq_some hmove
  rw [hdepth]
  cases h with
  | greeted hlight =>
      cases State.eq_of_received hreceived
      exact State.request_zero .callback (.inl rfl)
  | served hstack hlight =>
      cases State.eq_of_received hreceived
      exact State.request_zero (.of_or hstack) (.inl rfl)
  | _ => cases hfocus

theorem answer (h : Dismissing client ambient heard S) {b : Bool}
    (hmove : S.move? P (.answer b) = some U) : Dismissing client ambient heard U := by
  obtain ⟨⟨b', hfocus⟩, callback, rest, hstack, rfl⟩ := State.move?_answer_eq_some hmove
  cases h with
  | greeted hlight =>
      cases hstack
      exact .closing true
  | served hrest hlight =>
      rcases hrest with rfl | rfl
      · cases hstack
      · cases hstack
        exact .served (.inl rfl) (.back true)
  | _ => cases hfocus

theorem yields (h : Dismissing client ambient heard S) (hbare : P.taps = [])
    (hsource : P.source = .sequence pull) (hpull : pull 0 = none) : S.Yields P := by
  have hlighten : ∀ {stack : List (Frame α ε)} {focus : Focus α ε} {more : Nat},
      Light .empty focus more → HandsOver stack →
      (State.solo client ambient [.empty] none stack focus : State σ α ε).Yields P := by
    intro stack focus more hlight hstack
    cases hlight with
    | outside b => exact .of_outside rfl
    | back b => exact State.yields_back hstack
    | request n => exact .of_step (State.step?_nothing _) (State.yields_back hstack)
  cases h with
  | joining context =>
      obtain ⟨events, hstep, -⟩ := State.step?_endStream (.exhausted hsource hpull) context
      exact .of_step hstep (State.yields_signal hbare _)
  | greeting => exact State.yields_client _
  | greeted hlight => exact hlighten hlight .callback
  | closing b => exact .of_step State.step?_end (State.yields_signal hbare _)
  | completing => exact State.yields_client _
  | served hstack hlight => exact hlighten hlight (.of_or hstack)

theorem quiet (h : Dismissing client ambient heard S) (hidle : S.isIdle = true) :
    heard = [.subscribe .empty, .complete] := by
  obtain ⟨hstack, b, hfocus⟩ := State.isIdle_iff.mp hidle
  cases h with
  | served => rfl
  | joining | completing => cases hfocus
  | greeting | greeted | closing => cases hstack

end Dismissing

end Emission

end Wiretap

import Wiretap.Proofs.Machine.Lives

/-!
# What is sent arrives

Between the tap at a place and its receiver nothing is lost and nothing is added: what has arrived,
what is on its way and what is still owed make up, in this order, what the tap has sent, or what
stands in for a tap that could not be set up.
-/

namespace Wiretap

variable {K : Kinds} {σ α ε : Type} {P : Plan σ α ε} {line place position : Nat}

/-- The calls by which the receiver at a position got signals. -/
def arrivals (P : Plan σ α ε) (line position : Nat) (events : List (Event α ε)) :
    List (Call α ε) :=
  if position < P.depth then (Tap.heard (deeds line position events)).map (.tap line position)
  else (heardBy line events).map (.client line)

/-- The calls to the receiver behind a place. -/
def dispatched (P : Plan σ α ε) (line place : Nat) (events : List (Event α ε)) :
    List (Call α ε) :=
  (Tap.given (deeds line place events)).map (P.signal line (place + 1))

theorem arrivals_append (first second : List (Event α ε)) :
    arrivals P line position (first ++ second) =
      arrivals P line position first ++ arrivals P line position second := by
  unfold arrivals
  split <;> simp

theorem dispatched_append (first second : List (Event α ε)) :
    dispatched P line place (first ++ second) =
      dispatched P line place first ++ dispatched P line place second := by
  simp [dispatched]

theorem Quiet.arrivals {events : List (Event α ε)} (h : Quiet events) :
    arrivals P line position events = [] := by
  simp [Wiretap.arrivals, h.deeds, h.heardBy]

theorem Quiet.dispatched {events : List (Event α ε)} (h : Quiet events) :
    dispatched P line place events = [] := by
  rw [Wiretap.dispatched, h.deeds]
  rfl

/-- The call by which the receiver at a position gets a fault, if the frame stands for that. -/
def Frame.owed? (P : Plan σ α ε) (line position : Nat) : Frame α ε → Option (Call α ε)
  | .refusing l q f =>
    if l = line ∧ q = position then some (P.signal line position (.error (.listener f))) else none
  | _ => none

namespace State

variable {S U : State σ α ε} {events : List (Event α ε)}

/-- The signal for the receiver at a position that is being delivered. -/
def inFlight (P : Plan σ α ε) (S : State σ α ε) (line position : Nat) : List (Call α ε) :=
  match S.focus with
  | .call (.tap l p s) =>
    if l = line ∧ p = position ∧ position < P.depth then [.tap l p s] else []
  | .call (.client l s) => if l = line ∧ P.depth ≤ position then [.client l s] else []
  | _ => []

/-- What the receiver at a position is owed. -/
def owed (P : Plan σ α ε) (S : State σ α ε) (line position : Nat) : List (Call α ε) :=
  S.stack.filterMap (Frame.owed? P line position)

/-- What is sent arrives. -/
def Delivers (P : Plan σ α ε) (S : State σ α ε) (events : List (Event α ε)) : Prop :=
  ∀ line place, place < P.depth →
    arrivals P line (place + 1) events ++ S.inFlight P line (place + 1) ++
      S.owed P line (place + 1) = dispatched P line place events

theorem inFlight_signal {q : Nat} {s : Signal α (TapError ε)} (hq : q ≤ P.depth)
    (hposition : position ≤ P.depth) (hfocus : S.focus = .call (P.signal line q s)) (l : Nat) :
    S.inFlight P l position = if line = l ∧ q = position then [P.signal line q s] else [] := by
  unfold inFlight
  rw [hfocus]
  unfold Plan.signal
  by_cases hlt : q < P.depth
  · rw [if_pos hlt]
    dsimp only
    by_cases hhere : line = l ∧ q = position
    · rw [if_pos hhere, if_pos ⟨hhere.1, hhere.2, hhere.2 ▸ hlt⟩]
    · rw [if_neg hhere, if_neg fun h => hhere ⟨h.1, h.2.1⟩]
  · rw [if_neg hlt]
    dsimp only
    have hend : q = P.depth := by omega
    by_cases hhere : line = l ∧ q = position
    · rw [if_pos hhere, if_pos ⟨hhere.1, by omega⟩]
    · rw [if_neg hhere, if_neg fun h => hhere ⟨h.1, by omega⟩]

/-- What the source sends concerns the first receiver only. -/
theorem inFlight_sourceSignal {s : Signal α ε} (hplace : place < P.depth)
    (hfocus : S.focus = .call (P.sourceSignal line s)) (l : Nat) :
    S.inFlight P l (place + 1) = [] := by
  unfold inFlight
  rw [hfocus, Plan.sourceSignal, if_pos (by omega)]
  simp

theorem owed_cons {f : Frame α ε} {rest : List (Frame α ε)} (hstack : S.stack = f :: rest)
    (hf : f.owed? P line position = none) :
    S.owed P line position = rest.filterMap (Frame.owed? P line position) := by
  rw [owed, hstack, List.filterMap_cons_none hf]

theorem owed_eq (hstack : U.stack = S.stack) : U.owed P line position = S.owed P line position := by
  rw [owed, owed, hstack]

/-- No fault is owed to the receiver of a tap that is there. -/
theorem owed_of_tap (h : S.Assembled P) (htap : (S.tap? line place).isSome = true) {f : Frame α ε}
    (hf : f ∈ S.stack) : f.owed? P line (place + 1) = none := by
  cases f with
  | refusing l q fault =>
      obtain ⟨-, place', rfl, -, hnone, -⟩ := h.refusing l q fault hf
      have hne : ¬(l = line ∧ place' = place) := by
        rintro ⟨rfl, rfl⟩
        rw [hnone] at htap
        cases htap
      simp [Frame.owed?, hne]
  | _ => rfl

/-- A turn of a tap adds to the mail what it sends. -/
theorem turned_mail {rest : List (Frame α ε)} {l p : Nat} {turn : Tap.Turn σ α ε}
    (hturned : Turned P S rest line place turn U) (hplace : place < P.depth) (hp : p < P.depth)
    (hrest : ∀ f ∈ rest, f.owed? P line (place + 1) = none) :
    U.inFlight P l (p + 1) ++ U.owed P l (p + 1) =
      rest.filterMap (Frame.owed? P l (p + 1)) ++
        (if l = line ∧ p = place then (Tap.given turn.deeds).map (P.signal line (place + 1))
        else []) := by
  have hnext := hturned.next
  rw [Tap.given_turn_deeds]
  cases hturn : turn.next with
  | answer b =>
      rw [hturn] at hnext
      have hflight : U.inFlight P l (p + 1) = [] := by simp [inFlight, hnext.2]
      rw [hflight, owed, hnext.1]
      simp [Tap.Next.deeds, Tap.Deed.sent?]
  | up handle c r =>
      rw [hturn] at hnext
      obtain ⟨⟨guard, hstack⟩, hfocus⟩ := hnext
      have hflight : U.inFlight P l (p + 1) = [] := by simp [inFlight, hfocus]
      rw [hflight, owed_cons hstack rfl]
      simp [Tap.Next.deeds]
  | down s r =>
      rw [hturn] at hnext
      obtain ⟨⟨guard, hstack⟩, hfocus⟩ := hnext
      rw [inFlight_signal hplace hp hfocus, owed_cons hstack rfl]
      by_cases hhere : l = line ∧ p = place
      · obtain ⟨rfl, rfl⟩ := hhere
        -- Nothing is owed that the new signal could overtake.
        rw [List.filterMap_eq_nil_iff.mpr hrest]
        simp [Tap.Next.deeds, Tap.Deed.sent?]
      · have hother : ¬(line = l ∧ place = p) := fun h => hhere ⟨h.1.symm, h.2.symm⟩
        simp [hhere, hother]

/-- A call to a tap delivers what was on its way to it, and nothing else. -/
theorem serve_arrivals {c : Call α ε} {l : Nat} {input : Tap.Input α ε} {turn : Tap.Turn σ α ε}
    (hfocus : S.focus = .call c) (hinput : c.input? = some (line, place, input))
    (hshows : Shows line place (.received input :: turn.deeds) events) :
    arrivals P l position events = S.inFlight P l position := by
  have hheard : Tap.heard (.received input :: turn.deeds) =
      (Tap.Deed.heard? (.received input : Tap.Deed α ε)).toList := by simp
  have harrivals : arrivals P l position events =
      if l = line ∧ position = place ∧ position < P.depth then
        (Tap.Deed.heard? (.received input : Tap.Deed α ε)).toList.map (.tap line place)
      else [] := by
    rw [arrivals, hshows.clients]
    by_cases hhere : l = line ∧ position = place
    · obtain ⟨rfl, rfl⟩ := hhere
      rw [hshows.here, hheard]
      simp
    · have hnot : ¬(l = line ∧ position = place ∧ position < P.depth) :=
        fun h => hhere ⟨h.1, h.2.1⟩
      rw [hshows.elsewhere l position hhere, if_neg hnot]
      simp
  rw [harrivals]
  cases c with
  | tap l' p' s =>
      cases hinput
      simp [inFlight, hfocus, Tap.Deed.heard?, eq_comm]
  | control l' q handle ctl =>
      cases handle with
      | tap p' =>
          cases hinput
          simp [inFlight, hfocus, Tap.Deed.heard?]
      | _ => cases hinput
  | _ => cases hinput

/-- What a tap shows of a turn is sent to its receiver only. -/
theorem shows_dispatched {shown : List (Tap.Deed α ε)} {l p : Nat}
    (hshows : Shows line place shown events) :
    dispatched P l p events =
      if l = line ∧ p = place then (Tap.given shown).map (P.signal line (place + 1)) else [] := by
  by_cases hhere : l = line ∧ p = place
  · obtain ⟨rfl, rfl⟩ := hhere
    rw [dispatched, hshows.here]
    simp
  · rw [dispatched, hshows.elsewhere l p hhere, if_neg hhere]
    rfl

theorem shows_arrivals {shown : List (Tap.Deed α ε)} (hshows : Shows line place shown events)
    (hheard : Tap.heard shown = []) (l position : Nat) : arrivals P l position events = [] := by
  rw [arrivals, hshows.clients]
  by_cases hhere : l = line ∧ position = place
  · obtain ⟨rfl, rfl⟩ := hhere
    rw [hshows.here, hheard]
    simp
  · rw [hshows.elsewhere l position hhere]
    simp

theorem quiet_mail {l p : Nat} (hquiet : Quiet events) (hU : U.inFlight P l (p + 1) = [])
    (howed : U.owed P l (p + 1) = S.owed P l (p + 1)) :
    U.inFlight P l (p + 1) ++ U.owed P l (p + 1) =
      S.owed P l (p + 1) ++ dispatched P l p events := by
  rw [hquiet.dispatched, hU, howed]
  simp

theorem inFlight_emitting {rest : List (Frame α ε)} (h : S.Emitting line rest) (l : Nat) :
    S.inFlight P l position = [] := by
  rcases h with ⟨n, hfocus, -⟩ | ⟨b, n, last, hfocus, -⟩ <;> simp [inFlight, hfocus]

theorem owed_emitting {rest : List (Frame α ε)} (h : S.Emitting line rest) (l : Nat) :
    rest.filterMap (Frame.owed? P l position) = S.owed P l position := by
  rcases h with ⟨n, -, rfl⟩ | ⟨b, n, last, -, hstack⟩
  · rfl
  · exact (owed_cons hstack rfl).symm

/-- A call that goes nowhere is not the delivery of a signal by a tap. -/
theorem inFlight_idle (h : S.Assembled P) {c : Call α ε} (hfocus : S.focus = .call c)
    (hcall : ∀ line place input, c.input? = some (line, place, input) →
      P.taps[place]? = none ∨ S.tap? line place = none)
    (hclient : ∀ line s, c ≠ .client line s) (l p : Nat) : S.inFlight P l (p + 1) = [] := by
  rw [inFlight, hfocus]
  cases c with
  | tap line place s =>
      refine if_neg ?_
      rintro ⟨rfl, rfl, -⟩
      -- A tap that is called by another one is there.
      have hsome := h.called line p s hfocus
      obtain ⟨tp, hplan⟩ := h.planned hsome
      rcases hcall line (p + 1) (.signal s) rfl with hnone | hnone
      · rw [hplan] at hnone
        cases hnone
      · rw [hnone] at hsome
        cases hsome
  | client line s => exact absurd rfl (hclient line s)
  | _ => rfl

/-- In a step there arrives what was on its way. -/
theorem step_arrivals (h : S.Assembled P) (hstep : Stepped P S U events) (l p : Nat) :
    arrivals P l (p + 1) events = S.inFlight P l (p + 1) := by
  cases hstep with
  | serve hfocus hinput hplan htap hturned hshows => exact serve_arrivals hfocus hinput hshows
  | resume hfocus hstack hplan htap hturned hshows =>
      rw [shows_arrivals hshows (by simp), inFlight, hfocus]
  | setUp hfocus hplan hlines hstack hnext hshows =>
      rw [shows_arrivals hshows rfl, inFlight, hfocus]
  | @refuse line place context tp f shown hfocus hplan hlines hstack hnext hfails hshows =>
      have hheard : Tap.heard (shown ++ [(.notSetUp f : Tap.Deed α ε)]) = [] := by
        cases hfails <;> rfl
      rw [shows_arrivals hshows hheard, inFlight, hfocus]
  | @hear line s hfocus hlines hstack hnext hevents =>
      rw [hevents, arrivals, inFlight, hfocus]
      by_cases hlt : p + 1 < P.depth
      · simp [hlt, Event.deed?, Nat.not_le.mpr hlt]
      · have hle : P.depth ≤ p + 1 := Nat.not_lt.mp hlt
        by_cases hline : line = l <;> simp [hlt, hle, hline, Event.heard?]
  | explain hfocus hstack hlines hrest hnext hquiet => rw [hquiet.arrivals, inFlight, hfocus]
  | callOut hfocus hcall hlines hstack hnext hquiet =>
      rw [hquiet.arrivals, inFlight, hfocus]
      rcases hcall with ⟨line, position, id, c, rfl, -⟩ | ⟨line, context, rfl, -⟩ <;> rfl
  | endStream hfocus hlines hstack hnext hquiet => rw [hquiet.arrivals, inFlight, hfocus]
  | ended hfocus hstack hlines hrest hnext hs hquiet => rw [hquiet.arrivals, inFlight, hfocus]
  | startEmission hfocus hlines hstack hnext hquiet => rw [hquiet.arrivals, inFlight, hfocus]
  | emit hemitting hlines hframe hstack hnext hs hquiet =>
      rw [hquiet.arrivals, inFlight_emitting hemitting]
  | loop hemitting hlines hstack hnext hquiet =>
      rw [hquiet.arrivals]
      rcases hemitting with hemitting | ⟨position, c, hfocus, rfl⟩
      · exact (inFlight_emitting hemitting l).symm
      · rw [inFlight, hfocus]
  | idle hfocus hcall hclient hlines hstack hnext hquiet =>
      rw [hquiet.arrivals, inFlight_idle h hfocus hcall hclient]
  | pop hfocus hstack hframe hlines hrest hnext hquiet => rw [hquiet.arrivals, inFlight, hfocus]
  | handOver hfocus hstack hlines hsame hnext hquiet => rw [hquiet.arrivals, inFlight, hfocus]

/-- What is on its way or owed after a step was owed before, or it has been sent in the step. -/
theorem step_mail (h : S.Assembled P) (hstep : Stepped P S U events) {l p : Nat}
    (hp : p < P.depth) :
    U.inFlight P l (p + 1) ++ U.owed P l (p + 1) =
      S.owed P l (p + 1) ++ dispatched P l p events := by
  cases hstep with
  | @serve c line place input tp t hfocus hinput hplan htap hturned hshows =>
      have hsome : (S.tap? line place).isSome = true := by rw [htap]; rfl
      have hplace : place < P.depth := (List.getElem?_eq_some_iff.mp hplan).1
      rw [turned_mail hturned hplace hp fun f hf => owed_of_tap h hsome hf,
        shows_dispatched hshows]
      rfl
  | @resume b line place guard r rest tp t hfocus hstack hplan htap hturned hshows =>
      have hsome : (S.tap? line place).isSome = true := by rw [htap]; rfl
      have hplace : place < P.depth := (List.getElem?_eq_some_iff.mp hplan).1
      rw [turned_mail hturned hplace hp fun f hf =>
        owed_of_tap h hsome (hstack ▸ List.mem_cons_of_mem _ hf), shows_dispatched hshows,
        owed_cons hstack rfl]
  | @setUp line place context tp listener augmented guard hfocus hplan hlines hstack hnext hshows =>
      have hU : U.inFlight P l (p + 1) = [] := by simp [inFlight, hnext]
      rw [shows_dispatched hshows, hU, owed_cons hstack rfl]
      simp [Tap.Deed.given, owed]
  | @refuse line place context tp f shown hfocus hplan hlines hstack hnext hfails hshows =>
      have hjoining := h.joining _ _ _ hfocus
      have hgiven : Tap.given (shown ++ [(.notSetUp f : Tap.Deed α ε)]) =
          [.subscribe .empty, .error (.listener f)] := by cases hfails <;> rfl
      rw [shows_dispatched hshows, hgiven, inFlight_signal hjoining.inside hp hnext]
      by_cases hhere : l = line ∧ p = place
      · obtain ⟨rfl, rfl⟩ := hhere
        -- Nothing has been owed to this receiver, or it would not be joined now.
        have hnone : S.owed P l (p + 1) = [] := by
          refine List.filterMap_eq_nil_iff.mpr fun g hg => ?_
          cases g with
          | refusing l' q f' =>
              have hother : ¬(l' = l ∧ q = p + 1) := by
                rintro ⟨rfl, rfl⟩
                exact hjoining.refusing _ f' hg
              rw [Frame.owed?, if_neg hother]
          | _ => rfl
        have howed : U.owed P l (p + 1) =
            P.signal l (p + 1) (.error (.listener f)) :: S.owed P l (p + 1) := by
          rw [owed, hstack, List.filterMap_cons_some
            (b := P.signal l (p + 1) (.error (.listener f))) (by simp [Frame.owed?]), owed]
        rw [howed, hnone]
        simp
      · have hother : ¬(line = l ∧ place = p) := fun h => hhere ⟨h.1.symm, h.2.symm⟩
        rw [owed_cons hstack (by simp [Frame.owed?, hother])]
        simp [hhere, hother, owed]
  | @explain b line position f rest hfocus hstack hlines hrest hnext hquiet =>
      obtain ⟨-, place, rfl, hinside, -⟩ :=
        h.refusing line position f (hstack ▸ List.mem_cons_self)
      rw [hquiet.dispatched, inFlight_signal hinside hp hnext, owed, hrest]
      by_cases hhere : line = l ∧ place = p
      · obtain ⟨rfl, rfl⟩ := hhere
        rw [owed, hstack, List.filterMap_cons_some
          (b := P.signal line (place + 1) (.error (.listener f))) (by simp [Frame.owed?])]
        simp
      · rw [owed_cons hstack (by simp [Frame.owed?, hhere])]
        simp [hhere]
  | @hear line s hfocus hlines hstack hnext hevents =>
      have hU : U.inFlight P l (p + 1) = [] := by simp [inFlight, hnext]
      have hnone : dispatched P l p events = [] := by
        rw [hevents]
        rfl
      rw [hU, owed_cons hstack rfl, hnone, owed]
      simp
  | callOut hfocus hcall hlines hstack hnext hquiet =>
      exact quiet_mail hquiet (by simp [inFlight, hnext]) (owed_cons hstack rfl)
  | endStream hfocus hlines hstack hnext hquiet =>
      exact quiet_mail hquiet (inFlight_sourceSignal hp hnext l) (owed_cons hstack rfl)
  | ended hfocus hstack hlines hrest hnext hs hquiet =>
      refine quiet_mail hquiet (inFlight_sourceSignal hp hnext l) ?_
      rw [owed_cons hstack rfl, owed, hrest]
  | startEmission hfocus hlines hstack hnext hquiet =>
      exact quiet_mail hquiet (inFlight_sourceSignal hp hnext l) (owed_eq hstack)
  | emit hemitting hlines hframe hstack hnext hs hquiet =>
      refine quiet_mail hquiet (inFlight_sourceSignal hp hnext l) ?_
      rw [← owed_emitting hemitting]
      rcases hframe with ⟨n, last, rfl⟩ | rfl <;> exact owed_cons hstack rfl
  | loop hemitting hlines hstack hnext hquiet =>
      refine quiet_mail hquiet (by simp [inFlight, hnext]) ?_
      rcases hemitting with hemitting | ⟨position, c, hfocus, rfl⟩
      · rw [← owed_emitting hemitting, owed, hstack]
      · exact owed_eq hstack
  | idle hfocus hcall hclient hlines hstack hnext hquiet =>
      exact quiet_mail hquiet (by simp [inFlight, hnext]) (owed_eq hstack)
  | @pop b b' f rest hfocus hstack hframe hlines hrest hnext hquiet =>
      refine quiet_mail hquiet (by simp [inFlight, hnext]) ?_
      have hnone : f.owed? P l (p + 1) = none := by
        rcases hframe with hpassive | ⟨line, place, guard, r, rfl, -⟩
        · cases f <;> first | rfl | cases hpassive
        · rfl
      rw [owed_cons hstack hnone, owed, hrest]
  | handOver hfocus hstack hlines hsame hnext hquiet =>
      exact quiet_mail hquiet (by simp [inFlight, hnext]) (owed_eq hsame)

namespace Delivers

variable {l : Nat} {before : List (Event α ε)} {m : Move α ε} {history : List (Entry α ε)}

theorem step (hassembled : S.Assembled P) (h : S.Delivers P before)
    (hstep : Stepped P S U events) : U.Delivers P (before ++ events) := by
  intro line place hplace
  rw [dispatched_append, ← h line place hplace, arrivals_append, step_arrivals hassembled hstep]
  simp only [List.append_assoc]
  rw [step_mail hassembled hstep hplace]

theorem move (h : S.Delivers P before) (hmove : Moved P S U m) : U.Delivers P before := by
  intro line place hplace
  have hbefore := h line place hplace
  have hkeep : U.inFlight P line (place + 1) = [] →
      U.owed P line (place + 1) = S.owed P line (place + 1) → ∀ b, S.focus = .outside b →
      arrivals P line (place + 1) before ++ U.inFlight P line (place + 1) ++
        U.owed P line (place + 1) = dispatched P line place before := by
    intro hflight howed b hfocus
    have hS : S.inFlight P line (place + 1) = [] := by simp [inFlight, hfocus]
    rw [hflight, howed, ← hS]
    exact hbefore
  cases hmove with
  | subscribe hturn hlines hstack hnext =>
      exact hkeep (by simp [inFlight, hnext]) (owed_eq hstack) _ hturn
  | signal hturn hlines hstack hnext =>
      exact hkeep (inFlight_sourceSignal hplace hnext line) (owed_eq hstack) _ hturn
  | control hturn hreceived hlines hstack hnext =>
      exact hkeep (by simp [inFlight, hnext]) (owed_eq hstack) _ hturn
  | direct hturn hlines hstack hnext =>
      exact hkeep (by simp [inFlight, hnext]) (owed_eq hstack) _ hturn
  | answer hturn hstack hlines hrest hnext =>
      refine hkeep (by simp [inFlight, hnext]) ?_ _ hturn
      rw [owed_cons hstack rfl, owed, hrest]

theorem nothing (hstack : S.stack = []) {b : Bool} (hfocus : S.focus = .outside b) :
    S.Delivers P [] := by
  intro line place _
  simp [arrivals, dispatched, inFlight, owed, hstack, hfocus]

theorem run (hassembled : S.Assembled P) (h : S.Delivers P before) (hrun : Run P S history U) :
    U.Delivers P (before ++ happened history) := by
  induction hrun with
  | refl => simpa using h
  | @step history T U events hrun hstep ih =>
      rw [happened_append, happened_map_event, ← List.append_assoc]
      exact ih.step (hassembled.run hrun) (step?_stepped hstep)
  | move hrun hmove ih =>
      rw [happened_append, happened_move, List.append_nil]
      exact ih.move (move?_moved hmove)

/-! ## What a receiver hears -/

/-- The next tap has heard what it was given, apart from what is on its way or owed. -/
theorem next_tap (h : S.Delivers P events) (hplace : place + 1 < P.depth) :
    ((Tap.heard (deeds l (place + 1) events)).map (.tap l (place + 1)) ++
        S.inFlight P l (place + 1) ++ S.owed P l (place + 1) : List (Call α ε)) =
      ((Tap.given (deeds l place events)).map (·.mapError P.adapt)).map (.tap l (place + 1)) := by
  have hmail := h l place (Nat.lt_of_succ_lt hplace)
  rw [arrivals, if_pos hplace] at hmail
  rw [hmail, dispatched, List.map_map]
  refine List.map_congr_left fun s _ => ?_
  rw [Plan.signal, if_pos hplace]
  rfl

/-- The client has heard what it was given, apart from what is on its way or owed. -/
theorem client (h : S.Delivers P events) (hplace : place + 1 = P.depth) :
    (heardBy l events).map (.client l) ++ S.inFlight P l (place + 1) ++
        S.owed P l (place + 1) =
      (Tap.given (deeds l place events)).map (.client l) := by
  have hmail := h l place (by omega)
  rw [arrivals, if_neg (by omega)] at hmail
  rw [hmail, dispatched]
  refine List.map_congr_left fun s _ => ?_
  rw [Plan.signal, if_neg (by omega)]

theorem prefix_of_map {β γ : Type} {f : β → γ} (hf : Function.Injective f) {xs ys : List β}
    {rest : List γ} (h : xs.map f ++ rest = ys.map f) : xs <+: ys := by
  obtain ⟨first, last, rfl, hfirst, -⟩ := List.map_eq_append_iff.mp h.symm
  rw [List.map_injective_iff.mpr hf hfirst]
  exact List.prefix_append xs last

theorem tap_injective (line place : Nat) :
    Function.Injective (.tap line place : Signal α ε → Call α ε) := fun _ _ h => by cases h; rfl

theorem client_injective (line : Nat) :
    Function.Injective (.client line : Signal α (TapError ε) → Call α ε) :=
  fun _ _ h => by cases h; rfl

/-- The client hears what it is given, in order. -/
theorem heardBy_given (h : S.Delivers P events) (hplace : place + 1 = P.depth) :
    heardBy line events <+: Tap.given (deeds line place events) := by
  have hclient := h.client (l := line) hplace
  rw [List.append_assoc] at hclient
  exact prefix_of_map (client_injective line) hclient

theorem heard_given (h : S.Delivers P events) (hplace : place + 1 < P.depth) :
    Tap.heard (deeds line (place + 1) events) <+:
      (Tap.given (deeds line place events)).map (·.mapError P.adapt) := by
  have hnext := h.next_tap (l := line) hplace
  rw [List.append_assoc] at hnext
  exact prefix_of_map (tap_injective line (place + 1)) hnext

/-- A signal that is about to reach the next tap follows what that tap has heard. -/
theorem heard_concat (h : S.Delivers P events) (hplace : place + 1 < P.depth) {s : Signal α ε}
    (hfocus : S.focus = .call (.tap line (place + 1) s)) :
    Tap.heard (deeds line (place + 1) events) ++ [s] <+:
      (Tap.given (deeds line place events)).map (·.mapError P.adapt) := by
  have hnext := h.next_tap (l := line) hplace
  have hflight : S.inFlight P line (place + 1) = [s].map (.tap line (place + 1)) := by
    simp [inFlight, hfocus, hplace]
  rw [hflight, ← List.map_append] at hnext
  exact prefix_of_map (tap_injective line (place + 1)) hnext

variable (hidle : S.stack = []) {b : Bool} (hturn : S.focus = .outside b)

include hidle hturn

/-- At rest everything has arrived at the next tap. -/
theorem heard_eq (h : S.Delivers P events) (hplace : place + 1 < P.depth) :
    Tap.heard (deeds line (place + 1) events) =
      (Tap.given (deeds line place events)).map (·.mapError P.adapt) := by
  have hnext := h.next_tap (l := line) hplace
  simp only [inFlight, hturn, owed, hidle, List.filterMap_nil, List.append_nil] at hnext
  exact List.map_injective_iff.mpr (tap_injective line (place + 1)) hnext

/-- At rest everything has arrived at the client. -/
theorem heardBy_eq (h : S.Delivers P events) (hplace : place + 1 = P.depth) :
    heardBy line events = Tap.given (deeds line place events) := by
  have hclient := h.client (l := line) hplace
  simp only [inFlight, hturn, owed, hidle, List.filterMap_nil, List.append_nil] at hclient
  exact List.map_injective_iff.mpr (client_injective line) hclient

end Delivers

end State

end Wiretap

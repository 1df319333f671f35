import Wiretap.Proofs.Machine.Trace
import Wiretap.Proofs.Tap.Turn

/-!
# What a step of the machine can be

Every step either lets a tap take a turn, or sets one up, or refuses to, or passes a signal to a
client, or moves on between these without concerning any tap or client. The emissions of the lines
do not matter here, so a state is described by its lines without them, its stack and its focus.
-/

namespace Wiretap

variable {K : Kinds} {σ α ε : Type}

/-- The line without its emission. -/
def Line.bare (l : Line σ α) : Line σ α := { l with emission := none }

/-- The tap that is called, and what with. -/
def Call.input? : Call α ε → Option (Nat × Nat × Tap.Input α ε)
  | .tap line place s => some (line, place, .signal s)
  | .control line _ (.tap place) c => some (line, place, .control c)
  | _ => none

/-- What setting up a tap shows when it fails with a fault. -/
inductive Tap.SetUpFails : Fault → List (Tap.Deed α ε) → Prop
  | uncreated (cause : Cause) : SetUpFails ⟨.creation, cause⟩ [.created (some cause)]
  | first (cause : Cause) :
    SetUpFails ((Hook.first : Hook α ε).fault cause)
      [.created none, .acted (.ran .first (some cause)),
        .acted (.reported ((Hook.first : Hook α ε).fault cause))]
  | augmentation (cause : Cause) :
    SetUpFails ⟨.augmentation, cause⟩
      [.created none, .acted (.ran .first none), .acted (.augmented (some cause)),
        .acted (.reported ⟨.augmentation, cause⟩)]

/-- The machine has carried out a turn of the tap at a place, above the frames `rest`. -/
structure Turned (P : Plan σ α ε) (S : State σ α ε) (rest : List (Frame α ε)) (line place : Nat)
    (turn : Tap.Turn σ α ε) (U : State σ α ε) : Prop where
  lines : U.lines = (S.setTap line place turn.tap).lines
  next : match turn.next with
    | .answer b => U.stack = rest ∧ U.focus = .back b
    | .down s r => (∃ guard, U.stack = .tap line place guard r :: rest) ∧
        U.focus = .call (P.signal line (place + 1) s)
    | .up h c r => (∃ guard, U.stack = .tap line place guard r :: rest) ∧
        U.focus = .call (.control line place h c)

namespace Turned

variable {P : Plan σ α ε} {S U : State σ α ε} {rest : List (Frame α ε)} {line place : Nat}
  {turn : Tap.Turn σ α ε}

/-- A turn that ends with a call leaves a frame, and a turn that ends with an answer leaves none. -/
theorem stack (h : Turned P S rest line place turn U) :
    turn.next.resume? = none ∧ U.stack = rest ∨
      ∃ guard r, turn.next.resume? = some r ∧ U.stack = .tap line place guard r :: rest := by
  have hnext := h.next
  cases hturn : turn.next with
  | answer b =>
      rw [hturn] at hnext
      exact .inl ⟨rfl, hnext.1⟩
  | down s r =>
      rw [hturn] at hnext
      obtain ⟨⟨guard, hstack⟩, -⟩ := hnext
      exact .inr ⟨guard, r, rfl, hstack⟩
  | up h c r =>
      rw [hturn] at hnext
      obtain ⟨⟨guard, hstack⟩, -⟩ := hnext
      exact .inr ⟨guard, r, rfl, hstack⟩

theorem focus (h : Turned P S rest line place turn U) :
    (∃ b, U.focus = .back b) ∨ (∃ s, U.focus = .call (P.signal line (place + 1) s)) ∨
      ∃ handle c, U.focus = .call (.control line place handle c) := by
  have hnext := h.next
  cases hturn : turn.next with
  | answer b =>
      rw [hturn] at hnext
      exact .inl ⟨b, hnext.2⟩
  | down s r =>
      rw [hturn] at hnext
      exact .inr (.inl ⟨s, hnext.2⟩)
  | up handle c r =>
      rw [hturn] at hnext
      exact .inr (.inr ⟨handle, c, hnext.2⟩)

end Turned

/-- The loop of an emission goes on, above the frames `rest`. -/
def State.Emitting (S : State σ α ε) (line : Nat) (rest : List (Frame α ε)) : Prop :=
  (∃ n, S.focus = .call (.emit line n) ∧ S.stack = rest) ∨
    ∃ b n last, S.focus = .back b ∧ S.stack = .emitting line n last :: rest

/-- A frame whose return concerns nobody. -/
def Frame.isPassive : Frame α ε → Bool
  | .joining .. | .emitting .. | .completing .. => true
  | _ => false

/-- The context that is ambient while a tap works for a call that is made now. -/
abbrev State.inside (S : State σ α ε) (p : TapPlan σ α ε) (t : Tap σ) : Context :=
  (p.scope.install t.context S.ambient).1

/-- The turn of a tap when it is called. -/
abbrev State.served (S : State σ α ε) (p : TapPlan σ α ε) (t : Tap σ) (line place : Nat)
    (input : Tap.Input α ε) : Tap.Turn σ α ε :=
  t.serve (p.listener (S.inside p t)) (.tap place) (S.isConditional line) input

/-- From `S` the machine steps to `U`, with these events. -/
inductive Stepped (P : Plan σ α ε) (S U : State σ α ε) (events : List (Event α ε)) : Prop
  /-- A tap is called. -/
  | serve {c : Call α ε} {line place : Nat} {input : Tap.Input α ε} {p : TapPlan σ α ε}
    {t : Tap σ} (hfocus : S.focus = .call c) (hinput : c.input? = some (line, place, input))
    (hplan : P.taps[place]? = some p) (htap : S.tap? line place = some t)
    (hturned : Turned P S S.stack line place (S.served p t line place input) U)
    (hshows : Shows line place (.received input :: (S.served p t line place input).deeds) events)
  /-- A tap goes on. -/
  | resume {b : Bool} {line place : Nat} {guard : Guard} {r : Tap.Resume α ε}
    {rest : List (Frame α ε)} {p : TapPlan σ α ε} {t : Tap σ} (hfocus : S.focus = .back b)
    (hstack : S.stack = .tap line place guard r :: rest) (hplan : P.taps[place]? = some p)
    (htap : S.tap? line place = some t)
    (hturned : Turned P S rest line place (t.resume (p.listener S.ambient) r b) U)
    (hshows : Shows line place (t.resume (p.listener S.ambient) r b).deeds events)
  /-- A tap has been set up and is joined to what is before it. -/
  | setUp {line place : Nat} {context : Context} {p : TapPlan σ α ε} {listener : σ}
    {augmented : Context} {guard : Guard}
    (hfocus : S.focus = .call (.join line (place + 1) context))
    (hplan : P.taps[place]? = some p)
    (hlines : U.lines = (S.setTap line place (.start listener augmented)).lines)
    (hstack : U.stack = .joining line place guard :: S.stack)
    (hnext : U.focus = .call (.join line place augmented))
    (hshows : Shows line place
      [.created none, .acted (.ran .first none), .acted (.augmented none)] events)
  /-- A tap could not be set up. -/
  | refuse {line place : Nat} {context : Context} {p : TapPlan σ α ε} {f : Fault}
    {shown : List (Tap.Deed α ε)} (hfocus : S.focus = .call (.join line (place + 1) context))
    (hplan : P.taps[place]? = some p) (hlines : U.lines = S.lines)
    (hstack : U.stack = .refusing line (place + 1) f :: S.stack)
    (hnext : U.focus = .call (P.signal line (place + 1) (.subscribe .empty)))
    (hfails : Tap.SetUpFails f shown) (hshows : Shows line place (shown ++ [.notSetUp f]) events)
  /-- The receiver of a tap that could not be set up gets the fault. -/
  | explain {b : Bool} {line position : Nat} {f : Fault} {rest : List (Frame α ε)}
    (hfocus : S.focus = .back b) (hstack : S.stack = .refusing line position f :: rest)
    (hlines : U.lines = S.lines) (hrest : U.stack = rest)
    (hnext : U.focus = .call (P.signal line position (.error (.listener f))))
    (hquiet : Quiet events)
  /-- A client gets a signal. -/
  | hear {line : Nat} {s : Signal α (TapError ε)} (hfocus : S.focus = .call (.client line s))
    (hlines : U.lines = S.lines.modify line (·.receive s))
    (hstack : U.stack = .outside (.client line s) :: S.stack) (hnext : U.focus = .outside true)
    (hevents : events = [.called (.client line s) S.ambient])
  /-- A handle or a source outside is used. -/
  | callOut {c : Call α ε} {callback : Callback α ε} (hfocus : S.focus = .call c)
    (hcall : (∃ line position id control, c = .control line position (.external id) control ∧
        callback = .handle id control) ∨
      ∃ line context, c = .join line 0 context ∧ callback = .source line)
    (hlines : U.lines = S.lines) (hstack : U.stack = .outside callback :: S.stack)
    (hnext : U.focus = .outside true) (hquiet : Quiet events)
  /-- A source without items begins a stream. -/
  | endStream {line : Nat} {context : Context} {e : Option ε}
    (hfocus : S.focus = .call (.join line 0 context)) (hlines : U.lines = S.lines)
    (hstack : U.stack = .ending line e :: S.stack)
    (hnext : U.focus = .call (P.sourceSignal line (.subscribe .empty))) (hquiet : Quiet events)
  /-- A source without items ends a stream. -/
  | ended {b : Bool} {line : Nat} {e : Option ε} {rest : List (Frame α ε)} {s : Signal α ε}
    (hfocus : S.focus = .back b) (hstack : S.stack = .ending line e :: rest)
    (hlines : U.lines = S.lines) (hrest : U.stack = rest)
    (hnext : U.focus = .call (P.sourceSignal line s)) (hs : s.isSubscribe = false)
    (hquiet : Quiet events)
  /-- An emission begins a stream. -/
  | startEmission {line : Nat} {context : Context}
    (hfocus : S.focus = .call (.join line 0 context))
    (hlines : U.lines.map Line.bare = S.lines.map Line.bare) (hstack : U.stack = S.stack)
    (hnext : U.focus = .call (P.sourceSignal line (.subscribe .emission))) (hquiet : Quiet events)
  /-- An emission sends a signal. -/
  | emit {line : Nat} {rest : List (Frame α ε)} {f : Frame α ε} {s : Signal α ε}
    (hemitting : S.Emitting line rest) (hlines : U.lines.map Line.bare = S.lines.map Line.bare)
    (hframe : (∃ n last, f = .emitting line n last) ∨ f = .completing line)
    (hstack : U.stack = f :: rest) (hnext : U.focus = .call (P.sourceSignal line s))
    (hs : s.isSubscribe = false) (hquiet : Quiet events)
  /-- The loop of an emission begins or goes round. -/
  | loop {line : Nat} {rest : List (Frame α ε)} {n : UInt64}
    (hemitting : S.Emitting line rest ∨ ∃ position k,
      S.focus = .call (.control line position .emission (.request k)) ∧ S.stack = rest)
    (hlines : U.lines.map Line.bare = S.lines.map Line.bare) (hstack : U.stack = rest)
    (hnext : U.focus = .call (.emit line n)) (hquiet : Quiet events)
  /-- A call that goes nowhere returns. -/
  | idle {c : Call α ε} {b : Bool} (hfocus : S.focus = .call c)
    (hcall : ∀ line place input, c.input? = some (line, place, input) →
      P.taps[place]? = none ∨ S.tap? line place = none)
    (hclient : ∀ line s, c ≠ .client line s)
    (hlines : U.lines.map Line.bare = S.lines.map Line.bare) (hstack : U.stack = S.stack)
    (hnext : U.focus = .back b) (hquiet : Quiet events)
  /-- A frame returns. -/
  | pop {b b' : Bool} {f : Frame α ε} {rest : List (Frame α ε)} (hfocus : S.focus = .back b)
    (hstack : S.stack = f :: rest)
    (hframe : f.isPassive = true ∨ ∃ line place guard r, f = .tap line place guard r ∧
      (P.taps[place]? = none ∨ S.tap? line place = none))
    (hlines : U.lines.map Line.bare = S.lines.map Line.bare) (hrest : U.stack = rest)
    (hnext : U.focus = .back b') (hquiet : Quiet events)
  /-- The outside gets the turn. -/
  | handOver {b : Bool} (hfocus : S.focus = .back b)
    (hstack : S.stack = [] ∨ ∃ c rest, S.stack = .outside c :: rest) (hlines : U.lines = S.lines)
    (hsame : U.stack = S.stack) (hnext : U.focus = .outside b) (hquiet : Quiet events)

namespace State

variable {P : Plan σ α ε} {S : State σ α ε}

theorem setEmission_bare (line : Nat) (e : Emission α) :
    (S.setEmission line e).lines.map Line.bare = S.lines.map Line.bare := by
  apply List.ext_getElem?
  intro i
  simp only [setEmission, modifyLine, List.getElem?_map, List.getElem?_modify]
  cases S.lines[i]? with
  | none => rfl
  | some l => by_cases h : line = i <;> simp [h, Line.bare]

theorem settle_turned {T : State σ α ε} (line place : Nat) (guard : Guard)
    (turn : Tap.Turn σ α ε) (hlines : T.lines = S.lines) :
    Turned P S T.stack line place turn (settle P T line place guard turn).1 := by
  have hset : (T.setTap line place turn.tap).lines = (S.setTap line place turn.tap).lines := by
    simp [setTap, modifyLine, hlines]
  unfold settle
  cases hnext : turn.next with
  | answer b => exact ⟨hset, by simp [hnext, setTap, modifyLine, back]⟩
  | down s r => exact ⟨hset, by simp [hnext, setTap, modifyLine, callFrom]⟩
  | up h c r => exact ⟨hset, by simp [hnext, setTap, modifyLine, callFrom]⟩

theorem settle_shows (line place : Nat) (guard : Guard) (turn : Tap.Turn σ α ε) :
    Shows line place turn.deeds (settle P S line place guard turn).2 := by
  have hacts := shows_acted line place S.ambient turn.acts
  unfold settle Tap.Turn.deeds
  cases turn.next with
  | answer b =>
      apply hacts.append
      exact Shows.cons_quiet rfl (.one (fun _ _ => rfl) fun _ => rfl)
  | down s r => exact hacts.append (.one (fun _ _ => rfl) fun _ => rfl)
  | up h c r =>
      rw [Tap.Next.deeds, List.append_nil]
      exact hacts

variable {c : Call α ε}

/-- A tap that is there takes a turn when it is called. -/
theorem callTap_turned {line place : Nat} (input : Tap.Input α ε) {p : TapPlan σ α ε} {t : Tap σ}
    (hplan : P.taps[place]? = some p) (htap : S.tap? line place = some t) :
    Turned P S S.stack line place (S.served p t line place input) (callTap P S line place input).1 ∧
      Shows line place (.received input :: (S.served p t line place input).deeds)
        (callTap P S line place input).2 := by
  have hturn := settle_shows (P := P)
    (S := { S with ambient := (p.scope.install t.context S.ambient).1 }) line place
    (p.scope.install t.context S.ambient).2 (S.served p t line place input)
  have hreceived : Shows line place [.received input] [.received line place input] :=
    .one (fun _ _ => rfl) fun _ => rfl
  simp only [callTap, hplan, htap]
  refine ⟨?_, hreceived.append (hturn.cons_quiet rfl)⟩
  exact settle_turned (T := { S with ambient := (p.scope.install t.context S.ambient).1 })
    line place _ _ rfl

theorem callTap_stepped {line place : Nat} {input : Tap.Input α ε} {before : List (Event α ε)}
    (hfocus : S.focus = .call c) (hinput : c.input? = some (line, place, input))
    (hbefore : Quiet before) :
    Stepped P S (callTap P S line place input).1 (before ++ (callTap P S line place input).2) := by
  by_cases hthere : ∃ p t, P.taps[place]? = some p ∧ S.tap? line place = some t
  · obtain ⟨p, t, hplan, htap⟩ := hthere
    obtain ⟨hturned, hshows⟩ := callTap_turned input hplan htap
    exact .serve hfocus hinput hplan htap hturned (hshows.quiet_append hbefore)
  unfold callTap
  split
  next p t hplan htap => exact (hthere ⟨p, t, hplan, htap⟩).elim
  next hnone =>
    -- There is no such tap, so the call returns at once.
    refine .idle hfocus ?_ ?_ rfl rfl rfl (by simpa using hbefore)
    · intro line' place' input' hinput'
      rw [hinput] at hinput'
      cases hinput'
      cases hplan : P.taps[place]? with
      | none => exact .inl rfl
      | some p =>
          cases htap : S.tap? line place with
          | none => exact .inr rfl
          | some t => exact (hnone p t hplan htap).elim
    · rintro line' s rfl
      cases hinput

theorem controlEmission_stepped {line position : Nat} {ctl : Control} {before : List (Event α ε)}
    (hfocus : S.focus = .call (.control line position .emission ctl)) (hbefore : Quiet before) :
    Stepped P S (controlEmission S line ctl).1 (before ++ (controlEmission S line ctl).2) := by
  have hidle : ∀ (U : State σ α ε) (b : Bool) (events : List (Event α ε)),
      U.lines.map Line.bare = S.lines.map Line.bare → U.stack = S.stack → U.focus = .back b →
      Quiet events → Stepped P S U events := fun U b events hlines hstack hnext hquiet =>
    .idle hfocus (by simp [Call.input?]) (by simp) hlines hstack hnext hquiet
  unfold controlEmission
  split
  next =>
    split
    · dsimp only
      split
      · refine .loop (.inr ⟨position, _, hfocus, rfl⟩) ?_ rfl rfl (by simpa using hbefore)
        exact setEmission_bare line _
      · refine hidle _ true _ ?_ rfl rfl (by simpa using hbefore)
        exact setEmission_bare line _
    · exact hidle _ true _ rfl rfl rfl (hbefore.append (quiet_one rfl))
  next =>
    refine hidle _ true _ ?_ rfl rfl (by simpa using hbefore)
    exact setEmission_bare line _
  next => exact hidle _ true _ rfl rfl rfl (by simpa using hbefore)

theorem control_stepped {line position : Nat} {h : Handle} {ctl : Control}
    (hfocus : S.focus = .call (.control line position h ctl)) :
    Stepped P S (make P S (.control line position h ctl)).1
      (make P S (.control line position h ctl)).2 := by
  have hbefore : Quiet [(.controlled line position ctl : Event α ε)] := quiet_one rfl
  unfold make
  cases h with
  | empty =>
      exact .idle hfocus (by simp [Call.input?]) (by simp) rfl rfl rfl hbefore
  | emission => exact controlEmission_stepped hfocus hbefore
  | tap place => exact callTap_stepped hfocus rfl hbefore
  | external id =>
      exact .callOut hfocus (.inl ⟨line, position, id, ctl, rfl, rfl⟩) rfl rfl rfl
        (hbefore.append (quiet_one rfl))

theorem setUp_cases (L : Listener σ α ε) (listener : σ) (context : Context) :
    (∃ acts f, Tap.setUp L listener context = (acts, .error f) ∧
        Tap.SetUpFails f (.created none :: acts.map (.acted : Tap.Act α ε → Tap.Deed α ε))) ∨
      ∃ listener' augmented, Tap.setUp L listener context =
        ([.ran .first none, .augmented none], .ok (.start listener' augmented)) := by
  unfold Tap.setUp
  rcases L.run listener .first with ⟨later, _ | cause⟩
  · dsimp only
    rcases L.augment later context with ⟨last, cause | augmented⟩
    · exact .inl ⟨_, _, rfl, .augmentation cause⟩
    · exact .inr ⟨last, augmented, rfl⟩
  · exact .inl ⟨_, _, rfl, .first cause⟩

theorem setUpTap_stepped {line place : Nat} {context : Context} {before : List (Event α ε)}
    (hfocus : S.focus = .call (.join line (place + 1) context)) (hbefore : Quiet before) :
    Stepped P S (setUpTap P S line place context).1
      (before ++ (setUpTap P S line place context).2) := by
  have hcreated : ∀ (nth : Nat) (failure : Option Cause), Shows line place [.created failure]
      [(.created line place nth S.ambient context failure : Event α ε)] :=
    fun nth failure => .one (fun _ _ => rfl) fun _ => rfl
  have hrefused : ∀ f : Fault, Shows line place [.notSetUp f]
      [(.notSetUp line place f : Event α ε)] := fun f => .one (fun _ _ => rfl) fun _ => rfl
  unfold setUpTap
  split
  next hplan =>
    exact .idle hfocus (by simp [Call.input?]) (by simp) rfl rfl rfl (by simpa using hbefore)
  next p hplan =>
    dsimp only
    generalize S.created[place]?.getD 0 + 1 = nth
    split
    next cause hcreate =>
      refine .refuse hfocus hplan rfl rfl rfl (.uncreated cause) ?_
      exact ((hcreated nth (some cause)).append (hrefused ⟨.creation, cause⟩)).quiet_append hbefore
    next listener hcreate =>
      have hborn := hcreated nth none
      rcases setUp_cases (p.listener _) listener context with
        ⟨acts, f, hsetUp, hfails⟩ | ⟨listener', augmented, hsetUp⟩
      · rw [hsetUp]
        refine .refuse hfocus hplan rfl rfl rfl hfails ?_
        have hacts := shows_acted line place S.ambient acts
        exact ((hborn.append hacts).append (hrefused f)).quiet_append hbefore
      · rw [hsetUp]
        refine .setUp hfocus hplan rfl rfl rfl ?_
        have hacts := shows_acted line place S.ambient
          [(.ran .first none : Tap.Act α ε), .augmented none]
        exact ((hborn.append hacts).append_quiet (quiet_one rfl)).quiet_append hbefore

theorem joinSource_stepped {line : Nat} {context : Context} {before : List (Event α ε)}
    (hfocus : S.focus = .call (.join line 0 context)) (hbefore : Quiet before) :
    Stepped P S (joinSource P S line).1 (before ++ (joinSource P S line).2) := by
  unfold joinSource
  split
  · exact .endStream hfocus rfl rfl rfl (by simpa using hbefore)
  · exact .endStream hfocus rfl rfl rfl (by simpa using hbefore)
  · exact .callOut hfocus (.inr ⟨line, context, rfl, rfl⟩) rfl rfl rfl
      (hbefore.append (quiet_one rfl))
  · split
    · exact .endStream hfocus rfl rfl rfl (hbefore.append (quiet_one rfl))
    · exact .startEmission hfocus (setEmission_bare line _) rfl rfl
        (hbefore.append (quiet_one rfl))

theorem completeEmission_stepped {line : Nat} {rest : List (Frame α ε)} {e : Emission α}
    {T : State σ α ε} (hemitting : S.Emitting line rest)
    (hlines : T.lines.map Line.bare = S.lines.map Line.bare) (hstack : T.stack = rest)
    (hback : ∀ U : State σ α ε, U.lines.map Line.bare = S.lines.map Line.bare → U.stack = rest →
      U.focus = .back true → Stepped P S U []) :
    Stepped P S (completeEmission P T line e) [] := by
  unfold completeEmission
  split
  · refine .emit hemitting ?_ (.inr rfl) ?_ rfl rfl quiet_nil
    · exact (setEmission_bare line _).trans hlines
    · simp [callFrom, setEmission, modifyLine, hstack]
  · exact hback _ hlines hstack rfl

theorem emit_stepped {line : Nat} {n : UInt64} (hfocus : S.focus = .call (.emit line n)) :
    Stepped P S (emit P S line n).1 (emit P S line n).2 := by
  have hemitting : S.Emitting line S.stack := .inl ⟨n, hfocus, rfl⟩
  have hidle : ∀ U : State σ α ε, U.lines.map Line.bare = S.lines.map Line.bare →
      U.stack = S.stack → U.focus = .back true → Stepped P S U [] :=
    fun U hlines hstack hnext =>
      .idle hfocus (by simp [Call.input?]) (by simp) hlines hstack hnext quiet_nil
  unfold emit
  split
  next pull e hsource hemission =>
    split
    · exact hidle _ rfl rfl rfl
    · dsimp only
      split
      · exact hidle _ (setEmission_bare line _) rfl rfl
      · exact .loop (.inl hemitting) (setEmission_bare line _) rfl rfl quiet_nil
    · split
      · exact completeEmission_stepped hemitting rfl rfl hidle
      · refine .emit hemitting (setEmission_bare line _) (.inl ⟨_, _, rfl⟩) rfl rfl ?_
          (quiet_one rfl)
        split <;> rfl
  next => exact hidle _ rfl rfl rfl

theorem make_stepped (hfocus : S.focus = .call c) :
    Stepped P S (make P S c).1 (make P S c).2 := by
  cases c with
  | join line position context =>
      have hbefore : Quiet [(.joined line position context : Event α ε)] := quiet_one rfl
      cases position with
      | zero => exact joinSource_stepped hfocus hbefore
      | succ place => exact setUpTap_stepped hfocus hbefore
  | tap line place s =>
      exact callTap_stepped hfocus rfl quiet_nil
  | client line s => exact .hear hfocus rfl rfl rfl rfl
  | control line position h ctl => exact control_stepped hfocus
  | emit line n => exact emit_stepped hfocus

variable {b : Bool} {rest : List (Frame α ε)}

theorem resumeTap_stepped {line place : Nat} {guard : Guard} {r : Tap.Resume α ε}
    (hfocus : S.focus = .back b) (hstack : S.stack = .tap line place guard r :: rest) :
    Stepped P S (resumeTap P { S with stack := rest } line place guard r b).1
      (resumeTap P { S with stack := rest } line place guard r b).2 := by
  unfold resumeTap
  split
  next p t hplan htap =>
    refine .resume hfocus hstack hplan htap ?_ (settle_shows line place guard _)
    exact settle_turned (T := { S with stack := rest }) line place guard _ rfl
  next hnone =>
    refine .pop hfocus hstack (.inr ⟨line, place, guard, r, rfl, ?_⟩) rfl rfl rfl quiet_nil
    cases hplan : P.taps[place]? with
    | none => exact .inl rfl
    | some p =>
        cases htap : S.tap? line place with
        | none => exact .inr rfl
        | some t => exact (hnone p t hplan htap).elim

theorem resumeEmission_stepped {line : Nat} {n : UInt64} {last : Bool} (hfocus : S.focus = .back b)
    (hstack : S.stack = .emitting line n last :: rest) :
    Stepped P S (resumeEmission P { S with stack := rest } line n last b) [] := by
  have hemitting : S.Emitting line rest := .inr ⟨b, n, last, hfocus, hstack⟩
  have hpop : ∀ U : State σ α ε, U.lines.map Line.bare = S.lines.map Line.bare →
      U.stack = rest → U.focus = .back true → Stepped P S U [] :=
    fun U hlines hrest hnext =>
      .pop hfocus hstack (.inl rfl) hlines hrest hnext quiet_nil
  unfold resumeEmission
  dsimp only
  split
  · exact completeEmission_stepped hemitting rfl rfl hpop
  · exact hpop _ rfl rfl rfl
  · exact .loop (.inl hemitting) rfl rfl rfl quiet_nil

theorem resume_stepped {f : Frame α ε} (hfocus : S.focus = .back b) (hstack : S.stack = f :: rest) :
    Stepped P S (resume P { S with stack := rest } b f).1
      (resume P { S with stack := rest } b f).2 := by
  cases f with
  | tap line place guard r => exact resumeTap_stepped hfocus hstack
  | joining line place guard =>
      exact .pop hfocus hstack (.inl rfl) rfl rfl rfl (quiet_one rfl)
  | refusing line position f =>
      exact .explain hfocus hstack rfl rfl rfl quiet_nil
  | ending line e =>
      refine .ended hfocus hstack rfl rfl rfl ?_ quiet_nil
      cases e <;> rfl
  | emitting line n last => exact resumeEmission_stepped hfocus hstack
  | completing line => exact .pop hfocus hstack (.inl rfl) rfl rfl rfl quiet_nil
  | outside c =>
      exact .handOver hfocus (.inr ⟨c, rest, hstack⟩) rfl hstack.symm rfl quiet_nil

/-- A tap is called, and its turn is carried out under its own scope. -/
theorem step?_serve_settle {c : Call α ε} {line k : Nat} {input : Tap.Input α ε}
    {p : TapPlan σ α ε} {t : Tap σ} (hfocus : S.focus = .call c)
    (hinput : c.input? = some (line, k, input)) (hplan : P.taps[k]? = some p)
    (htap : S.tap? line k = some t) :
    ∃ events, S.step? P = some ((settle P { S with ambient := S.inside p t } line k
        (p.scope.install t.context S.ambient).2 (S.served p t line k input)).1, events) ∧
      Shows line k (.received input :: (S.served p t line k input).deeds) events := by
  obtain ⟨-, hshows⟩ := callTap_turned (S := S) (P := P) input hplan htap
  have hstep : S.step? P = some (make P S c) := by rw [step?, hfocus]
  have hsettled : (callTap P S line k input).1 = (settle P { S with ambient := S.inside p t } line k
      (p.scope.install t.context S.ambient).2 (S.served p t line k input)).1 := by
    simp only [callTap, hplan, htap]
  rw [← hsettled]
  cases c with
  | tap line place s =>
      cases hinput
      exact ⟨_, hstep, hshows⟩
  | control line position h c =>
      cases h with
      | tap place =>
          cases hinput
          exact ⟨_, hstep, hshows.cons_quiet rfl⟩
      | _ => cases hinput
  | _ => cases hinput

/-- A tap is called. -/
theorem step?_serve {c : Call α ε} {line k : Nat} {input : Tap.Input α ε} {p : TapPlan σ α ε}
    {t : Tap σ} (hfocus : S.focus = .call c) (hinput : c.input? = some (line, k, input))
    (hplan : P.taps[k]? = some p) (htap : S.tap? line k = some t) :
    ∃ U events, S.step? P = some (U, events) ∧
      Shows line k (.received input :: (S.served p t line k input).deeds) events ∧
      Turned P S S.stack line k (S.served p t line k input) U := by
  obtain ⟨events, hstep, hshows⟩ := step?_serve_settle hfocus hinput hplan htap
  exact ⟨_, events, hstep, hshows,
    settle_turned (T := { S with ambient := S.inside p t }) line k _ _ rfl⟩

/-- A tap goes on under the scope that it has installed. -/
theorem step?_resume_settle {b : Bool} {line k : Nat} {guard : Guard} {r : Tap.Resume α ε}
    {rest : List (Frame α ε)} {p : TapPlan σ α ε} {t : Tap σ} (hfocus : S.focus = .back b)
    (hstack : S.stack = .tap line k guard r :: rest) (hplan : P.taps[k]? = some p)
    (htap : S.tap? line k = some t) :
    ∃ events, S.step? P = some ((settle P { S with stack := rest } line k guard
        (t.resume (p.listener S.ambient) r b)).1, events) ∧
      Shows line k (t.resume (p.listener S.ambient) r b).deeds events := by
  have htap' : ({ S with stack := rest } : State σ α ε).tap? line k = some t := htap
  have hresume : resumeTap P { S with stack := rest } line k guard r b =
      settle P { S with stack := rest } line k guard (t.resume (p.listener S.ambient) r b) := by
    simp only [resumeTap, hplan, htap']
  have hstep : S.step? P = some (resumeTap P { S with stack := rest } line k guard r b) := by
    rw [step?, hfocus]
    dsimp only
    rw [hstack]
    rfl
  rw [hresume] at hstep
  exact ⟨_, hstep, settle_shows line k guard _⟩

/-- A tap goes on. -/
theorem step?_resume {b : Bool} {line k : Nat} {guard : Guard} {r : Tap.Resume α ε}
    {rest : List (Frame α ε)} {p : TapPlan σ α ε} {t : Tap σ} (hfocus : S.focus = .back b)
    (hstack : S.stack = .tap line k guard r :: rest) (hplan : P.taps[k]? = some p)
    (htap : S.tap? line k = some t) :
    ∃ U events, S.step? P = some (U, events) ∧
      Shows line k (t.resume (p.listener S.ambient) r b).deeds events ∧
      Turned P S rest line k (t.resume (p.listener S.ambient) r b) U := by
  obtain ⟨events, hstep, hshows⟩ := step?_resume_settle hfocus hstack hplan htap
  exact ⟨_, events, hstep, hshows,
    settle_turned (T := { S with stack := rest }) line k guard _ rfl⟩

theorem step?_eq_none_iff (P : Plan σ α ε) :
    S.step? P = none ↔ ∃ b, S.focus = .outside b := by
  unfold step?
  cases S.focus with
  | outside b => exact ⟨fun _ => ⟨b, rfl⟩, fun _ => rfl⟩
  | call c => exact ⟨nofun, nofun⟩
  | back b => cases S.stack <;> exact ⟨nofun, nofun⟩

theorem step?_stepped {U : State σ α ε} {events : List (Event α ε)}
    (h : S.step? P = some (U, events)) : Stepped P S U events := by
  unfold step? at h
  split at h
  · cases h
  next c hfocus =>
    have hstepped := make_stepped (P := P) hfocus
    rwa [Option.some.inj h] at hstepped
  next b hfocus =>
    split at h
    next hstack =>
      cases h
      exact .handOver hfocus (.inl hstack) rfl rfl rfl quiet_nil
    next f rest hstack =>
      have hstepped := resume_stepped (P := P) hfocus hstack
      rwa [Option.some.inj h] at hstepped

end State

/-- From `S` the outside moves to `U`. -/
inductive Moved (P : Plan σ α ε) (S U : State σ α ε) : Move α ε → Prop
  | subscribe {client : Client} {b : Bool} (hturn : S.focus = .outside b)
    (hlines : U.lines = (State.addLine P S client).lines) (hstack : U.stack = S.stack)
    (hnext : U.focus = .call (.join S.lines.length P.depth client.context)) :
    Moved P S U (.subscribe client)
  | signal {line : Nat} {s : Signal α ε} {b : Bool} (hturn : S.focus = .outside b)
    (hlines : U.lines = S.lines) (hstack : U.stack = S.stack)
    (hnext : U.focus = .call (P.sourceSignal line s)) : Moved P S U (.signal line s)
  | control {line nth : Nat} {c : Control} {h : Handle} {b : Bool} (hturn : S.focus = .outside b)
    (hreceived : S.received? line nth = some h) (hlines : U.lines = S.lines)
    (hstack : U.stack = S.stack) (hnext : U.focus = .call (.control line P.depth h c)) :
    Moved P S U (.control line nth c)
  | direct {line : Nat} {c : Control} {b : Bool} (hturn : S.focus = .outside b)
    (hlines : U.lines = S.lines) (hstack : U.stack = S.stack)
    (hnext : U.focus = .call (.control line P.depth (.tap (P.depth - 1)) c)) :
    Moved P S U (.direct line c)
  | answer {b b' b'' : Bool} {callback : Callback α ε} {rest : List (Frame α ε)}
    (hturn : S.focus = .outside b) (hstack : S.stack = .outside callback :: rest)
    (hlines : U.lines = S.lines) (hrest : U.stack = rest) (hnext : U.focus = .back b'') :
    Moved P S U (.answer b')

theorem State.move?_moved {P : Plan σ α ε} {S U : State σ α ε} {m : Move α ε}
    (h : S.move? P m = some U) : Moved P S U m := by
  unfold move? at h
  split at h
  next b client hturn =>
    cases h
    exact .subscribe hturn rfl rfl rfl
  next b line s hturn =>
    split at h
    · cases h
      exact .signal hturn rfl rfl rfl
    · cases h
  next b line nth c hturn =>
    obtain ⟨handle, hreceived, rfl⟩ := Option.map_eq_some_iff.mp h
    exact .control hturn hreceived rfl rfl rfl
  next b line c hturn =>
    cases h
    exact .direct hturn rfl rfl rfl
  next b b' hturn =>
    split at h
    next callback rest hstack =>
      cases h
      exact .answer hturn hstack rfl rfl rfl
    · cases h
  · cases h

/-- A move is made when the outside has the turn. -/
theorem State.move_turn {P : Plan σ α ε} {S U : State σ α ε} {m : Move α ε} (h : Moved P S U m) :
    ∃ b, S.focus = .outside b := by
  cases h <;> exact ⟨_, ‹_›⟩

end Wiretap

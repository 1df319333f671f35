import Wiretap.Proofs.Machine.Rations

/-!
# An emission sends one signal at a time

A source that sends a signal waits in a frame until it is taken. The loop of an emission waits in no
more than one frame, for it is started only by a request that finds no demand outstanding, and there
is demand outstanding as long as it runs: it is given back when the loop ends for want of demand,
and it stays for good when the loop ends because the receiver has left. So a line whose source is a
sequence with items is in one of five phases.
-/

namespace Wiretap

variable {K : Kinds} {σ α ε : Type} {P : Plan σ α ε} {S U : State σ α ε} {line : Nat}
  {pull : Nat → Option α} {events : List (Event α ε)} {e : Emission α}
  {rest : List (Frame α ε)}

/-- Does the source of a line wait in this frame until a signal has been taken? -/
def Frame.isSending (line : Nat) : Frame α ε → Bool
  | .emitting l _ _ | .completing l | .ending l _ => l == line
  | _ => false

/-- The frames in which the source of a line waits until a signal has been taken. -/
def sending (line : Nat) (stack : List (Frame α ε)) : List (Frame α ε) :=
  stack.filter (·.isSending line)

theorem sending_push {f : Frame α ε} (hf : f.isSending line = false) :
    sending line (f :: rest) = sending line rest := by
  simp [sending, hf]

theorem sending_own {f : Frame α ε} (hf : f.isSending line = true) :
    sending line (f :: rest) = f :: sending line rest := by
  simp [sending, hf]

theorem sending_eq_nil : sending line rest = [] ↔ ∀ f ∈ rest, f.isSending line = false := by
  simp [sending]

/-! ## Who sends -/

namespace State

theorem signal_ne_sourceSignal {l place : Nat} (hplace : place < P.depth)
    (s : Signal α (TapError ε)) (s' : Signal α ε) :
    P.signal l (place + 1) s ≠ P.sourceSignal line s' := by
  unfold Plan.signal Plan.sourceSignal
  rw [if_pos (by omega : 0 < P.depth)]
  split <;> simp

theorem sourceSignal_inj {l : Nat} {s s' : Signal α ε}
    (h : (.call (P.sourceSignal l s) : Focus α ε) = .call (P.sourceSignal line s')) :
    l = line ∧ s.isSubscribe = s'.isSubscribe := by
  unfold Plan.sourceSignal at h
  split at h
  · cases h
    exact ⟨rfl, rfl⟩
  · simp only [Focus.call.injEq, Call.client.injEq] at h
    refine ⟨h.1, ?_⟩
    have hsame := congrArg Signal.isSubscribe h.2
    cases s <;> cases s' <;> first | rfl | cases hsame

theorem turned_unsent {l place : Nat} {turn : Tap.Turn σ α ε} {p : TapPlan σ α ε}
    (hplan : P.taps[place]? = some p) (hturned : Turned P S rest l place turn U)
    (s : Signal α ε) : U.focus ≠ .call (P.sourceSignal line s) := by
  have hplace : place < P.depth := (List.getElem?_eq_some_iff.mp hplan).1
  have hcontrol : ∀ handle c, (.control l place handle c : Call α ε) ≠ P.sourceSignal line s := by
    intro handle c
    unfold Plan.sourceSignal
    split <;> simp
  rcases hturned.focus with ⟨b, hnext⟩ | ⟨s', hnext⟩ | ⟨handle, c, hnext⟩
  · simp [hnext]
  · rw [hnext]
    exact fun h => signal_ne_sourceSignal hplace s' s (Focus.call.inj h)
  · rw [hnext]
    exact fun h => hcontrol handle c (Focus.call.inj h)

/-- A source sends something when its line is joined to it, and what it sends then is a handle.
Everything else is sent by the loop, which waits right there until it has been taken. -/
theorem step_sends (hassembled : S.Assembled P) (hends : ∀ e, .ending line e ∉ S.stack)
    (hstep : Stepped P S U events) {s : Signal α ε}
    (hnext : U.focus = .call (P.sourceSignal line s)) :
    (s.isSubscribe = true ∧ ∃ context, S.focus = .call (.join line 0 context)) ∨
      ∃ f rest, S.Emitting line rest ∧ U.stack = f :: rest ∧ f.isSending line = true ∧
        s.isSubscribe = false := by
  have hback : ∀ b, U.focus ≠ .back b := by simp [hnext]
  have houtside : ∀ b, U.focus ≠ .outside b := by simp [hnext]
  have hsource : ∀ {l : Nat} {s' : Signal α ε}, U.focus = .call (P.sourceSignal l s') →
      l = line ∧ s'.isSubscribe = s.isSubscribe :=
    fun hsent => sourceSignal_inj (hsent.symm.trans hnext)
  have htap : ∀ {l place : Nat} {s' : Signal α (TapError ε)}, place < P.depth →
      U.focus ≠ .call (P.signal l (place + 1) s') := by
    intro l place s' hplace hsent
    rw [hnext] at hsent
    exact signal_ne_sourceSignal hplace s' s (Focus.call.inj hsent).symm
  cases hstep with
  | serve _ _ hplan _ hturned => exact absurd hnext (turned_unsent hplan hturned s)
  | resume _ _ hplan _ hturned => exact absurd hnext (turned_unsent hplan hturned s)
  | @setUp l place _ _ _ augmented _ _ _ _ _ hjoins =>
      exact absurd (hnext.symm.trans hjoins)
        (Assembled.sourceSignal_ne_join line l place s augmented)
  | refuse _ hplan _ _ hrefused =>
      exact absurd hrefused (htap (List.getElem?_eq_some_iff.mp hplan).1)
  | @explain b l q f rest _ hstack _ _ hexplained =>
      obtain ⟨-, place, rfl, hplace, -⟩ :=
        hassembled.refusing l q f (hstack ▸ List.mem_cons_self)
      exact absurd hexplained (htap hplace)
  | hear _ _ _ hturn => exact absurd hturn (houtside _)
  | callOut _ _ _ _ hturn => exact absurd hturn (houtside _)
  | endStream hfocus _ _ hsent =>
      obtain ⟨rfl, hsubscribe⟩ := hsource hsent
      exact .inl ⟨hsubscribe.symm, _, hfocus⟩
  | @ended b l end? rest _ _ hstack _ _ hsent _ =>
      obtain ⟨rfl, -⟩ := hsource hsent
      exact absurd (hstack ▸ List.mem_cons_self) (hends end?)
  | startEmission hfocus _ _ hsent =>
      obtain ⟨rfl, hsubscribe⟩ := hsource hsent
      exact .inl ⟨hsubscribe.symm, _, hfocus⟩
  | @emit l rest f _ hemitting _ hframe hstack hsent hs =>
      obtain ⟨rfl, hsubscribe⟩ := hsource hsent
      refine .inr ⟨f, rest, hemitting, hstack, ?_, hsubscribe.symm.trans hs⟩
      rcases hframe with ⟨n, last, rfl⟩ | rfl <;> exact beq_self_eq_true l
  | @loop l _ n _ _ _ hloops =>
      exact absurd (hnext.symm.trans hloops) (sourceSignal_ne_emit line s n)
  | idle _ _ _ _ _ hreturns => exact absurd hreturns (hback _)
  | pop _ _ _ _ _ hreturns => exact absurd hreturns (hback _)
  | handOver _ _ _ _ hturn => exact absurd hturn (houtside _)

/-- In a move of the outside nothing is sent by a source that is not driven by hand. -/
theorem move_unsent {m : Move α ε} (hdriven : P.isDriven = false)
    (hmove : S.move? P m = some U) (s : Signal α ε) :
    U.focus ≠ .call (P.sourceSignal line s) := by
  cases State.move?_moved hmove with
  | signal => exact absurd (isDriven_of_signal hmove) (by simp [hdriven])
  | @subscribe client b hturn hlines hstack hnext =>
      rw [hnext]
      exact fun h => Assembled.sourceSignal_ne_join line _ _ s _ h.symm
  | @control l nth c handle b hturn hreceived hlines hstack hnext =>
      rw [hnext]
      unfold Plan.sourceSignal
      split <;> simp
  | direct hturn hlines hstack hnext =>
      rw [hnext]
      unfold Plan.sourceSignal
      split <;> simp
  | answer hturn hstack hlines hrest hnext => simp [hnext]

/-! ## What the loop does -/

/-- From `S` the loop of a line's emission `e`, above the frames `rest`, comes to `U`. -/
inductive Rounds (P : Plan σ α ε) (pull : Nat → Option α) (line : Nat) (S : State σ α ε)
    (rest : List (Frame α ε)) (e : Emission α) (U : State σ α ε) : List (Event α ε) → Prop
  /-- It ends because the receiver has left. -/
  | leave (hleft : e.mayComplete = false) (hemission : U.emission? line = some e)
    (hstack : U.stack = rest) (hnext : U.focus = .back true) : Rounds P pull line S rest e U []
  /-- It ends after the last item. -/
  | complete (hmay : e.mayComplete = true) (hemission : U.emission? line = some e.detach)
    (hstack : U.stack = .completing line :: rest)
    (hnext : U.focus = .call (P.sourceSignal line .complete)) : Rounds P pull line S rest e U []
  /-- It ends because nothing more is asked for. -/
  | settle {m : UInt64} (hfocus : S.focus = .call (.emit line m))
    (hverdict : e.verdict m = .settle) (hemission : U.emission? line = some (e.settle m))
    (hstack : U.stack = rest) (hnext : U.focus = .back true) : Rounds P pull line S rest e U []
  /-- It hands out the item ahead. -/
  | deliver {m : UInt64} {x : α} (hfocus : S.focus = .call (.emit line m))
    (hverdict : e.verdict m = .deliver) (hahead : e.ahead = some x)
    (hemission : U.emission? line = some (e.advance pull))
    (hstack : U.stack = .emitting line m (e.advance pull).ahead.isNone :: rest)
    (hnext : U.focus = .call (P.sourceSignal line (.handOut (S.isConditional line) x))) :
    Rounds P pull line S rest e U [.pulled line (e.advance pull).ahead]
  /-- It goes on after an item. -/
  | goOn {b : Bool} {m n : UInt64} (hfocus : S.focus = .back b)
    (hbefore : S.stack = .emitting line m false :: rest) (hemission : U.emission? line = some e)
    (hstack : U.stack = rest) (hnext : U.focus = .call (.emit line n)) :
    Rounds P pull line S rest e U []

theorem completeEmission_rounds {T : State σ α ε} (hnow : T.emission? line = some e)
    (hstack : T.stack = rest) : Rounds P pull line S rest e (completeEmission P T line e) [] := by
  unfold completeEmission
  split
  next hmay =>
    refine .complete hmay (setEmission_emission?_self (lt_of_emission? hnow) _) ?_ rfl
    simp [callFrom, setEmission, modifyLine, hstack]
  next hleft => exact .leave (Bool.eq_false_iff.mpr hleft) hnow hstack rfl

theorem emit_rounds {m : UInt64} (hsource : P.source = .sequence pull)
    (hfocus : S.focus = .call (.emit line m)) (hbefore : S.emission? line = some e) :
    Rounds P pull line S S.stack e (emit P S line m).1 (emit P S line m).2 := by
  have hset : ∀ e', (S.setEmission line e').emission? line = some e' :=
    setEmission_emission?_self (lt_of_emission? hbefore)
  unfold emit
  rw [hsource, hbefore]
  dsimp only
  split
  next hstop =>
    refine .leave ?_ hbefore rfl rfl
    have hcancelled : e.cancelled = true := by grind [Emission.verdict]
    simp [Emission.mayComplete, hcancelled]
  next hsettle =>
    rw [if_pos (Emission.requested_settle hsettle)]
    exact .settle hfocus hsettle (hset _) rfl rfl
  next hdeliver =>
    split
    next hnone => exact completeEmission_rounds hbefore rfl
    next x hahead => exact .deliver hfocus hdeliver hahead (hset _) rfl rfl

theorem resumeEmission_rounds {m : UInt64} {last b : Bool} (hfocus : S.focus = .back b)
    (hstack : S.stack = .emitting line m last :: rest) (hbefore : S.emission? line = some e) :
    Rounds P pull line S rest e (resumeEmission P { S with stack := rest } line m last b) [] := by
  have hnow : ({ S with stack := rest } : State σ α ε).emission? line = some e := hbefore
  unfold resumeEmission
  rw [hnow]
  cases last with
  | true => exact completeEmission_rounds hbefore rfl
  | false => exact .goOn hfocus hstack hbefore rfl rfl

/-- Every step of the loop is one of these. -/
theorem step?_rounds (hsource : P.source = .sequence pull) (hemitting : S.Emitting line rest)
    (hbefore : S.emission? line = some e) (hstep : S.step? P = some (U, events)) :
    Rounds P pull line S rest e U events := by
  rcases hemitting with ⟨m, hfocus, rfl⟩ | ⟨b, m, last, hfocus, hstack⟩
  · rw [step?, hfocus] at hstep
    obtain ⟨rfl, rfl⟩ := Prod.mk.inj (Option.some.inj hstep)
    exact emit_rounds hsource hfocus hbefore
  · simp only [step?, hfocus, hstack, resume, Option.some.injEq, Prod.mk.injEq] at hstep
    obtain ⟨rfl, rfl⟩ := hstep
    exact resumeEmission_rounds hfocus hstack hbefore

/-! ## What all others do -/

/-- A sequence with items does not end the stream when a line is joined to it. -/
theorem step?_opened {l : Nat} {context : Context} (hsource : P.source = .sequence pull)
    (hitems : pull 0 ≠ none) (hfocus : S.focus = .call (.join l 0 context))
    (hstep : S.step? P = some (U, events)) : U.stack = S.stack := by
  obtain ⟨x, hx⟩ := Option.ne_none_iff_exists'.mp hitems
  simp only [step?, hfocus, make, join, joinSource, hsource, hx, Option.some.injEq,
    Prod.mk.injEq] at hstep
  obtain ⟨rfl, -⟩ := hstep
  rfl

/-- Outside the loop nobody begins to wait for what the source of the line sends. -/
theorem step?_sending (hsource : P.source = .sequence pull) (hitems : pull 0 ≠ none)
    (hends : ∀ e, .ending line e ∉ S.stack) (hstep : S.step? P = some (U, events))
    (haside : ∀ rest, ¬S.Emitting line rest) :
    sending line U.stack = sending line S.stack ∨
      sending line S.stack = .completing line :: sending line U.stack := by
  have hturned : ∀ {rest : List (Frame α ε)} {l place : Nat} {turn : Tap.Turn σ α ε},
      Turned P S rest l place turn U → sending line U.stack = sending line rest := by
    intro rest l place turn hturned
    rcases hturned.stack with ⟨-, hstack⟩ | ⟨guard, r, -, hstack⟩
    · rw [hstack]
    · rw [hstack]
      exact sending_push rfl
  have hpop : ∀ {f : Frame α ε} {rest : List (Frame α ε)}, S.stack = f :: rest →
      f.isSending line = false → sending line rest = sending line S.stack :=
    fun hstack hf => hstack ▸ (sending_push hf).symm
  cases step?_stepped hstep with
  | serve _ _ _ _ hturn => exact .inl (hturned hturn)
  | resume _ hstack _ _ hturn => exact .inl ((hturned hturn).trans (hpop hstack rfl))
  | setUp _ _ _ hstack => exact .inl (hstack ▸ sending_push rfl)
  | refuse _ _ _ hstack => exact .inl (hstack ▸ sending_push rfl)
  | explain _ hstack _ hrest => exact .inl (hrest ▸ hpop hstack rfl)
  | hear _ _ hstack => exact .inl (hstack ▸ sending_push rfl)
  | callOut _ _ _ hstack => exact .inl (hstack ▸ sending_push rfl)
  | endStream hfocus _ _ => exact .inl (by rw [step?_opened hsource hitems hfocus hstep])
  | @ended b l end? rest s _ hstack _ hrest =>
      refine .inl (hrest ▸ hpop hstack (beq_false_of_ne ?_))
      rintro rfl
      exact hends end? (hstack ▸ List.mem_cons_self)
  | startEmission _ _ hstack => exact .inl (by rw [hstack])
  | @emit l rest f s hemitting _ hframe hstack =>
      have hother : l ≠ line := by
        rintro rfl
        exact haside rest hemitting
      have hf : f.isSending line = false := by
        rcases hframe with ⟨n, last, rfl⟩ | rfl <;> exact beq_false_of_ne hother
      rw [hstack, sending_push hf]
      rcases hemitting with ⟨n, -, hsame⟩ | ⟨b, n, last, -, hbefore⟩
      · exact .inl (by rw [hsame])
      · exact .inl (hpop hbefore (beq_false_of_ne hother))
  | @loop l rest n hemitting _ hstack =>
      rw [hstack]
      rcases hemitting with (⟨n, -, hsame⟩ | ⟨b, n, last, hfocus, hbefore⟩) | ⟨_, _, -, hsame⟩
      · exact .inl (by rw [hsame])
      · refine .inl (hpop hbefore (beq_false_of_ne ?_))
        rintro rfl
        exact haside rest (.inr ⟨b, n, last, hfocus, hbefore⟩)
      · exact .inl (by rw [hsame])
  | idle _ _ _ _ hstack => exact .inl (by rw [hstack])
  | @pop b _ f rest hfocus hstack hframe _ hrest =>
      rw [hrest]
      cases hf : f.isSending line with
      | false => exact .inl (hpop hstack hf)
      | true =>
          -- Of the frames that may be left like this, the loop's own one is not meant here.
          cases f with
          | completing l =>
              obtain rfl : l = line := beq_iff_eq.mp hf
              exact .inr (hstack ▸ sending_own hf)
          | emitting l n last =>
              obtain rfl : l = line := beq_iff_eq.mp hf
              exact absurd (.inr ⟨b, n, last, hfocus, hstack⟩) (haside rest)
          | ending l end? =>
              rcases hframe with hpassive | ⟨_, _, _, _, htap, -⟩
              · cases hpassive
              · cases htap
          | _ => cases hf
  | handOver _ _ _ hsame => exact .inl (by rw [hsame])

theorem move_sending {m : Move α ε} (hmove : Moved P S U m) :
    sending line U.stack = sending line S.stack := by
  cases hmove with
  | subscribe _ _ hstack => rw [hstack]
  | signal _ _ hstack => rw [hstack]
  | control _ _ _ hstack => rw [hstack]
  | direct _ _ hstack => rw [hstack]
  | answer _ hstack _ hrest =>
      rw [hrest, hstack]
      exact (sending_push rfl).symm

end State

/-! ## The phases -/

/-- The phases of a line whose source is a sequence with items. A receiver that has cancelled is not
attached any more. -/
inductive Paced (line : Nat) (S : State σ α ε) : Prop
  /-- The emission has not been started. -/
  | unborn (hemission : S.emission? line = none) (hclear : sending line S.stack = [])
    (hloop : ∀ n, S.focus ≠ .call (.emit line n))
  /-- The loop does not run; it can be started again only if it has come to its end for want of
  demand. -/
  | resting {e : Emission α} (hemission : S.emission? line = some e)
    (hleft : e.cancelled = true → e.attached = false) (hclear : sending line S.stack = [])
    (hcalm : S.Calm line) (hdone : e.attached = true → e.requested = 0 ∧ e.ahead ≠ none)
  /-- The loop is about to go round. -/
  | looping {e : Emission α} {m : UInt64} (hemission : S.emission? line = some e)
    (hleft : e.cancelled = true → e.attached = false) (hclear : sending line S.stack = [])
    (hfocus : S.focus = .call (.emit line m)) (hbusy : e.requested ≠ 0) (hahead : e.ahead ≠ none)
  /-- An item is out. -/
  | handing {e : Emission α} {m : UInt64} (hemission : S.emission? line = some e)
    (hleft : e.cancelled = true → e.attached = false)
    (hout : sending line S.stack = [.emitting line m e.ahead.isNone]) (hcalm : S.Calm line)
    (hbusy : e.requested ≠ 0)
  /-- The completion is out. -/
  | completing {e : Emission α} (hemission : S.emission? line = some e)
    (hout : sending line S.stack = [.completing line]) (hcalm : S.Calm line)
    (hdetached : e.attached = false)

namespace Paced

/-- The source waits in one frame at most. -/
theorem alone (h : Paced line S) {f : Frame α ε} (hstack : S.stack = f :: rest)
    (hf : f.isSending line = true) : ∀ g ∈ rest, g.isSending line = false := by
  refine sending_eq_nil.mp ?_
  have hown : sending line S.stack = f :: sending line rest := hstack ▸ sending_own hf
  cases h with
  | unborn _ hclear => rw [hclear] at hown; cases hown
  | resting _ _ hclear => rw [hclear] at hown; cases hown
  | looping _ _ hclear => rw [hclear] at hown; cases hown
  | handing _ _ hout => rw [hout] at hown; exact (List.cons.inj hown).2.symm
  | completing _ hout => rw [hout] at hown; exact (List.cons.inj hown).2.symm

theorem endless (h : Paced line S) (end? : Option ε) : .ending line end? ∉ S.stack := by
  intro hmem
  have hsending : .ending line end? ∈ sending line S.stack :=
    List.mem_filter.mpr ⟨hmem, beq_self_eq_true line⟩
  cases h with
  | unborn _ hclear => simp [hclear] at hsending
  | resting _ _ hclear => simp [hclear] at hsending
  | looping _ _ hclear => simp [hclear] at hsending
  | handing _ _ hout => simp [hout] at hsending
  | completing _ hout => simp [hout] at hsending

/-- The loop runs in two phases only. -/
theorem emitting (h : Paced line S) (hemitting : S.Emitting line rest) :
    ∃ e, S.emission? line = some e ∧ (e.cancelled = true → e.attached = false) ∧
      sending line rest = [] ∧ e.requested ≠ 0 ∧
      ((∃ m, S.focus = .call (.emit line m) ∧ e.ahead ≠ none) ∨
        ∃ b m, S.focus = .back b ∧ S.stack = .emitting line m e.ahead.isNone :: rest) := by
  rcases hemitting with ⟨m, hfocus, rfl⟩ | ⟨b, m, last, hfocus, hstack⟩
  · cases h with
    | unborn _ _ hloop => exact absurd hfocus (hloop m)
    | resting _ _ _ hcalm => exact absurd hfocus (hcalm.emit m)
    | looping hemission hleft hclear hloops hbusy hahead =>
        exact ⟨_, hemission, hleft, hclear, hbusy, .inl ⟨m, hfocus, hahead⟩⟩
    | handing _ _ _ hcalm => exact absurd hfocus (hcalm.emit m)
    | completing _ _ hcalm => exact absurd hfocus (hcalm.emit m)
  · have hown : sending line S.stack = .emitting line m last :: sending line rest := by
      rw [hstack]
      exact sending_own (beq_self_eq_true line)
    cases h with
    | unborn _ hclear => rw [hclear] at hown; cases hown
    | resting _ _ hclear => rw [hclear] at hown; cases hown
    | looping _ _ hclear => rw [hclear] at hown; cases hown
    | handing hemission hleft hout _ hbusy =>
        rw [hout] at hown
        obtain ⟨hframe, hrest⟩ := List.cons.inj hown
        cases hframe
        exact ⟨_, hemission, hleft, hrest.symm, hbusy, .inr ⟨b, m, hfocus, hstack⟩⟩
    | completing _ hout => rw [hout] at hown; cases hown

theorem round (h : Paced line S) (hsource : P.source = .sequence pull)
    (hemitting : S.Emitting line rest) (hstep : S.step? P = some (U, events)) :
    Paced line U := by
  obtain ⟨e, hbefore, hleft, hclear, hbusy, hturn⟩ := h.emitting hemitting
  cases State.step?_rounds hsource hemitting hbefore hstep with
  | leave hgone hemission hstack hnext =>
      refine .resting hemission hleft (hstack ▸ hclear) (.of_back hnext) fun hattached => ?_
      -- A receiver that is attached and has not cancelled would get the completion.
      have hstays : e.cancelled = false := by
        cases hcancelled : e.cancelled with
        | false => rfl
        | true => exact absurd ((hleft hcancelled).symm.trans hattached) Bool.false_ne_true
      simp [Emission.mayComplete, hstays, hattached] at hgone
  | complete hmay hemission hstack hnext =>
      refine .completing hemission ?_ (.of_sourceSignal hnext) rfl
      rw [hstack, sending_own (by simp [Frame.isSending]), hclear]
  | @settle m hfocus hverdict hemission hstack hnext =>
      refine .resting hemission hleft (hstack ▸ hclear) (.of_back hnext) fun _ => ?_
      refine ⟨Emission.requested_settle hverdict, ?_⟩
      -- The loop has just begun to go round, so there was an item ahead, which has stayed.
      rcases hturn with ⟨-, -, hahead⟩ | ⟨b, -, hback, -⟩
      · exact hahead
      · rw [hfocus] at hback
        cases hback
  | @deliver m x hfocus hverdict hahead hemission hstack hnext =>
      have hout : sending line U.stack = [.emitting line m (e.advance pull).ahead.isNone] := by
        rw [hstack, sending_own (by simp [Frame.isSending]), hclear]
      exact .handing hemission hleft hout (.of_sourceSignal hnext) hbusy
  | goOn hfocus hwaits hemission hstack hnext =>
      refine .looping hemission hleft (hstack ▸ hclear) hnext hbusy ?_
      rcases hturn with ⟨_, hloops, -⟩ | ⟨_, _, -, hframe⟩
      · rw [hfocus] at hloops
        cases hloops
      · rw [hwaits] at hframe
        cases hahead : e.ahead with
        | none => simp [hahead] at hframe
        | some x => simp

theorem aside (h : Paced line S) (hsource : P.source = .sequence pull) (hitems : pull 0 ≠ none)
    (hstep : S.step? P = some (U, events)) (haside : ∀ rest, ¬S.Emitting line rest)
    (hemission : U.emission? line = S.emission? line)
    (hnext : ∀ n, U.focus ≠ .call (.emit line n)) : Paced line U := by
  have hstepped := State.step?_stepped hstep
  have hwaits := State.step?_sending hsource hitems h.endless hstep haside
  cases h with
  | unborn hnone hclear =>
      rcases hwaits with hsame | hpopped
      · exact .unborn (hemission.trans hnone) (hsame.trans hclear) hnext
      · rw [hclear] at hpopped
        cases hpopped
  | resting hsome hleft hclear hcalm hdone =>
      rcases hwaits with hsame | hpopped
      · exact .resting (hemission.trans hsome) hleft (hsame.trans hclear)
          (hcalm.aside hstepped hnext) hdone
      · rw [hclear] at hpopped
        cases hpopped
  | looping _ _ _ hfocus => exact absurd (.inl ⟨_, hfocus, rfl⟩) (haside S.stack)
  | handing hsome hleft hout hcalm hbusy =>
      rcases hwaits with hsame | hpopped
      · exact .handing (hemission.trans hsome) hleft (hsame.trans hout)
          (hcalm.aside hstepped hnext) hbusy
      · rw [hout] at hpopped
        cases hpopped
  | completing hsome hout hcalm hdetached =>
      rcases hwaits with hsame | hpopped
      · exact .completing (hemission.trans hsome) (hsame.trans hout) (hcalm.aside hstepped hnext)
          hdetached
      · rw [hout] at hpopped
        refine .resting (hemission.trans hsome) (fun _ => hdetached) (List.cons.inj hpopped).2.symm
          (hcalm.aside hstepped hnext) fun hattached => ?_
        exact absurd (hdetached.symm.trans hattached) Bool.false_ne_true

/-- A line that is to be joined to its source has no emission yet. -/
theorem joining (h : Paced line S) {context : Context}
    (hfocus : S.focus = .call (.join line 0 context)) :
    S.emission? line = none ∧ sending line S.stack = [] := by
  cases h with
  | unborn hnone hclear => exact ⟨hnone, hclear⟩
  | resting _ _ _ hcalm => exact absurd hfocus (hcalm.join 0 context)
  | looping _ _ _ hloops => rw [hfocus] at hloops; cases hloops
  | handing _ _ _ hcalm => exact absurd hfocus (hcalm.join 0 context)
  | completing _ _ hcalm => exact absurd hfocus (hcalm.join 0 context)

theorem start (h : Paced line S) {context : Context} {x : α}
    (hfocus : S.focus = .call (.join line 0 context))
    (hemission : U.emission? line = some (.start x)) (hstack : U.stack = S.stack)
    (hnext : U.focus = .call (P.sourceSignal line (.subscribe .emission))) : Paced line U :=
  .resting hemission (fun hcancelled => by cases hcancelled) (hstack ▸ (h.joining hfocus).2)
    (.of_sourceSignal hnext) fun _ => ⟨rfl, by simp [Emission.start]⟩

theorem request (h : Paced line S) {position : Nat} {n : UInt64}
    (hfocus : S.focus = .call (.control line position .emission (.request n))) (hn : n ≠ 0)
    (hbefore : S.emission? line = some e) (hemission : U.emission? line = some (e.request n))
    (hstack : U.stack = S.stack)
    (hnext : U.focus = if e.startsLoop then .call (.emit line 0) else .back true) :
    Paced line U := by
  cases h with
  | unborn hnone => rw [hbefore] at hnone; cases hnone
  | @resting e' hsome hleft hclear hcalm hdone =>
      obtain rfl : e' = e := Option.some.inj (hsome.symm.trans hbefore)
      cases hattached : e'.attached with
      | true =>
          obtain ⟨hrequested, hahead⟩ := hdone hattached
          rw [Emission.startsLoop_of_idle hrequested hattached, if_pos rfl] at hnext
          exact .looping hemission hleft (hstack ▸ hclear) hnext
            (Emission.request_ne_zero (.inr hn)) hahead
      | false =>
          rw [Emission.startsLoop_of_detached hattached, if_neg Bool.false_ne_true] at hnext
          exact .resting hemission hleft (hstack ▸ hclear) (.of_back hnext) fun hstays =>
            absurd (hattached.symm.trans hstays) Bool.false_ne_true
  | looping _ _ _ hloops => rw [hfocus] at hloops; cases hloops
  | @handing e' m hsome hleft hout hcalm hbusy =>
      obtain rfl : e' = e := Option.some.inj (hsome.symm.trans hbefore)
      rw [Emission.startsLoop_of_busy hbusy, if_neg Bool.false_ne_true] at hnext
      exact .handing hemission hleft (hstack ▸ hout) (.of_back hnext)
        (Emission.request_ne_zero (.inl hbusy))
  | @completing e' hsome hout hcalm hdetached =>
      obtain rfl : e' = e := Option.some.inj (hsome.symm.trans hbefore)
      rw [Emission.startsLoop_of_detached hdetached, if_neg Bool.false_ne_true] at hnext
      exact .completing hemission (hstack ▸ hout) (.of_back hnext) hdetached

theorem cancel (h : Paced line S) {position : Nat}
    (hfocus : S.focus = .call (.control line position .emission .cancel))
    (hbefore : S.emission? line = some e) (hemission : U.emission? line = some e.cancel)
    (hstack : U.stack = S.stack) (hnext : U.focus = .back true) : Paced line U := by
  cases h with
  | unborn hnone => rw [hbefore] at hnone; cases hnone
  | resting hsome hleft hclear =>
      exact .resting hemission (fun _ => rfl) (hstack ▸ hclear) (.of_back hnext) fun hstays => by
        cases hstays
  | looping _ _ _ hloops => rw [hfocus] at hloops; cases hloops
  | @handing e' m hsome hleft hout hcalm hbusy =>
      obtain rfl : e' = e := Option.some.inj (hsome.symm.trans hbefore)
      exact .handing hemission (fun _ => rfl) (hstack ▸ hout) (.of_back hnext) hbusy
  | completing hsome hout => exact .completing hemission (hstack ▸ hout) (.of_back hnext) rfl

/-- A step leads from phase to phase. -/
theorem step (h : Paced line S) (hassembled : S.Assembled P)
    (hsource : P.source = .sequence pull) (hitems : pull 0 ≠ none)
    (hstep : S.step? P = some (U, events)) : Paced line U := by
  by_cases hemitting : ∃ rest, S.Emitting line rest
  · obtain ⟨rest, hemitting⟩ := hemitting
    exact h.round hsource hemitting hstep
  · have haside : ∀ rest, ¬S.Emitting line rest := fun rest hrest => hemitting ⟨rest, hrest⟩
    cases State.step?_feeds hassembled hsource (fun rest hrest => absurd hrest (haside rest))
        hstep with
    | aside _ hemission hnext => exact h.aside hsource hitems hstep haside hemission hnext
    | start hfocus hpull hemission hstack hnext => exact h.start hfocus hemission hstack hnext
    | request hfocus hn hbefore hemission hstack hnext =>
        exact h.request hfocus hn hbefore hemission hstack hnext
    | cancel hfocus hbefore hemission hstack hnext =>
        exact h.cancel hfocus hbefore hemission hstack hnext
    | deliver hfocus => exact absurd (.inl ⟨_, hfocus, rfl⟩) (haside S.stack)
    | settle hfocus => exact absurd (.inl ⟨_, hfocus, rfl⟩) (haside S.stack)
    | finish hrest => exact absurd hrest (haside _)
    | goOn hfocus hwaits => exact absurd (.inr ⟨_, _, false, hfocus, hwaits⟩) (haside _)

theorem move {m : Move α ε} (h : Paced line S) (hmove : Moved P S U m) : Paced line U := by
  have hemission : U.emission? line = S.emission? line := State.move_emission? hmove
  have hwaits : sending line U.stack = sending line S.stack := State.move_sending hmove
  obtain ⟨b, hfocus⟩ := State.move_turn hmove
  cases h with
  | unborn hnone hclear =>
      exact .unborn (hemission.trans hnone) (hwaits.trans hclear) (State.move_ne_emit hmove)
  | resting hsome hleft hclear hcalm hdone =>
      exact .resting (hemission.trans hsome) hleft (hwaits.trans hclear)
        (.of_move hmove (State.lt_of_emission? hsome)) hdone
  | looping _ _ _ hloops => rw [hfocus] at hloops; cases hloops
  | handing hsome hleft hout hcalm hbusy =>
      exact .handing (hemission.trans hsome) hleft (hwaits.trans hout)
        (.of_move hmove (State.lt_of_emission? hsome)) hbusy
  | completing hsome hout hcalm hdetached =>
      exact .completing (hemission.trans hsome) (hwaits.trans hout)
        (.of_move hmove (State.lt_of_emission? hsome)) hdetached

theorem of_start (ambient : Context) : Paced line (State.start P ambient) :=
  .unborn rfl rfl (by simp [State.start])

theorem run {history : List (Entry α ε)} (h : Paced line S) (hassembled : S.Assembled P)
    (hsource : P.source = .sequence pull) (hitems : pull 0 ≠ none) (hrun : Run P S history U) :
    Paced line U := by
  induction hrun with
  | refl => exact h
  | step hbefore hstep ih => exact ih.step (hassembled.run hbefore) hsource hitems hstep
  | move hbefore hmove ih => exact ih.move (State.move?_moved hmove)

end Paced

/-! ## After a cancellation -/

/-- The receiver of a line's emission has cancelled, or is just doing so. -/
def State.Renounced (S : State σ α ε) (line : Nat) : Prop :=
  ∃ e, S.emission? line = some e ∧ (e.cancelled = true ∨
    ∃ position, S.focus = .call (.control line position .emission .cancel))

namespace State

theorem step?_renounce {position : Nat}
    (hfocus : S.focus = .call (.control line position .emission .cancel))
    (hbefore : S.emission? line = some e) (hstep : S.step? P = some (U, events)) :
    U.emission? line = some e.cancel ∧ U.focus = .back true := by
  simp only [step?, hfocus, make, control, controlEmission, hbefore, Option.some.injEq,
    Prod.mk.injEq] at hstep
  obtain ⟨rfl, -⟩ := hstep
  exact ⟨setEmission_emission?_self (lt_of_emission? hbefore) _, rfl⟩

namespace Renounced

/-- In the loop nothing is sent to a receiver that has cancelled. -/
theorem round (hsource : P.source = .sequence pull) (hemitting : S.Emitting line rest)
    (hbefore : S.emission? line = some e) (hcancelled : e.cancelled = true)
    (hstep : S.step? P = some (U, events)) :
    U.Renounced line ∧ ∀ s, U.focus ≠ .call (P.sourceSignal line s) := by
  have hmay : e.mayComplete = false := by simp [Emission.mayComplete, hcancelled]
  cases State.step?_rounds hsource hemitting hbefore hstep with
  | leave _ hemission _ hnext => exact ⟨⟨e, hemission, .inl hcancelled⟩, by simp [hnext]⟩
  | complete hmay' => exact absurd (hmay.symm.trans hmay') Bool.false_ne_true
  | settle _ _ hemission _ hnext => exact ⟨⟨_, hemission, .inl hcancelled⟩, by simp [hnext]⟩
  | deliver _ hverdict => grind [Emission.verdict]
  | goOn _ _ hemission _ hnext =>
      refine ⟨⟨e, hemission, .inl hcancelled⟩, fun s hsent => ?_⟩
      exact sourceSignal_ne_emit line s _ (hsent.symm.trans hnext)

/-- Elsewhere nothing is sent on a line that has been joined to its source, and a cancellation
stays. -/
theorem aside (hpaced : Paced line S) (hassembled : S.Assembled P)
    (hsource : P.source = .sequence pull) (haside : ∀ rest, ¬S.Emitting line rest)
    (hbefore : S.emission? line = some e) (hcancelled : e.cancelled = true)
    (hstep : S.step? P = some (U, events)) :
    U.Renounced line ∧ ∀ s, U.focus ≠ .call (P.sourceSignal line s) := by
  -- A line with an emission is not to be joined to its source any more.
  have hjoin : ∀ context, S.focus ≠ .call (.join line 0 context) := by
    intro context hfocus
    rw [(hpaced.joining hfocus).1] at hbefore
    cases hbefore
  have hsilent : ∀ s, U.focus ≠ .call (P.sourceSignal line s) := by
    intro s hsent
    rcases step_sends hassembled hpaced.endless (step?_stepped hstep) hsent with
      ⟨-, context, hfocus⟩ | ⟨f, rest, hrest, -⟩
    · exact hjoin context hfocus
    · exact haside rest hrest
  refine ⟨?_, hsilent⟩
  cases step?_feeds hassembled hsource (fun rest hrest => absurd hrest (haside rest)) hstep with
  | aside _ hemission _ => exact ⟨e, hemission.trans hbefore, .inl hcancelled⟩
  | start hfocus => exact absurd hfocus (hjoin _)
  | request _ _ hbefore' hemission =>
      obtain rfl := Option.some.inj (hbefore.symm.trans hbefore')
      exact ⟨_, hemission, .inl hcancelled⟩
  | cancel _ _ hemission => exact ⟨_, hemission, .inl rfl⟩
  | deliver hfocus => exact absurd (.inl ⟨_, hfocus, rfl⟩) (haside S.stack)
  | settle hfocus => exact absurd (.inl ⟨_, hfocus, rfl⟩) (haside S.stack)
  | finish hrest => exact absurd hrest (haside _)
  | goOn hfocus hwaits => exact absurd (.inr ⟨_, _, false, hfocus, hwaits⟩) (haside _)

/-- Nothing more is sent on a line whose receiver has cancelled. -/
theorem step (h : S.Renounced line) (hpaced : Paced line S) (hassembled : S.Assembled P)
    (hsource : P.source = .sequence pull) (hstep : S.step? P = some (U, events)) :
    U.Renounced line ∧ ∀ s, U.focus ≠ .call (P.sourceSignal line s) := by
  obtain ⟨e, hbefore, hcancelled | ⟨position, hfocus⟩⟩ := h
  · by_cases hemitting : ∃ rest, S.Emitting line rest
    · obtain ⟨rest, hemitting⟩ := hemitting
      exact round hsource hemitting hbefore hcancelled hstep
    · exact aside hpaced hassembled hsource (fun rest hrest => hemitting ⟨rest, hrest⟩) hbefore
        hcancelled hstep
  · obtain ⟨hemission, hnext⟩ := step?_renounce hfocus hbefore hstep
    exact ⟨⟨e.cancel, hemission, .inl rfl⟩, by simp [hnext]⟩

theorem move {m : Move α ε} (h : S.Renounced line) (hmove : Moved P S U m) :
    U.Renounced line := by
  obtain ⟨e, hbefore, hcancels⟩ := h
  refine ⟨e, (move_emission? hmove).trans hbefore, .inl (hcancels.resolve_right ?_)⟩
  rintro ⟨position, hfocus⟩
  obtain ⟨b, hturn⟩ := move_turn hmove
  rw [hfocus] at hturn
  cases hturn

theorem run {history : List (Entry α ε)} (h : S.Renounced line) (hpaced : Paced line S)
    (hassembled : S.Assembled P) (hsource : P.source = .sequence pull) (hitems : pull 0 ≠ none)
    (hrun : Run P S history U) : U.Renounced line := by
  induction hrun with
  | refl => exact h
  | step hbefore hstep ih =>
      exact (ih.step (hpaced.run hassembled hsource hitems hbefore) (hassembled.run hbefore)
        hsource hstep).1
  | move hbefore hmove ih => exact ih.move (move?_moved hmove)

end Renounced

end State

end Wiretap

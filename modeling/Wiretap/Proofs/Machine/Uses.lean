import Wiretap.Proofs.Machine.Requests
import Wiretap.Proofs.Tap.Handles

/-!
# What a tap asks of its handles

The events of a run tell when a receiver uses a handle, but not which one. Here a run is told
together with the uses that one receiver makes of its handles. A tap is loyal in every run, whatever
the outside does: it turns to the first handle with all it has to ask, and each handle that comes
later it cancels in the call that brings it.
-/

namespace Wiretap

variable {K : Kinds} {σ α ε : Type}

namespace State

/-- The use of a handle that comes next at a position. -/
def usage (S : State σ α ε) (line position : Nat) : List (Handle × Control) :=
  match S.focus with
  | .call (.control l p h c) => if l = line ∧ p = position then [(h, c)] else []
  | _ => []

end State

/-- From `S` a run with this history leads to the last state, and in it the receiver at a position
has made these uses of handles. -/
inductive RunUsing (P : Plan σ α ε) (S : State σ α ε) (line position : Nat) :
    List (Entry α ε) → List (Handle × Control) → State σ α ε → Prop
  /-- Nothing happens. -/
  | refl : RunUsing P S line position [] [] S
  /-- The machine makes a step. -/
  | step {history : List (Entry α ε)} {uses : List (Handle × Control)} {T U : State σ α ε}
    {events : List (Event α ε)} :
    RunUsing P S line position history uses T → T.step? P = some (U, events) →
    RunUsing P S line position (history ++ events.map .event) (uses ++ T.usage line position) U
  /-- The outside makes a move. -/
  | move {history : List (Entry α ε)} {uses : List (Handle × Control)} {T U : State σ α ε}
    {m : Move α ε} :
    RunUsing P S line position history uses T → T.move? P m = some U →
    RunUsing P S line position (history ++ [.move m]) uses U

/-- A state in which a run begins: nothing at all has happened, or there is a single tap that has
been set up by hand. -/
inductive State.Begins (P : Plan σ α ε) : State σ α ε → Prop
  /-- There is no line yet. -/
  | start (ambient : Context) : Begins P (.start P ambient)
  /-- There is one line with one tap. -/
  | startTap {p : TapPlan σ α ε} (hplan : P.taps = [p]) (client : Client) (listener : σ)
    (context ambient : Context) : Begins P (.startTap P client listener context ambient)

section

variable {P : Plan σ α ε} {S T U : State σ α ε} {line place position : Nat}
  {before events : List (Event α ε)} {history : List (Entry α ε)} {uses : List (Handle × Control)}

theorem RunUsing.run (h : RunUsing P S line position history uses U) : Run P S history U := by
  induction h with
  | refl => exact .refl
  | step _ hstep ih => exact ih.step hstep
  | move _ hmove ih => exact ih.move hmove

/-- Every run can be told with the uses of handles. -/
theorem Run.using (h : Run P S history U) (line position : Nat) :
    ∃ uses, RunUsing P S line position history uses U := by
  induction h with
  | refl => exact ⟨[], .refl⟩
  | step _ hstep ih =>
      obtain ⟨uses, ih⟩ := ih
      exact ⟨_, ih.step hstep⟩
  | move _ hmove ih =>
      obtain ⟨uses, ih⟩ := ih
      exact ⟨uses, ih.move hmove⟩

namespace State

namespace Begins

theorem assembled (h : S.Begins P) : S.Assembled P := by
  cases h with
  | start ambient => exact .start ambient
  | startTap hplan client listener context ambient =>
      exact .startTap hplan client listener context ambient

theorem peopled {manners : Nat → Tap.Life.Manners σ α ε} (h : S.Begins P) :
    S.Peopled P manners [] := by
  cases h with
  | start ambient => exact .start ambient
  | startTap hplan client listener context ambient =>
      exact .startTap hplan client listener context ambient

theorem usage (h : S.Begins P) (line position : Nat) : S.usage line position = [] := by
  cases h <;> rfl

/-- In a run from here every tap has lived, whatever the outside does. -/
theorem lives (h : S.Begins P) (hrun : Run P S history U) :
    U.Peopled P (fun _ => .any) (happened history) := by
  have hlives := h.peopled.run h.assembled hrun
  rwa [List.nil_append] at hlives

end Begins

/-! ## What comes next -/

theorem usage_map_snd (S : State σ α ε) (line position : Nat) :
    (S.usage line position).map Prod.snd = S.due line position := by
  unfold usage due
  cases S.focus with
  | call c =>
      cases c with
      | control l p h c =>
          dsimp only
          split <;> rfl
      | _ => rfl
  | _ => rfl

theorem usage_of_due (h : S.due line position = []) : S.usage line position = [] := by
  rw [← usage_map_snd] at h
  exact List.map_eq_nil_iff.mp h

theorem usage_of_turned {rest : List (Frame α ε)} {turn : Tap.Turn σ α ε}
    (hturned : Turned P S rest line place turn U) : U.usage line place = turn.next.usage := by
  have hnext := hturned.next
  cases hturn : turn.next with
  | answer b =>
      rw [hturn] at hnext
      exact usage_of_due (due_of_back hnext.2)
  | down s r =>
      rw [hturn] at hnext
      exact usage_of_due (due_of_signal hnext.2)
  | up h c r =>
      rw [hturn] at hnext
      simp [usage, hnext.2, Tap.Next.usage]

/-! ## A handle that comes too late -/

section

variable {p : TapPlan σ α ε} {t : Tap σ} {first h : Handle}

/-- A tap that has a handle cancels another one before anything else can happen: it runs no hook,
sends nothing and stays as it is. -/
theorem step?_late (hplan : P.taps[place]? = some p) (htap : S.tap? line place = some t)
    (hsource : t.source = some first) (hfocus : S.focus = .call (.tap line place (.subscribe h))) :
    ∃ inside guard, guard.release inside = S.ambient ∧
      S.step? P = some ({ S with
        ambient := inside
        stack := .tap line place guard .ignored :: S.stack
        focus := .call (.control line place h .cancel) },
        [.received line place (.signal (.subscribe h)), .entered line place inside]) := by
  have hsame := setTap_self
    (S := { S with ambient := (p.scope.install t.context S.ambient).1 }) htap
  have hserve :=
    Tap.serve_late (p.listener (S.inside p t)) (.tap place) (S.isConditional line) hsource h
  refine ⟨(p.scope.install t.context S.ambient).1, (p.scope.install t.context S.ambient).2,
    Scope.release_install _ _ _, ?_⟩
  rw [step?, hfocus]
  simp only [make, callTap, hplan, htap, hserve, settle, hsame]
  rfl

/-- When it has been cancelled, the tap notes that it has ignored a handle, and returns. -/
theorem step?_ignored (hplan : P.taps[place]? = some p) (htap : S.tap? line place = some t)
    {b : Bool} {guard : Guard} {rest : List (Frame α ε)} (hfocus : S.focus = .back b)
    (hstack : S.stack = .tap line place guard .ignored :: rest) :
    S.step? P = some ({ S with
      ambient := guard.release S.ambient
      stack := rest
      focus := .back true },
      [.acted line place S.ambient .ignoredHandle, .left line place (guard.release S.ambient),
        .returned line place true]) := by
  have hthere : ({ S with stack := rest, focus := .back b } : State σ α ε).tap? line place =
      some t := htap
  have hsame := setTap_self hthere
  rw [step?, hfocus, hstack]
  simp only [resume, resumeTap, hplan, hthere, Tap.resume, Tap.finish, Tap.reply, Tap.Turn.after,
    settle, hsame]
  rfl

end

/-! ## The tap is loyal -/

namespace Peopled

variable {manners : Nat → Tap.Life.Manners σ α ε}

/-- The tap that has been given a handle is there. -/
theorem handled (h : S.Peopled P manners before)
    (hgiven : Tap.handles (deeds line place before) ≠ []) :
    ∃ p t first, P.taps[place]? = some p ∧ S.tap? line place = some t ∧ t.source = some first := by
  rcases h.fate line place with ⟨-, -, hdeeds⟩ | ⟨-, -, -, hfails, hdeeds⟩ | ⟨hplan, htap, hlived⟩
  · rw [hdeeds] at hgiven
    exact absurd rfl hgiven
  · rw [hdeeds] at hgiven
    cases hfails <;> exact absurd rfl hgiven
  · obtain ⟨first, later, hcons⟩ := List.exists_cons_of_ne_nil hgiven
    refine ⟨_, _, first, hplan, htap, hlived.source_eq.trans ?_⟩
    rw [← Tap.head?_handles, hcons]
    rfl

/-- Unless it is given another handle than its first one, a tap asks nothing of any other. -/
theorem step_usage (h : S.Peopled P manners before) (hstep : Stepped P S U events)
    (htimely : Tap.handles (deeds line place before) = [] ∨
      ∀ extra, S.focus ≠ .call (.tap line place (.subscribe extra)))
    {u : Handle × Control} (hu : u ∈ U.usage line place) :
    (Tap.handles (deeds line place (before ++ events))).head? = some u.1 := by
  have hdue : U.due line place ≠ [] := by
    rw [← usage_map_snd]
    exact List.ne_nil_of_mem (List.mem_map_of_mem hu)
  obtain ⟨p, t, hplan, htap, hacts⟩ := acts_of_due hstep hdue
  have hsource := (h.source_eq htap).trans (Tap.head?_handles _).symm
  have hkept : ∀ events, t.source = some u.1 →
      (Tap.handles (deeds line place (before ++ events))).head? = some u.1 := by
    intro events hsome
    rw [deeds_append, Tap.handles_append, List.head?_append, ← hsource, hsome, Option.some_or]
  cases hacts with
  | @serve c input hfocus hinput hturned hdeeds =>
      rw [usage_of_turned hturned] at hu
      by_cases hbrings : ∃ extra, input = .signal (.subscribe extra)
      · obtain ⟨extra, rfl⟩ := hbrings
        have hcall : S.focus = .call (.tap line place (.subscribe extra)) := by
          rw [hfocus]
          cases c with
          | tap l q s =>
              cases hinput
              rfl
          | control l q handle c => cases handle <;> cases hinput
          | _ => cases hinput
        have hnone : Tap.handles (deeds line place before) = [] :=
          htimely.resolve_right fun hnot => hnot extra hcall
        rw [hnone] at hsource
        have hfirst := Tap.serve_usage_first (p.listener _) _ _ _ hsource hu
        cases hfirst
        rw [deeds_append, Tap.handles_append, hnone, hdeeds]
        rfl
      · have hgiven : ∀ extra, input = .signal (.subscribe extra) → _ :=
          fun extra heq => hbrings ⟨extra, heq⟩
        exact hkept _ (Tap.serve_usage (p.listener _) _ _ hgiven hu)
  | resume hfocus hstack hturned hdeeds =>
      rw [usage_of_turned hturned] at hu
      exact hkept _ (Tap.resume_usage (p.listener _) _ _ hu)

/-- In a step a tap stays loyal. -/
theorem loyal (h : S.Peopled P manners before) (hassembled : S.Assembled P)
    (hstep : Stepped P S U events)
    (hloyal : Tap.Loyal (Tap.handles (deeds line place before)) uses) :
    Tap.Loyal (Tap.handles (deeds line place (before ++ events)))
      (uses ++ U.usage line place) := by
  have hrest : Tap.handles (deeds line place events) = [] → U.due line place = [] →
      Tap.Loyal (Tap.handles (deeds line place (before ++ events)))
        (uses ++ U.usage line place) := by
    intro hnone hdue
    rw [deeds_append, Tap.handles_append, hnone, List.append_nil, usage_of_due hdue,
      List.append_nil]
    exact hloyal
  by_cases hunseen : deeds line place events = []
  · exact hrest (by rw [hunseen]; rfl) (step_due hstep fun _ => hunseen)
  cases hthen : S.tap? line place with
  | none =>
      -- Setting up a tap brings no handle, whether or not it succeeds.
      refine hrest ?_ (due_of_vacant hstep hthen)
      cases step_progress hassembled hstep line place with
      | same htap hpending hnothing => exact absurd hnothing hunseen
      | turn hplan htap =>
          rw [hthen] at htap
          cases htap
      | born hfocus hplan hnow hpending hdeeds =>
          rw [hdeeds]
          rfl
      | stillborn hfocus htap hpending hfails hdeeds =>
          rw [hdeeds]
          cases hfails <;> rfl
  | some t =>
      obtain ⟨p, hplan⟩ := hassembled.planned (by rw [hthen]; rfl)
      have hsource := (h.source_eq hthen).trans (Tap.head?_handles _).symm
      cases step_acts hassembled hstep hplan hthen hunseen with
      | @serve c input hfocus hinput hturned hdeeds =>
          have hserved := hloyal.serve (p.listener (S.inside p t)) hsource (.tap place)
            (S.isConditional line) input
          rw [usage_of_turned hturned, deeds_append, hdeeds, Tap.handles_append,
            ← List.singleton_append, Tap.handles_append, Tap.handles_turn_deeds, List.append_nil]
          exact hserved
      | @resume b guard r rest hfocus hstack hturned hdeeds =>
          rw [usage_of_turned hturned, deeds_append, hdeeds, Tap.handles_append,
            Tap.handles_turn_deeds, List.append_nil]
          exact hloyal.resume (p.listener S.ambient) hsource r b

end Peopled

end State

/-- In every run a tap is loyal. -/
theorem RunUsing.loyal (hbegins : S.Begins P) (hplace : place < P.depth)
    (h : RunUsing P S line place history uses U) :
    Tap.Loyal (Tap.handles (deeds line place (happened history)))
      (uses ++ U.usage line place) := by
  induction h with
  | refl =>
      rw [hbegins.usage]
      exact .nil
  | @step history uses T U events hbefore hstep ih =>
      rw [happened_append, happened_map_event]
      exact (hbegins.lives hbefore.run).loyal (hbegins.assembled.run hbefore.run)
        (State.step?_stepped hstep) ih
  | @move history uses T U m hbefore hmove ih =>
      -- Between two steps no tap uses a handle.
      obtain ⟨b, hturn⟩ := State.move_turn (State.move?_moved hmove)
      rw [State.usage_of_due (State.due_of_outside hturn)] at ih
      rw [happened_append, happened_move, List.append_nil,
        State.usage_of_due (State.move_due (State.move?_moved hmove) hplace)]
      exact ih

end

end Wiretap

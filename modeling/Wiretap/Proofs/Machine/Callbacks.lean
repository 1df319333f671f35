import Wiretap.Proofs.Machine.Play

/-!
# Calls to the outside

A step calls the outside once at most. Then it does nothing else: the call waits on the stack, and
the outside has the turn. So whatever the outside is told in a run, it is told at a moment when that
is all that the machine is about to do.
-/

namespace Wiretap

variable {K : Kinds} {σ α ε : Type}

/-- An element of two lists in a row is one of the first or of the second. -/
theorem append_eq_append_cons {β : Type} {xs ys before later : List β} {x : β}
    (h : xs ++ ys = before ++ x :: later) :
    (∃ middle, xs = before ++ x :: middle) ∨ ∃ first, before = xs ++ first ∧
      ys = first ++ x :: later := by
  rcases List.append_eq_append_iff.mp h with ⟨first, hbefore, hys⟩ | ⟨last, hxs, hlast⟩
  · exact .inr ⟨first, hbefore, hys⟩
  · cases last with
    | nil =>
        refine .inr ⟨[], ?_, hlast.symm⟩
        rw [List.append_nil]
        rw [List.append_nil] at hxs
        exact hxs.symm
    | cons y last =>
        rw [List.cons_append, List.cons.injEq] at hlast
        obtain ⟨rfl, -⟩ := hlast
        exact .inl ⟨last, hxs⟩

/-- The call to the outside that the event is, with the ambient context. -/
def Event.called? : Event α ε → Option (Callback α ε × Context)
  | .called c ambient => some (c, ambient)
  | _ => none

/-- The calls to the outside in events. -/
def called (events : List (Event α ε)) : List (Callback α ε × Context) :=
  events.filterMap Event.called?

/-- The callback in progress, if the frame is one. -/
def Frame.callback? : Frame α ε → Option (Callback α ε)
  | .outside c => some c
  | _ => none

@[simp] theorem called_nil : called ([] : List (Event α ε)) = [] := rfl

@[simp] theorem called_append (first second : List (Event α ε)) :
    called (first ++ second) = called first ++ called second := List.filterMap_append

@[simp] theorem called_cons (e : Event α ε) (events : List (Event α ε)) :
    called (e :: events) = e.called?.toList ++ called events := Tap.filterMap_cons_toList _ _ _

@[simp] theorem called_acted (line place : Nat) (ambient : Context) (acts : List (Tap.Act α ε)) :
    called (acts.map (Event.acted line place ambient)) = [] := by
  induction acts with
  | nil => rfl
  | cons act acts ih => simpa [Event.called?] using ih

namespace State

variable {P : Plan σ α ε} {S U : State σ α ε} {events : List (Event α ε)}

/-- The callbacks in progress, the innermost one first. -/
def callbacks (S : State σ α ε) : List (Callback α ε) := S.stack.filterMap Frame.callback?

/-- The outside is not called, and no callback is over. -/
def Keeps (S : State σ α ε) (o : Outcome σ α ε) : Prop :=
  called o.2 = [] ∧ o.1.callbacks = S.callbacks

/-- The outside is called from `S`. -/
structure Rings (S : State σ α ε) (c : Callback α ε) (o : Outcome σ α ε) : Prop where
  called : called o.2 = [(c, S.ambient)]
  stack : o.1.stack = .outside c :: S.stack
  ambient : o.1.ambient = S.ambient
  focus : o.1.focus = .outside true

theorem settle_keeps (line place : Nat) (guard : Guard) (turn : Tap.Turn σ α ε) :
    S.Keeps (settle P S line place guard turn) := by
  unfold settle
  cases turn.next with
  | answer b => exact ⟨by simp [Event.called?], rfl⟩
  | down s r => exact ⟨by simp [Event.called?], rfl⟩
  | up h c r => exact ⟨by simp, rfl⟩

theorem callTap_keeps (line place : Nat) (input : Tap.Input α ε) :
    S.Keeps (callTap P S line place input) := by
  unfold callTap
  split
  next p t hplan htap =>
    obtain ⟨hcalled, hcallbacks⟩ := settle_keeps (P := P)
      (S := { S with ambient := (p.scope.install t.context S.ambient).1 }) line place
      (p.scope.install t.context S.ambient).2 (S.served p t line place input)
    exact ⟨by simpa [Event.called?] using hcalled, hcallbacks⟩
  next => exact ⟨rfl, rfl⟩

theorem resumeTap_keeps (line place : Nat) (guard : Guard) (r : Tap.Resume α ε) (b : Bool) :
    S.Keeps (resumeTap P S line place guard r b) := by
  unfold resumeTap
  split
  · exact settle_keeps line place guard _
  · exact ⟨rfl, rfl⟩

theorem setUpTap_keeps (line place : Nat) (context : Context) :
    S.Keeps (setUpTap P S line place context) := by
  unfold setUpTap
  split
  · exact ⟨rfl, rfl⟩
  · dsimp only
    split
    · exact ⟨rfl, rfl⟩
    · split <;> exact ⟨by simp [refuse, Event.called?], rfl⟩

/-- The first receiver of a line is joined to the source, which is outside if it is driven. -/
theorem joinSource_rings (line : Nat) :
    S.Keeps (joinSource P S line) ∨ S.Rings (.source line) (joinSource P S line) := by
  unfold joinSource
  split
  · exact .inl ⟨rfl, rfl⟩
  · exact .inl ⟨rfl, rfl⟩
  · exact .inr ⟨rfl, rfl, rfl, rfl⟩
  · split <;> exact .inl ⟨rfl, rfl⟩

theorem controlEmission_keeps (line : Nat) (c : Control) :
    S.Keeps (controlEmission S line c) := by
  unfold controlEmission
  split
  · split
    · dsimp only
      split <;> exact ⟨rfl, rfl⟩
    · exact ⟨rfl, rfl⟩
  · exact ⟨rfl, rfl⟩
  · exact ⟨rfl, rfl⟩

theorem completeEmission_callbacks (line : Nat) (e : Emission α) :
    (completeEmission P S line e).callbacks = S.callbacks := by
  unfold completeEmission
  split <;> rfl

theorem emit_keeps (line : Nat) (emitted : UInt64) : S.Keeps (emit P S line emitted) := by
  unfold emit
  split
  · split
    · exact ⟨rfl, rfl⟩
    · dsimp only
      split <;> exact ⟨rfl, rfl⟩
    · split
      · exact ⟨rfl, completeEmission_callbacks line _⟩
      · exact ⟨rfl, rfl⟩
  · exact ⟨rfl, rfl⟩

theorem resumeEmission_callbacks (line : Nat) (emitted : UInt64) (last b : Bool) :
    (resumeEmission P S line emitted last b).callbacks = S.callbacks := by
  unfold resumeEmission
  split
  · exact completeEmission_callbacks line _
  · rfl
  · rfl

theorem resume_keeps {rest : List (Frame α ε)} {f : Frame α ε} (b : Bool)
    (hstack : S.stack = f :: rest) : S.Keeps (resume P { S with stack := rest } b f) := by
  have hrest : f.callback? = none → ({ S with stack := rest } : State σ α ε).callbacks =
      S.callbacks := by
    intro hf
    rw [callbacks, callbacks, hstack, List.filterMap_cons_none hf]
  cases f with
  | tap line place guard r =>
      obtain ⟨hcalled, hcallbacks⟩ := resumeTap_keeps (P := P) (S := { S with stack := rest })
        line place guard r b
      exact ⟨hcalled, hcallbacks.trans (hrest rfl)⟩
  | emitting line n last =>
      exact ⟨rfl, (resumeEmission_callbacks line n last b).trans (hrest rfl)⟩
  | outside c =>
      refine ⟨rfl, ?_⟩
      rw [callbacks, callbacks, hstack]
      rfl
  | _ => exact ⟨rfl, hrest rfl⟩

/-- A step calls the outside, or it does not and no callback is over. A client is called in a step
that does nothing else. -/
theorem step?_rings (hstep : S.step? P = some (U, events)) :
    S.Keeps (U, events) ∨ ∃ c, S.Rings c (U, events) ∧ ∀ line s, c = .client line s →
      S.focus = .call (.client line s) ∧ events = [.called (.client line s) S.ambient] := by
  unfold step? at hstep
  split at hstep
  · cases hstep
  next call hfocus =>
    obtain ⟨rfl, rfl⟩ := Prod.mk.inj (Option.some.inj hstep)
    cases call with
    | join line position context =>
        cases position with
        | zero =>
            rcases joinSource_rings (P := P) (S := S) line with hkeeps | hrings
            · exact .inl ⟨by simpa [make, join, Event.called?] using hkeeps.1, hkeeps.2⟩
            · refine .inr ⟨.source line, ⟨?_, hrings.stack, hrings.ambient, hrings.focus⟩, ?_⟩
              · simpa [make, join, Event.called?] using hrings.called
              · exact fun l s heq => by cases heq
        | succ place =>
            obtain ⟨hcalled, hcallbacks⟩ := setUpTap_keeps (P := P) (S := S) line place context
            exact .inl ⟨by simpa [make, join, Event.called?] using hcalled, hcallbacks⟩
    | tap line place s => exact .inl (callTap_keeps line place _)
    | client line s =>
        refine .inr ⟨.client line s, ⟨rfl, rfl, rfl, rfl⟩, ?_⟩
        rintro l s' heq
        cases heq
        exact ⟨hfocus, rfl⟩
    | control line position h c =>
        cases h with
        | empty => exact .inl ⟨rfl, rfl⟩
        | emission =>
            obtain ⟨hcalled, hcallbacks⟩ := controlEmission_keeps (S := S) line c
            exact .inl ⟨by simpa [make, control, Event.called?] using hcalled, hcallbacks⟩
        | tap place =>
            obtain ⟨hcalled, hcallbacks⟩ := callTap_keeps (P := P) (S := S) line place (.control c)
            exact .inl ⟨by simpa [make, control, Event.called?] using hcalled, hcallbacks⟩
        | external id =>
            exact .inr ⟨.handle id c, ⟨rfl, rfl, rfl, rfl⟩, fun l s heq => by cases heq⟩
    | emit line n => exact .inl (emit_keeps line n)
  next b hfocus =>
    split at hstep
    next hstack =>
      cases hstep
      exact .inl ⟨rfl, rfl⟩
    next f rest hstack =>
      obtain ⟨rfl, rfl⟩ := Prod.mk.inj (Option.some.inj hstep)
      exact .inl (resume_keeps b hstack)

/-- A call of a tap does not call the outside. -/
theorem step?_silent_of_input {c : Call α ε} {called? : Nat × Nat × Tap.Input α ε}
    (hstep : S.step? P = some (U, events)) (hfocus : S.focus = .call c)
    (hinput : c.input? = some called?) : called events = [] := by
  rw [step?, hfocus] at hstep
  obtain ⟨rfl, rfl⟩ := Prod.mk.inj (Option.some.inj hstep)
  cases c with
  | tap line place s => exact (callTap_keeps line place _).1
  | control line position h c =>
      cases h with
      | tap place =>
          have hcalled := (callTap_keeps (P := P) (S := S) line place (.control c)).1
          simpa [make, control, Event.called?] using hcalled
      | _ => cases hinput
  | _ => cases hinput

/-- No return calls the outside. -/
theorem step?_silent_of_back {b : Bool} (hstep : S.step? P = some (U, events))
    (hfocus : S.focus = .back b) : called events = [] := by
  rw [step?, hfocus] at hstep
  dsimp only at hstep
  split at hstep
  · cases hstep
    rfl
  next f rest hstack =>
    obtain ⟨rfl, rfl⟩ := Prod.mk.inj (Option.some.inj hstep)
    exact (resume_keeps b hstack).1

theorem step?_tells {line : Nat} {s : Signal α (TapError ε)} {ambient : Context}
    (hstep : S.step? P = some (U, events))
    (hcalled : .called (.client line s) ambient ∈ events) :
    S.focus = .call (.client line s) ∧ S.ambient = ambient ∧
      events = [.called (.client line s) ambient] := by
  have hmem : (.client line s, ambient) ∈ called events :=
    List.mem_filterMap.mpr ⟨_, hcalled, rfl⟩
  rcases step?_rings hstep with ⟨hnone, -⟩ | ⟨c, hrings, hclient⟩
  · have hnone : called events = [] := hnone
    rw [hnone] at hmem
    cases hmem
  · have hone : called events = [(c, S.ambient)] := hrings.called
    rw [hone, List.mem_singleton, Prod.mk.injEq] at hmem
    obtain ⟨rfl, rfl⟩ := hmem
    obtain ⟨hfocus, hevents⟩ := hclient line s rfl
    exact ⟨hfocus, rfl, hevents⟩

/-- After a step, either a client has been told something before, or in this step. -/
theorem step?_telling {line : Nat} {s : Signal α (TapError ε)} {ambient : Context}
    {past before later : List (Event α ε)} (hstep : S.step? P = some (U, events))
    (hsplit : past ++ events = before ++ .called (.client line s) ambient :: later) :
    (∃ middle, past = before ++ .called (.client line s) ambient :: middle) ∨
      before = past ∧ S.focus = .call (.client line s) ∧ S.ambient = ambient := by
  rcases append_eq_append_cons hsplit with hbefore | ⟨first, rfl, hevents⟩
  · exact .inl hbefore
  · have hmem : .called (.client line s) ambient ∈ events := by simp [hevents]
    obtain ⟨hfocus, hambient, honly⟩ := step?_tells hstep hmem
    have hfirst : first = [] := by
      have hlength := congrArg List.length (honly.symm.trans hevents)
      simp only [List.length_cons, List.length_append, List.length_nil] at hlength
      exact List.length_eq_zero_iff.mp (by omega)
    exact .inr ⟨by rw [hfirst, List.append_nil], hfocus, hambient⟩

end State

variable {P : Plan σ α ε} {S U : State σ α ε} {history : List (Entry α ε)}
  {before later : List (Event α ε)} {line : Nat} {s : Signal α (TapError ε)} {ambient : Context}

/-- When a client is told something in a run, the machine was just about to tell it. -/
theorem Run.telling (hrun : Run P S history U)
    (hsplit : happened history = before ++ .called (.client line s) ambient :: later) :
    ∃ first T, Run P S first T ∧ happened first = before ∧ T.focus = .call (.client line s) ∧
      T.ambient = ambient := by
  induction hrun generalizing later with
  | refl => simp at hsplit
  | step hrun hstep ih =>
      rw [happened_append, happened_map_event] at hsplit
      rcases State.step?_telling hstep hsplit with ⟨middle, hpast⟩ | ⟨rfl, hfocus, hambient⟩
      · exact ih hpast
      · exact ⟨_, _, hrun, rfl, hfocus, hambient⟩
  | move hrun hmove ih =>
      rw [happened_append, happened_move, List.append_nil] at hsplit
      exact ih hsplit

end Wiretap

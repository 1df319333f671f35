import Wiretap.Proofs.Machine.Callbacks
import Wiretap.Proofs.Machine.Mail
import Wiretap.Proofs.Tap.Context

/-!
# The ambient context in a step

A tap that is called installs its scope, and releases it when it is done. Between the two it may
wait for calls of its own, with its guard on the stack. So a step leaves the ambient context as it
was, or puts one frame on the stack which will take back what the step has installed; and a tap that
does anything in a step finds what its scope derives from its context.
-/

namespace Wiretap

variable {K : Kinds} {σ α ε : Type}

/-- The ambient context once the frame has returned, if nothing else has changed it. -/
def Frame.release : Frame α ε → Context → Context
  | .tap _ _ guard _, ambient => guard.release ambient
  | .joining _ _ guard, ambient => guard.release ambient
  | _, ambient => ambient

/-- Is it something that a tap does when it is called, and not part of its set-up? -/
def Tap.Act.isWork : Tap.Act α ε → Bool
  | .ran .first _ | .augmented _ => false
  | _ => true

namespace State

variable {P : Plan σ α ε} {S T U : State σ α ε} {line place : Nat} {events : List (Event α ε)}

/-- If the tap at a place is there and its scope derives a context, it is this one. -/
def Fits (P : Plan σ α ε) (S : State σ α ε) (line place : Nat) (ambient : Context) : Prop :=
  ∀ p t derived, P.taps[place]? = some p → S.tap? line place = some t →
    p.scope.derive? t.context = some derived → ambient = derived

/-- The frame of a tap waits with what fits the tap. -/
def FrameFits (P : Plan σ α ε) (S : State σ α ε) (f : Frame α ε) (ambient : Context) : Prop :=
  ∀ line place guard r, f = .tap line place guard r → S.Fits P line place ambient

/-- A tap at work finds what fits it. -/
def WorkFits (P : Plan σ α ε) (S : State σ α ε) (events : List (Event α ε)) : Prop :=
  ∀ line place ambient act, .acted line place ambient act ∈ events → act.isWork = true →
    S.Fits P line place ambient

/-- Above the frames `base` there is at most one frame, and once it has returned the ambient context
is this one. -/
inductive Covers (P : Plan σ α ε) (U : State σ α ε) (base : List (Frame α ε)) (ambient : Context) :
    Prop
  | bare (hstack : U.stack = base) (hambient : U.ambient = ambient)
  | frame {f : Frame α ε} (hstack : U.stack = f :: base)
    (hambient : f.release U.ambient = ambient) (hfits : U.FrameFits P f U.ambient)

/-- What fits a tap fits it as long as its context stays. -/
theorem Fits.of_tap {t u : Tap σ} {ambient : Context} (h : S.Fits P line place ambient)
    (htap : S.tap? line place = some t) (hnow : U.tap? line place = some u)
    (hcontext : u.context = t.context) : U.Fits P line place ambient := by
  intro p u' derived hplan hu' hderived
  rw [hnow, Option.some.injEq] at hu'
  subst hu'
  rw [hcontext] at hderived
  exact h p t derived hplan htap hderived

theorem fits_install {p : TapPlan σ α ε} {t : Tap σ} (hplan : P.taps[place]? = some p)
    (htap : S.tap? line place = some t) (ambient : Context) :
    S.Fits P line place (p.scope.install t.context ambient).1 := by
  intro p' t' derived hplan' htap' hderived
  rw [hplan, Option.some.injEq] at hplan'
  rw [htap, Option.some.injEq] at htap'
  subst hplan' htap'
  rw [Scope.install, hderived]

theorem workFits_nil : S.WorkFits P [] := fun _ _ _ _ hact => (List.not_mem_nil hact).elim

/-- An event that is no work. -/
theorem WorkFits.cons {e : Event α ε} (he : ∀ l p ambient act, e ≠ .acted l p ambient act)
    (h : S.WorkFits P events) : S.WorkFits P (e :: events) := by
  intro l p ambient act hmem
  rcases List.mem_cons.mp hmem with heq | hmem
  · exact absurd heq.symm (he l p ambient act)
  · exact h l p ambient act hmem

theorem WorkFits.append {later : List (Event α ε)} (h : S.WorkFits P events)
    (hlater : S.WorkFits P later) : S.WorkFits P (events ++ later) := by
  intro l p ambient act hmem
  rcases List.mem_append.mp hmem with hmem | hmem
  · exact h l p ambient act hmem
  · exact hlater l p ambient act hmem

theorem Fits.works {ambient : Context} (h : S.Fits P line place ambient)
    (acts : List (Tap.Act α ε)) : S.WorkFits P (acts.map (.acted line place ambient)) := by
  intro l p ambient' act hmem _
  obtain ⟨act', -, heq⟩ := List.mem_map.mp hmem
  cases heq
  exact h

/-! ## One step -/

/-- A tap takes a turn under a guard. -/
theorem settle_covers {t : Tap σ} {turn : Tap.Turn σ α ε} (guard : Guard)
    (htap : S.tap? line place = some t) (hcontext : turn.tap.context = t.context)
    (hfits : S.Fits P line place S.ambient) :
    Covers P (settle P S line place guard turn).1 S.stack (guard.release S.ambient) ∧
      WorkFits P (settle P S line place guard turn).1 (settle P S line place guard turn).2 := by
  have hlines := (settle_turned (P := P) (S := S) (T := S) line place guard turn rfl).lines
  have hnow : (settle P S line place guard turn).1.tap? line place = some turn.tap := by
    rw [tap?_eq hlines]
    exact setTap_tap?_self (hasPlace_of_tap? (by simp [htap])) turn.tap
  have hthen : (settle P S line place guard turn).1.Fits P line place S.ambient :=
    hfits.of_tap htap hnow hcontext
  have hacts := hthen.works turn.acts
  revert hthen hacts
  unfold settle
  cases turn.next with
  | answer b =>
      intro _ hacts
      refine ⟨.bare rfl rfl, hacts.append ?_⟩
      exact .cons nofun (.cons nofun workFits_nil)
  | down s r =>
      intro hthen hacts
      refine ⟨.frame rfl rfl ?_, hacts.append (.cons nofun workFits_nil)⟩
      rintro l p g r' ⟨⟩
      exact hthen
  | up h c r =>
      intro hthen hacts
      refine ⟨.frame rfl rfl ?_, hacts⟩
      rintro l p g r' ⟨⟩
      exact hthen

theorem callTap_covers (input : Tap.Input α ε) :
    Covers P (callTap P S line place input).1 S.stack S.ambient ∧
      WorkFits P (callTap P S line place input).1 (callTap P S line place input).2 := by
  unfold callTap
  split
  next p t hplan htap =>
    obtain ⟨hcovers, hworks⟩ := settle_covers
      (S := { S with ambient := (p.scope.install t.context S.ambient).1 })
      (p.scope.install t.context S.ambient).2 htap
      (t.serve_context (p.listener _) (.tap place) (S.isConditional line) input)
      (fits_install hplan htap S.ambient)
    rw [Scope.release_install] at hcovers
    exact ⟨hcovers, .cons nofun (.cons nofun hworks)⟩
  next => exact ⟨.bare rfl rfl, workFits_nil⟩

/-- Setting up a tap, with the number of the listener that is created. -/
inductive SettingUp (P : Plan σ α ε) (S : State σ α ε) (line place : Nat) (context : Context)
    (nth : Nat) (U : State σ α ε) (events : List (Event α ε)) : Prop
  /-- It fails. -/
  | refused {f : Fault} (failure : Option Cause) (acts : List (Tap.Act α ε))
    (hlines : U.lines = S.lines)
    (hstack : U.stack = .refusing line (place + 1) f :: S.stack)
    (hambient : U.ambient = S.ambient)
    (hfocus : U.focus = .call (P.signal line (place + 1) (.subscribe .empty)))
    (hevents : events = .created line place nth S.ambient context failure ::
      acts.map (.acted line place S.ambient) ++ [.notSetUp line place f])
  /-- It succeeds, and the scope is installed. -/
  | done {p : TapPlan σ α ε} {listener : σ} {t : Tap σ} (hplan : P.taps[place]? = some p)
    (hcreate : p.create S.ambient nth context = .ok listener)
    (hsetUp : Tap.setUp (p.listener S.ambient) listener context =
      ([.ran .first none, .augmented none], .ok t))
    (hlines : U.lines = (S.setTap line place t).lines)
    (hstack : U.stack =
      .joining line place (p.scope.install t.context S.ambient).2 :: S.stack)
    (hambient : U.ambient = (p.scope.install t.context S.ambient).1)
    (hfocus : U.focus = .call (.join line place t.context))
    (hevents : events = [.created line place nth S.ambient context none,
      .acted line place S.ambient (.ran .first none), .acted line place S.ambient (.augmented none),
      .entered line place (p.scope.install t.context S.ambient).1])

theorem setUpTap_settingUp {p : TapPlan σ α ε} (hplan : P.taps[place]? = some p) (line : Nat)
    (context : Context) :
    ∃ nth, SettingUp P S line place context nth (setUpTap P S line place context).1
      (setUpTap P S line place context).2 := by
  refine ⟨S.created[place]?.getD 0 + 1, ?_⟩
  simp only [setUpTap, hplan]
  split
  next cause hcreate =>
    exact .refused (some cause) [] rfl rfl rfl rfl rfl
  next listener hcreate =>
    rcases setUp_cases (p.listener S.ambient) listener context with
      ⟨acts, f, hsetUp, -⟩ | ⟨listener', augmented, hsetUp⟩
    · rw [hsetUp]
      exact .refused none acts rfl rfl rfl rfl rfl
    · rw [hsetUp]
      exact .done hplan hcreate hsetUp rfl rfl rfl rfl rfl

/-- A tap that cannot be set up tells its listener of the fault, but it is not there. -/
theorem SettingUp.covers {context : Context} {nth : Nat}
    (h : SettingUp P S line place context nth U events) (hvacant : S.tap? line place = none) :
    Covers P U S.stack S.ambient ∧ WorkFits P U events := by
  cases h with
  | refused failure acts hlines hstack hambient hfocus hevents =>
      refine ⟨.frame hstack hambient nofun, ?_⟩
      intro l p ambient act hact _ p' t derived _ ht _
      rw [hevents] at hact
      simp at hact
      obtain ⟨-, rfl, rfl, -⟩ := hact
      rw [tap?_eq hlines, hvacant] at ht
      cases ht
  | done hplan hcreate hsetUp hlines hstack hambient hfocus hevents =>
      refine ⟨.frame hstack ?_ nofun, ?_⟩
      · rw [hambient]
        exact Scope.release_install _ _ _
      · -- What a set-up that succeeds does is not work.
        intro l p ambient act hact hwork
        rw [hevents] at hact
        simp at hact
        rcases hact with ⟨-, -, -, rfl⟩ | ⟨-, -, -, rfl⟩ <;> cases hwork

theorem joinSource_covers (line : Nat) :
    Covers P (joinSource P S line).1 S.stack S.ambient ∧
      WorkFits P (joinSource P S line).1 (joinSource P S line).2 := by
  unfold joinSource
  split
  · exact ⟨.frame rfl rfl nofun, workFits_nil⟩
  · exact ⟨.frame rfl rfl nofun, workFits_nil⟩
  · exact ⟨.frame rfl rfl nofun, .cons nofun workFits_nil⟩
  · split
    · exact ⟨.frame rfl rfl nofun, .cons nofun workFits_nil⟩
    · exact ⟨.bare rfl rfl, .cons nofun workFits_nil⟩

theorem controlEmission_covers (line : Nat) (c : Control) :
    Covers P (controlEmission S line c).1 S.stack S.ambient ∧
      WorkFits P (controlEmission S line c).1 (controlEmission S line c).2 := by
  unfold controlEmission
  split
  · split
    · dsimp only
      split <;> exact ⟨.bare rfl rfl, workFits_nil⟩
    · exact ⟨.bare rfl rfl, .cons nofun workFits_nil⟩
  · exact ⟨.bare rfl rfl, workFits_nil⟩
  · exact ⟨.bare rfl rfl, workFits_nil⟩

theorem completeEmission_covers (line : Nat) (e : Emission α) :
    Covers P (completeEmission P S line e) S.stack S.ambient := by
  unfold completeEmission
  split
  · exact .frame rfl rfl nofun
  · exact .bare rfl rfl

theorem emit_covers (line : Nat) (emitted : UInt64) :
    Covers P (emit P S line emitted).1 S.stack S.ambient ∧
      WorkFits P (emit P S line emitted).1 (emit P S line emitted).2 := by
  unfold emit
  split
  · split
    · exact ⟨.bare rfl rfl, workFits_nil⟩
    · dsimp only
      split <;> exact ⟨.bare rfl rfl, workFits_nil⟩
    · split
      · exact ⟨completeEmission_covers line _, workFits_nil⟩
      · exact ⟨.frame rfl rfl nofun, .cons nofun workFits_nil⟩
  · exact ⟨.bare rfl rfl, workFits_nil⟩

theorem resumeEmission_covers (line : Nat) (emitted : UInt64) (last b : Bool) :
    Covers P (resumeEmission P S line emitted last b) S.stack S.ambient := by
  unfold resumeEmission
  split
  · exact completeEmission_covers line _
  · exact .bare rfl rfl
  · exact .bare rfl rfl

/-- A call that assembles nothing. -/
theorem make_covers {c : Call α ε} (hc : ∀ line position context, c ≠ .join line position context) :
    Covers P (make P S c).1 S.stack S.ambient ∧ WorkFits P (make P S c).1 (make P S c).2 := by
  cases c with
  | join line position context => exact absurd rfl (hc line position context)
  | tap line place s => exact callTap_covers (.signal s)
  | client line s => exact ⟨.frame rfl rfl nofun, .cons nofun workFits_nil⟩
  | control line position h c =>
      have hcontrol : Covers P (control P S line c h).1 S.stack S.ambient ∧
          WorkFits P (control P S line c h).1 (control P S line c h).2 := by
        cases h with
        | empty => exact ⟨.bare rfl rfl, workFits_nil⟩
        | emission => exact controlEmission_covers line c
        | tap place => exact callTap_covers (.control c)
        | external id => exact ⟨.frame rfl rfl nofun, .cons nofun workFits_nil⟩
      exact ⟨hcontrol.1, .cons nofun hcontrol.2⟩
  | emit line n => exact emit_covers line n

/-- The return of a frame. -/
theorem resume_covers {f : Frame α ε} {rest : List (Frame α ε)} (b : Bool)
    (hassembled : S.Assembled P) (hstack : S.stack = f :: rest) (hf : f.callback? = none)
    (hfits : S.FrameFits P f S.ambient) :
    Covers P (resume P { S with stack := rest } b f).1 rest (f.release S.ambient) ∧
      WorkFits P (resume P { S with stack := rest } b f).1
        (resume P { S with stack := rest } b f).2 := by
  cases f with
  | tap line place guard r =>
      have hthere := hassembled.waiting line place guard r (hstack ▸ List.mem_cons_self)
      obtain ⟨p, hplan⟩ := hassembled.planned hthere
      obtain ⟨t, htap⟩ := Option.isSome_iff_exists.mp hthere
      have htap' : ({ S with stack := rest } : State σ α ε).tap? line place = some t := htap
      simp only [resume, resumeTap, hplan, htap']
      exact settle_covers (S := { S with stack := rest }) guard htap
        (t.resume_context (p.listener _) r b) (hfits line place guard r rfl)
  | joining line place guard => exact ⟨.bare rfl rfl, .cons (by rintro _ _ _ _ ⟨⟩) workFits_nil⟩
  | refusing line position f => exact ⟨.bare rfl rfl, workFits_nil⟩
  | ending line e => exact ⟨.bare rfl rfl, workFits_nil⟩
  | emitting line n last => exact ⟨resumeEmission_covers line n last b, workFits_nil⟩
  | completing line => exact ⟨.bare rfl rfl, workFits_nil⟩
  | outside c => cases hf

theorem join_covers (hassembled : S.Assembled P) {position : Nat} {context : Context}
    (hfocus : S.focus = .call (.join line position context)) :
    Covers P (make P S (.join line position context)).1 S.stack S.ambient ∧
      WorkFits P (make P S (.join line position context)).1
        (make P S (.join line position context)).2 := by
  have hjoined : ∀ o : Outcome σ α ε, Covers P o.1 S.stack S.ambient ∧ WorkFits P o.1 o.2 →
      Covers P o.1 S.stack S.ambient ∧
        WorkFits P o.1 (.joined line position context :: o.2) := by
    intro o ho
    refine ⟨ho.1, ?_⟩
    intro l p ambient act hact
    rcases List.mem_cons.mp hact with heq | hact
    · cases heq
    · exact ho.2 l p ambient act hact
  refine hjoined (join P S line context position) ?_
  cases position with
  | zero =>
      exact joinSource_covers line
  | succ place =>
      have hjoining := hassembled.joining _ _ _ hfocus
      obtain ⟨p, hplan⟩ : ∃ p, P.taps[place]? = some p :=
        ⟨_, List.getElem?_eq_getElem hjoining.inside⟩
      obtain ⟨nth, hsetting⟩ := setUpTap_settingUp (S := S) hplan line context
      exact hsetting.covers (hjoining.before place (Nat.lt_succ_self place))

/-- What a step does to the calls that wait and to the ambient context. -/
inductive Shift (P : Plan σ α ε) (S U : State σ α ε) (events : List (Event α ε)) : Prop
  /-- A call is made. -/
  | made {c : Call α ε} (hfocus : S.focus = .call c) (hcovers : Covers P U S.stack S.ambient)
    (hworks : U.WorkFits P events)
  /-- A frame goes on. -/
  | returned {b : Bool} {f : Frame α ε} {rest : List (Frame α ε)} (hfocus : S.focus = .back b)
    (hstack : S.stack = f :: rest) (hf : f.callback? = none) (hkeeps : S.Keeps (U, events))
    (hcovers : S.FrameFits P f S.ambient →
      Covers P U rest (f.release S.ambient) ∧ U.WorkFits P events)
  /-- The outside gets the turn. -/
  | handedOver {b : Bool} (hfocus : S.focus = .back b) (hnow : U = { S with focus := .outside b })
    (hstack : S.stack = [] ∨ ∃ c rest, S.stack = .outside c :: rest) (hevents : events = [])

theorem step?_shift (hassembled : S.Assembled P) (hstep : S.step? P = some (U, events)) :
    Shift P S U events := by
  unfold step? at hstep
  split at hstep
  · cases hstep
  next c hfocus =>
    obtain ⟨rfl, rfl⟩ := Prod.mk.inj (Option.some.inj hstep)
    have hmade : Covers P (make P S c).1 S.stack S.ambient ∧
        WorkFits P (make P S c).1 (make P S c).2 := by
      by_cases hjoin : ∃ line position context, c = .join line position context
      · obtain ⟨line, position, context, rfl⟩ := hjoin
        exact join_covers hassembled hfocus
      · exact make_covers fun line position context heq => hjoin ⟨line, position, context, heq⟩
    exact .made hfocus hmade.1 hmade.2
  next b hfocus =>
    split at hstep
    next hstack =>
      cases hstep
      exact .handedOver hfocus rfl (.inl hstack) rfl
    next f rest hstack =>
      obtain ⟨rfl, rfl⟩ := Prod.mk.inj (Option.some.inj hstep)
      cases hf : f.callback? with
      | none =>
          exact .returned hfocus hstack hf (resume_keeps b hstack)
            (resume_covers b hassembled hstack hf)
      | some c =>
          obtain rfl : f = .outside c := by
            cases f <;> cases hf
            rfl
          refine .handedOver hfocus ?_ (.inr ⟨c, rest, hstack⟩) rfl
          simp only [← hstack]

end State

end Wiretap

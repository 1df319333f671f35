import Wiretap.Proofs.Machine.Ambient

/-!
# Twin lines

A call works on its own line: what it does is decided by the line and by the ambient context, and it
leaves the other lines alone. So where two states have the same line, under numbers of their own,
and ambient contexts that look the same to the listeners, the same call does the same in both. All
that may differ are the parts of the ambient context that the listeners do not look at, the guards
that remember it, and how many listeners have been created so far.

A tap that installs a scope works under a context that it has brought along. There the two ambient
contexts are the same, whatever they were before, so such a tap may look at all of it.
-/

namespace Wiretap

variable {K : Kinds} {σ α ε ν : Type}

/-- Factories do not count, and nobody can tell two ambient contexts apart in which `view` sees the
same: no factory, no listener while its tap is set up, and no listener of a tap that installs
nothing. -/
structure Plan.Steady (P : Plan σ α ε) (view : Context → ν) : Prop where
  creates : ∀ p ∈ P.taps, ∀ {a b}, view a = view b → ∀ n m context,
    p.create a n context = p.create b m context
  setsUp : ∀ p ∈ P.taps, ∀ {a b}, view a = view b → ∀ listener context,
    Tap.setUp (p.listener a) listener context = Tap.setUp (p.listener b) listener context
  works : ∀ p ∈ P.taps, p.scope = .inert → ∀ {a b}, view a = view b → p.listener a = p.listener b

/-- A tap that is called finds itself under contexts that look the same, with the same listener. -/
theorem Plan.Steady.inside {P : Plan σ α ε} {view : Context → ν} (hP : P.Steady view)
    {p : TapPlan σ α ε} (hp : p ∈ P.taps) {a b : Context} (h : view a = view b)
    (context : Context) :
    view (p.scope.install context a).1 = view (p.scope.install context b).1 ∧
      p.listener (p.scope.install context a).1 = p.listener (p.scope.install context b).1 := by
  cases hscope : p.scope with
  | all => exact ⟨rfl, rfl⟩
  | keys listed => exact ⟨rfl, rfl⟩
  | inert => exact ⟨h, hP.works p hp hscope h⟩

/-! ## The same on two lines -/

section

variable (P : Plan σ α ε) (view : Context → ν) (l l' : Nat)

/-- The same call on two lines. -/
inductive Call.Twin : Call α ε → Call α ε → Prop
  | join (position : Nat) (context : Context) :
    Call.Twin (.join l position context) (.join l' position context)
  | tap (place : Nat) (s : Signal α ε) : Call.Twin (.tap l place s) (.tap l' place s)
  | client (s : Signal α (TapError ε)) : Call.Twin (.client l s) (.client l' s)
  | control (position : Nat) (h : Handle) (c : Control) :
    Call.Twin (.control l position h c) (.control l' position h c)
  | emit (n : UInt64) : Call.Twin (.emit l n) (.emit l' n)

/-- The same frame on two lines, under two ambient contexts; nobody outside waits. -/
inductive Frame.Twin (ambient ambient' : Context) : Frame α ε → Frame α ε → Prop
  | tap (place : Nat) (guard guard' : Guard) (r : Tap.Resume α ε)
    (hlistener : ∀ p, P.taps[place]? = some p → p.listener ambient = p.listener ambient') :
    Frame.Twin ambient ambient' (.tap l place guard r) (.tap l' place guard' r)
  | joining (place : Nat) (guard guard' : Guard) :
    Frame.Twin ambient ambient' (.joining l place guard) (.joining l' place guard')
  | refusing (position : Nat) (f : Fault) :
    Frame.Twin ambient ambient' (.refusing l position f) (.refusing l' position f)
  | ending (e : Option ε) : Frame.Twin ambient ambient' (.ending l e) (.ending l' e)
  | emitting (n : UInt64) (last : Bool) :
    Frame.Twin ambient ambient' (.emitting l n last) (.emitting l' n last)
  | completing : Frame.Twin ambient ambient' (.completing l) (.completing l')

/-- The same frames on two lines, the innermost first, under `ambient` and `ambient'`. When all of
them have returned, `base` and `base'` are ambient. -/
inductive Layers (base base' : Context) :
    Context → Context → List (Frame α ε) → List (Frame α ε) → Prop
  | nil (hview : view base = view base') : Layers base base' base base' [] []
  | cons {ambient ambient' : Context} {f f' : Frame α ε} {work work' : List (Frame α ε)}
    (hview : view ambient = view ambient') (hf : f.Twin P l l' ambient ambient' f')
    (hwork : Layers base base' (f.release ambient) (f'.release ambient') work work') :
    Layers base base' ambient ambient' (f :: work) (f' :: work')

/-- The same callback for two lines. -/
inductive Callback.Twin : Callback α ε → Callback α ε → Prop
  | client (s : Signal α (TapError ε)) : Callback.Twin (.client l s) (.client l' s)
  | handle (id : Nat) (c : Control) : Callback.Twin (.handle id c) (.handle id c)
  | source : Callback.Twin (.source l) (.source l')

/-- The machine attends to the same on two lines, and the outside does not have the turn. -/
inductive Focus.Twin : Focus α ε → Focus α ε → Prop
  | call {c c' : Call α ε} (h : c.Twin l l' c') : Focus.Twin (.call c) (.call c')
  | back (b : Bool) : Focus.Twin (.back b) (.back b)

/-- The same happens on two lines, under ambient contexts that look the same, and the outside is not
called. -/
inductive Event.Twin : Event α ε → Event α ε → Prop
  | joined (position : Nat) (context : Context) :
    Event.Twin (.joined l position context) (.joined l' position context)
  | controlled (position : Nat) (c : Control) :
    Event.Twin (.controlled l position c) (.controlled l' position c)
  | created (place nth nth' : Nat) {ambient ambient' : Context} (context : Context)
    (failure : Option Cause) (hview : view ambient = view ambient') :
    Event.Twin (.created l place nth ambient context failure)
      (.created l' place nth' ambient' context failure)
  | received (place : Nat) (input : Tap.Input α ε) :
    Event.Twin (.received l place input) (.received l' place input)
  | acted (place : Nat) {ambient ambient' : Context} (act : Tap.Act α ε)
    (hview : view ambient = view ambient') :
    Event.Twin (.acted l place ambient act) (.acted l' place ambient' act)
  | sent (place : Nat) (s : Signal α (TapError ε)) : Event.Twin (.sent l place s) (.sent l' place s)
  | returned (place : Nat) (b : Bool) : Event.Twin (.returned l place b) (.returned l' place b)
  | notSetUp (place : Nat) (f : Fault) : Event.Twin (.notSetUp l place f) (.notSetUp l' place f)
  | entered (place : Nat) {ambient ambient' : Context} (hview : view ambient = view ambient') :
    Event.Twin (.entered l place ambient) (.entered l' place ambient')
  | left (place : Nat) {ambient ambient' : Context} (hview : view ambient = view ambient') :
    Event.Twin (.left l place ambient) (.left l' place ambient')
  | pulled (item : Option α) : Event.Twin (.pulled l item) (.pulled l' item)
  | dropped (v : Violation) : Event.Twin (.dropped l v) (.dropped l' v)

end

namespace Layers

variable {P : Plan σ α ε} {view : Context → ν} {l l' : Nat}
  {base base' inner inner' ambient ambient' : Context} {work work' more more' : List (Frame α ε)}

theorem view_eq (h : Layers P view l l' base base' ambient ambient' work work') :
    view ambient = view ambient' := by
  cases h with
  | nil hview => exact hview
  | cons hview _ _ => exact hview

theorem of_nil (h : Layers P view l l' base base' ambient ambient' [] []) :
    ambient = base ∧ ambient' = base' := by
  cases h
  exact ⟨rfl, rfl⟩

theorem of_cons {f f' : Frame α ε}
    (h : Layers P view l l' base base' ambient ambient' (f :: work) (f' :: work')) :
    f.Twin P l l' ambient ambient' f' ∧
      Layers P view l l' base base' (f.release ambient) (f'.release ambient') work work' := by
  cases h with
  | cons hview hf hwork => exact ⟨hf, hwork⟩

/-- New work has come up inside of the old. -/
theorem append (h : Layers P view l l' inner inner' ambient ambient' work work')
    (hmore : Layers P view l l' base base' inner inner' more more') :
    Layers P view l l' base base' ambient ambient' (work ++ more) (work' ++ more') := by
  induction h with
  | nil hview => exact hmore
  | cons hview hf _ ih => exact .cons hview hf ih

end Layers

namespace State

/-- From `S` and from `T` the same happens on a line of each, and on no other; the outside is not
called. When the work that has come up is done, the ambient contexts are those of `S` and `T`. -/
structure Twins (P : Plan σ α ε) (view : Context → ν) (l l' : Nat) (S T : State σ α ε)
    (o o' : Outcome σ α ε) : Prop where
  lines : ∃ g : Line σ α → Line σ α,
    o.1.lines = S.lines.modify l g ∧ o'.1.lines = T.lines.modify l' g
  stack : ∃ new new', o.1.stack = new ++ S.stack ∧ o'.1.stack = new' ++ T.stack ∧
    Layers P view l l' S.ambient T.ambient o.1.ambient o'.1.ambient new new'
  focus : o.1.focus.Twin l l' o'.1.focus
  events : List.Forall₂ (Event.Twin view l l') o.2 o'.2

variable {P : Plan σ α ε} {view : Context → ν} {l l' : Nat} {S T : State σ α ε}
  {o o' : Outcome σ α ε} {events events' : List (Event α ε)}

namespace Twins

/-- What has happened before may be told as well. -/
theorem tell (h : Twins P view l l' S T o o')
    (hevents : List.Forall₂ (Event.Twin view l l') events events') :
    Twins P view l l' S T (o.1, events ++ o.2) (o'.1, events' ++ o'.2) :=
  ⟨h.lines, h.stack, h.focus, List.rel_append hevents h.events⟩

/-- A change of the line that has been made before. -/
theorem of_modify {S₁ T₁ : State σ α ε} (h : Twins P view l l' S₁ T₁ o o')
    {g : Line σ α → Line σ α} (hlines : S₁.lines = S.lines.modify l g)
    (hlines' : T₁.lines = T.lines.modify l' g) (hstack : S₁.stack = S.stack)
    (hstack' : T₁.stack = T.stack) (hambient : S₁.ambient = S.ambient)
    (hambient' : T₁.ambient = T.ambient) : Twins P view l l' S T o o' := by
  obtain ⟨later, ho, ho'⟩ := h.lines
  refine ⟨⟨later ∘ g, ?_, ?_⟩, ?_, h.focus, h.events⟩
  · rw [ho, hlines, List.modify_modify_eq]
  · rw [ho', hlines', List.modify_modify_eq]
  · rw [← hstack, ← hstack', ← hambient, ← hambient']
    exact h.stack

/-- The base does not count but for its lines, its stack and its ambient context. -/
theorem of_eq {S₁ T₁ : State σ α ε} (h : Twins P view l l' S₁ T₁ o o')
    (hlines : S₁.lines = S.lines) (hlines' : T₁.lines = T.lines) (hstack : S₁.stack = S.stack)
    (hstack' : T₁.stack = T.stack) (hambient : S₁.ambient = S.ambient)
    (hambient' : T₁.ambient = T.ambient) : Twins P view l l' S T o o' :=
  h.of_modify (g := id) (by rw [List.modify_id, hlines]) (by rw [List.modify_id, hlines'])
    hstack hstack' hambient hambient'

end Twins

/-- The lines have been changed alike, and the machine attends to the same without new frames. -/
theorem twins_of_focus {U V : State σ α ε} {g : Line σ α → Line σ α}
    (hview : view S.ambient = view T.ambient) (hlines : U.lines = S.lines.modify l g)
    (hlines' : V.lines = T.lines.modify l' g) (hstack : U.stack = S.stack)
    (hstack' : V.stack = T.stack) (hambient : U.ambient = S.ambient)
    (hambient' : V.ambient = T.ambient) (hfocus : U.focus.Twin l l' V.focus)
    (hevents : List.Forall₂ (Event.Twin view l l') events events') :
    Twins P view l l' S T (U, events) (V, events') := by
  refine ⟨⟨g, hlines, hlines'⟩, ⟨[], [], hstack, hstack', ?_⟩, hfocus, hevents⟩
  rw [hambient, hambient']
  exact .nil hview

/-- A new frame waits for a call. -/
theorem twins_of_frame {U V : State σ α ε} {g : Line σ α → Line σ α} {f f' : Frame α ε}
    (hview : view S.ambient = view T.ambient) (hlines : U.lines = S.lines.modify l g)
    (hlines' : V.lines = T.lines.modify l' g) (hstack : U.stack = f :: S.stack)
    (hstack' : V.stack = f' :: T.stack) (hrelease : f.release U.ambient = S.ambient)
    (hrelease' : f'.release V.ambient = T.ambient) (hnow : view U.ambient = view V.ambient)
    (hf : f.Twin P l l' U.ambient V.ambient f') (hfocus : U.focus.Twin l l' V.focus)
    (hevents : List.Forall₂ (Event.Twin view l l') events events') :
    Twins P view l l' S T (U, events) (V, events') := by
  refine ⟨⟨g, hlines, hlines'⟩, ⟨[f], [f'], hstack, hstack', .cons hnow hf ?_⟩, hfocus, hevents⟩
  rw [hrelease, hrelease']
  exact .nil hview

theorem lines_eq_modify (S : State σ α ε) (l : Nat) : S.lines = S.lines.modify l id :=
  (List.modify_id l S.lines).symm

theorem signal_twin (position : Nat) (s : Signal α (TapError ε)) :
    (P.signal l position s).Twin l l' (P.signal l' position s) := by
  unfold Plan.signal
  split
  · exact .tap position _
  · exact .client s

theorem sourceSignal_twin (s : Signal α ε) :
    (P.sourceSignal l s).Twin l l' (P.sourceSignal l' s) := by
  unfold Plan.sourceSignal
  split
  · exact .tap 0 s
  · exact .client _

theorem acted_twin {ambient ambient' : Context} (l l' place : Nat)
    (hview : view ambient = view ambient') (acts : List (Tap.Act α ε)) :
    List.Forall₂ (Event.Twin view l l') (acts.map (.acted l place ambient))
      (acts.map (.acted l' place ambient')) := by
  induction acts with
  | nil => exact .nil
  | cons act acts ih => exact .cons (.acted place act hview) ih

theorem tap?_of_line (hline : S.lines[l]? = T.lines[l']?) (place : Nat) :
    S.tap? l place = T.tap? l' place := by rw [tap?, tap?, hline]

theorem isConditional_of_line (hline : S.lines[l]? = T.lines[l']?) :
    S.isConditional l = T.isConditional l' := by rw [isConditional, isConditional, hline]

theorem emission?_of_line (hline : S.lines[l]? = T.lines[l']?) :
    S.emission? l = T.emission? l' := by rw [emission?, emission?, hline]

/-! ## Taps -/

/-- A turn of a tap. When its scope is released, the ambient contexts still look the same. -/
theorem settle_twins {base base' : Context} {place : Nat} {guard guard' : Guard}
    (hview : view S.ambient = view T.ambient)
    (hlistener : ∀ p, P.taps[place]? = some p → p.listener S.ambient = p.listener T.ambient)
    (hrelease : guard.release S.ambient = base) (hrelease' : guard'.release T.ambient = base')
    (hbase : view base = view base') (turn : Tap.Turn σ α ε) :
    Twins P view l l' { S with ambient := base } { T with ambient := base' }
      (settle P S l place guard turn) (settle P T l' place guard' turn) := by
  have hacts := acted_twin l l' place hview turn.acts
  subst hrelease
  subst hrelease'
  unfold settle
  cases hnext : turn.next with
  | answer b =>
      exact twins_of_focus (g := (·.setTap place turn.tap)) hbase rfl rfl rfl rfl rfl rfl (.back b)
        (List.rel_append hacts (.cons (.left place hbase) (.cons (.returned place b) .nil)))
  | down s r =>
      exact twins_of_frame (g := (·.setTap place turn.tap)) hbase rfl rfl rfl rfl rfl rfl hview
        (.tap place guard guard' r hlistener) (.call (signal_twin _ s))
        (List.rel_append hacts (.cons (.sent place s) .nil))
  | up h c r =>
      exact twins_of_frame (g := (·.setTap place turn.tap)) hbase rfl rfl rfl rfl rfl rfl hview
        (.tap place guard guard' r hlistener) (.call (.control place h c)) hacts

theorem back_twins (hview : view S.ambient = view T.ambient) (b : Bool) :
    Twins P view l l' S T (S.back b, []) (T.back b, []) :=
  twins_of_focus hview (lines_eq_modify S l) (lines_eq_modify T l') rfl rfl rfl rfl (.back b) .nil

theorem callTap_twins (hP : P.Steady view) (hline : S.lines[l]? = T.lines[l']?)
    (hview : view S.ambient = view T.ambient) (place : Nat) (input : Tap.Input α ε) :
    Twins P view l l' S T (callTap P S l place input) (callTap P T l' place input) := by
  unfold callTap
  rw [tap?_of_line hline, isConditional_of_line hline]
  split
  next p t hplan htap =>
    obtain ⟨hinside, hlistener⟩ := hP.inside (List.mem_of_getElem? hplan) hview t.context
    have hsame : ∀ q, P.taps[place]? = some q →
        q.listener (p.scope.install t.context S.ambient).1 =
          q.listener (p.scope.install t.context T.ambient).1 := by
      intro q hq
      rw [hplan, Option.some.injEq] at hq
      rwa [← hq]
    let inner := p.scope.install t.context S.ambient
    let inner' := p.scope.install t.context T.ambient
    let turn := t.serve (p.listener inner'.1) (.tap place) (T.isConditional l') input
    have hsettled : Twins P view l l' S T
        (settle P { S with ambient := inner.1 } l place inner.2 turn)
        (settle P { T with ambient := inner'.1 } l' place inner'.2 turn) :=
      (settle_twins (S := { S with ambient := inner.1 }) (T := { T with ambient := inner'.1 })
        hinside hsame (Scope.release_install _ _ _) (Scope.release_install _ _ _) hview
        turn).of_eq rfl rfl rfl rfl rfl rfl
    dsimp only
    rw [hlistener]
    exact hsettled.tell (.cons (.received place input) (.cons (.entered place hinside) .nil))
  next => exact back_twins hview true

/-- A tap that waits is there. -/
theorem resumeTap_twins {base base' : Context} (hline : S.lines[l]? = T.lines[l']?)
    (hview : view S.ambient = view T.ambient) {place : Nat} {guard guard' : Guard}
    (hlistener : ∀ p, P.taps[place]? = some p → p.listener S.ambient = p.listener T.ambient)
    (hrelease : guard.release S.ambient = base) (hrelease' : guard'.release T.ambient = base')
    (hbase : view base = view base') {p : TapPlan σ α ε} {t : Tap σ}
    (hplan : P.taps[place]? = some p) (htap : S.tap? l place = some t) (r : Tap.Resume α ε)
    (b : Bool) :
    Twins P view l l' { S with ambient := base } { T with ambient := base' }
      (resumeTap P S l place guard r b) (resumeTap P T l' place guard' r b) := by
  have htap' : T.tap? l' place = some t := (tap?_of_line hline place).symm.trans htap
  simp only [resumeTap, hplan, htap, htap', hlistener p hplan]
  exact settle_twins hview hlistener hrelease hrelease' hbase _

theorem refuse_twins (hview : view S.ambient = view T.ambient) (place : Nat) (f : Fault) :
    Twins P view l l' S T (refuse P S l place f) (refuse P T l' place f) :=
  twins_of_frame hview (lines_eq_modify S l) (lines_eq_modify T l') rfl rfl rfl rfl hview
    (.refusing (place + 1) f) (.call (signal_twin _ _)) (.cons (.notSetUp place f) .nil)

theorem setUpTap_twins (hP : P.Steady view) (hview : view S.ambient = view T.ambient)
    (place : Nat) (context : Context) :
    Twins P view l l' S T (setUpTap P S l place context) (setUpTap P T l' place context) := by
  unfold setUpTap
  split
  next => exact back_twins hview true
  next p hplan =>
    have hp := List.mem_of_getElem? hplan
    dsimp only
    rw [hP.creates p hp hview _ (T.created[place]?.getD 0 + 1) context]
    let counted : State σ α ε :=
      { S with created := S.created.set place (S.created[place]?.getD 0 + 1) }
    let counted' : State σ α ε :=
      { T with created := T.created.set place (T.created[place]?.getD 0 + 1) }
    have hrefused : ∀ f : Fault,
        Twins P view l l' S T (refuse P counted l place f) (refuse P counted' l' place f) := by
      intro f
      have htwins : Twins P view l l' counted counted' (refuse P counted l place f)
          (refuse P counted' l' place f) :=
        refuse_twins (S := counted) (T := counted') hview place f
      exact htwins.of_eq rfl rfl rfl rfl rfl rfl
    split
    next cause hcreate =>
      exact (hrefused _).tell (.cons (.created place _ _ context _ hview) .nil)
    next listener hcreate =>
      rw [hP.setsUp p hp hview listener context]
      have hacts := acted_twin l l' place hview
        (Tap.setUp (p.listener T.ambient) listener context).1
      split
      next f hsetUp =>
        exact (hrefused f).tell (.cons (.created place _ _ context _ hview) hacts)
      next t hsetUp =>
        have hinside := (hP.inside hp hview t.context).1
        exact twins_of_frame (g := (·.setTap place t)) hview rfl rfl rfl rfl
          (Scope.release_install _ _ _) (Scope.release_install _ _ _) hinside
          (.joining place _ _) (.call (.join place t.context))
          (List.rel_append (.cons (.created place _ _ context _ hview) hacts)
            (.cons (.entered place hinside) .nil))

/-! ## Sources -/

theorem endStream_twins (hview : view S.ambient = view T.ambient) (e : Option ε)
    (h : List.Forall₂ (Event.Twin view l l') events events') :
    Twins P view l l' S T (endStream P S l e, events) (endStream P T l' e, events') :=
  twins_of_frame hview (lines_eq_modify S l) (lines_eq_modify T l') rfl rfl rfl rfl hview
    (.ending e) (.call (sourceSignal_twin _)) h

theorem completeEmission_twins (hview : view S.ambient = view T.ambient) (e : Emission α) :
    Twins P view l l' S T (completeEmission P S l e, []) (completeEmission P T l' e, []) := by
  unfold completeEmission
  split
  · exact twins_of_frame (g := fun line => { line with emission := some e.detach }) hview rfl rfl
      rfl rfl rfl rfl hview .completing (.call (sourceSignal_twin _)) .nil
  · exact back_twins hview true

theorem emit_twins (hline : S.lines[l]? = T.lines[l']?) (hview : view S.ambient = view T.ambient)
    (n : UInt64) : Twins P view l l' S T (emit P S l n) (emit P T l' n) := by
  unfold emit
  rw [emission?_of_line hline, isConditional_of_line hline]
  split
  next pull e hsource hemission =>
    split
    · exact back_twins hview true
    · dsimp only
      have hsettled : (S.setEmission l (e.settle n)).lines = S.lines.modify l
          fun line => { line with emission := some (e.settle n) } := rfl
      split
      · exact twins_of_focus hview hsettled rfl rfl rfl rfl rfl (.back true) .nil
      · exact twins_of_focus hview hsettled rfl rfl rfl rfl rfl (.call (.emit 0)) .nil
    · split
      · exact completeEmission_twins hview e
      · exact twins_of_frame
          (g := fun line => { line with emission := some (e.advance pull) }) hview rfl rfl rfl rfl
          rfl rfl hview (.emitting n _) (.call (sourceSignal_twin _)) (.cons (.pulled _) .nil)
  next => exact back_twins hview true

theorem resumeEmission_twins (hline : S.lines[l]? = T.lines[l']?)
    (hview : view S.ambient = view T.ambient) (n : UInt64) (last b : Bool) :
    Twins P view l l' S T (resumeEmission P S l n last b, [])
      (resumeEmission P T l' n last b, []) := by
  unfold resumeEmission
  rw [emission?_of_line hline, isConditional_of_line hline]
  split
  · exact completeEmission_twins hview _
  · exact back_twins hview true
  · exact twins_of_focus hview (lines_eq_modify S l) (lines_eq_modify T l') rfl rfl rfl rfl
      (.call (.emit _)) .nil

theorem controlEmission_twins (hline : S.lines[l]? = T.lines[l']?)
    (hview : view S.ambient = view T.ambient) (c : Control) :
    Twins P view l l' S T (controlEmission S l c) (controlEmission T l' c) := by
  unfold controlEmission
  rw [emission?_of_line hline]
  split
  next e n hemission =>
    split
    · dsimp only
      have hrequested : (S.setEmission l (e.request n)).lines = S.lines.modify l
          fun line => { line with emission := some (e.request n) } := rfl
      split
      · exact twins_of_focus hview hrequested rfl rfl rfl rfl rfl (.call (.emit 0)) .nil
      · exact twins_of_focus hview hrequested rfl rfl rfl rfl rfl (.back true) .nil
    · exact (back_twins hview true).tell (.cons (.dropped _) .nil)
  next e hemission =>
    exact twins_of_focus (g := fun line => { line with emission := some e.cancel }) hview rfl rfl
      rfl rfl rfl rfl (.back true) .nil
  next => exact back_twins hview true

/-! ## Calls and returns -/

/-- From `S` and from `T` the outside is called alike, after the same has happened. -/
structure Summons (view : Context → ν) (l l' : Nat) (S T : State σ α ε) (o o' : Outcome σ α ε)
    (c c' : Callback α ε) (before before' : List (Event α ε)) : Prop where
  lines : ∃ g : Line σ α → Line σ α,
    o.1.lines = S.lines.modify l g ∧ o'.1.lines = T.lines.modify l' g
  callback : c.Twin l l' c'
  stack : o.1.stack = .outside c :: S.stack ∧ o'.1.stack = .outside c' :: T.stack
  ambient : o.1.ambient = S.ambient ∧ o'.1.ambient = T.ambient
  focus : o.1.focus = .outside true ∧ o'.1.focus = .outside true
  told : List.Forall₂ (Event.Twin view l l') before before'
  events : o.2 = before ++ [.called c S.ambient] ∧ o'.2 = before' ++ [.called c' T.ambient]
  /-- It is told whose handle is used. -/
  handle : ∀ id control, c = .handle id control →
    ∃ position, before = [.controlled l position control]

/-- From `S` and from `T` the same happens, with or without a call to the outside. -/
inductive Alike (P : Plan σ α ε) (view : Context → ν) (l l' : Nat) (S T : State σ α ε)
    (o o' : Outcome σ α ε) : Prop
  | goesOn (h : Twins P view l l' S T o o')
  | calls {c c' : Callback α ε} {before before' : List (Event α ε)}
    (h : Summons view l l' S T o o' c c' before before')

theorem joinSource_alike (hview : view S.ambient = view T.ambient) (position : Nat)
    (context : Context) :
    Alike P view l l' S T
      ((joinSource P S l).1, .joined l position context :: (joinSource P S l).2)
      ((joinSource P T l').1, .joined l' position context :: (joinSource P T l').2) := by
  have hjoined : List.Forall₂ (Event.Twin view l l')
      [(.joined l position context : Event α ε)] [.joined l' position context] :=
    .cons (.joined position context) .nil
  unfold joinSource
  split
  · exact .goesOn (endStream_twins hview none hjoined)
  · exact .goesOn (endStream_twins hview _ hjoined)
  · exact .calls ⟨⟨id, lines_eq_modify S l, lines_eq_modify T l'⟩, .source, ⟨rfl, rfl⟩,
      ⟨rfl, rfl⟩, ⟨rfl, rfl⟩, hjoined, ⟨rfl, rfl⟩, nofun⟩
  · split
    · exact .goesOn (endStream_twins hview none (List.rel_append hjoined (.cons (.pulled _) .nil)))
    next pull hsource x hpull =>
      exact .goesOn (twins_of_focus (g := fun line => { line with emission := some (.start x) })
        hview rfl rfl rfl rfl rfl rfl (.call (sourceSignal_twin _))
        (List.rel_append hjoined (.cons (.pulled _) .nil)))

theorem control_alike (hP : P.Steady view) (hline : S.lines[l]? = T.lines[l']?)
    (hview : view S.ambient = view T.ambient) (position : Nat) (h : Handle) (c : Control) :
    Alike P view l l' S T
      ((control P S l c h).1, .controlled l position c :: (control P S l c h).2)
      ((control P T l' c h).1, .controlled l' position c :: (control P T l' c h).2) := by
  have hused : List.Forall₂ (Event.Twin view l l')
      [(.controlled l position c : Event α ε)] [.controlled l' position c] :=
    .cons (.controlled position c) .nil
  cases h with
  | empty => exact .goesOn ((back_twins hview true).tell hused)
  | emission => exact .goesOn ((controlEmission_twins hline hview c).tell hused)
  | tap place => exact .goesOn ((callTap_twins hP hline hview place (.control c)).tell hused)
  | external id =>
      refine .calls ⟨⟨_, lines_eq_modify S l, lines_eq_modify T l'⟩, .handle id c,
        ⟨rfl, rfl⟩, ⟨rfl, rfl⟩, ⟨rfl, rfl⟩, hused, ⟨rfl, rfl⟩, ?_⟩
      rintro id' c' heq
      cases heq
      exact ⟨position, rfl⟩

/-- A call does the same on twin lines. -/
theorem make_alike (hP : P.Steady view) (hline : S.lines[l]? = T.lines[l']?)
    (hview : view S.ambient = view T.ambient) {c c' : Call α ε} (hc : c.Twin l l' c') :
    Alike P view l l' S T (make P S c) (make P T c') := by
  cases hc with
  | join position context =>
      cases position with
      | zero => exact joinSource_alike hview 0 context
      | succ place =>
          exact .goesOn
            ((setUpTap_twins hP hview place context).tell (.cons (.joined _ context) .nil))
  | tap place s => exact .goesOn (callTap_twins hP hline hview place (.signal s))
  | client s =>
      exact .calls ⟨⟨(·.receive s), rfl, rfl⟩, .client s, ⟨rfl, rfl⟩, ⟨rfl, rfl⟩, ⟨rfl, rfl⟩, .nil,
        ⟨rfl, rfl⟩, nofun⟩
  | control position h c => exact control_alike hP hline hview position h c
  | emit n => exact .goesOn (emit_twins hline hview n)

/-- A frame goes on in the same way on twin lines, if the tap that it belongs to is there. When it
has returned, the ambient contexts still look the same. -/
theorem resume_twins (hline : S.lines[l]? = T.lines[l']?) {f f' : Frame α ε}
    (hview : view S.ambient = view T.ambient) (hf : f.Twin P l l' S.ambient T.ambient f')
    (hrelease : view (f.release S.ambient) = view (f'.release T.ambient))
    (hthere : ∀ place guard r, f = .tap l place guard r →
      (P.taps[place]?).isSome = true ∧ (S.tap? l place).isSome = true) (b : Bool) :
    Twins P view l l' { S with ambient := f.release S.ambient }
      { T with ambient := f'.release T.ambient } (resume P S b f) (resume P T b f') := by
  cases hf with
  | tap place guard guard' r hlistener =>
      obtain ⟨hplan, htap⟩ := hthere place guard r rfl
      obtain ⟨p, hplan⟩ := Option.isSome_iff_exists.mp hplan
      obtain ⟨t, htap⟩ := Option.isSome_iff_exists.mp htap
      exact resumeTap_twins hline hview hlistener rfl rfl hrelease hplan htap r b
  | joining place guard guard' =>
      exact twins_of_focus hrelease (lines_eq_modify S l) (lines_eq_modify T l') rfl rfl rfl rfl
        (.back true) (.cons (.left place hrelease) .nil)
  | refusing position f =>
      exact twins_of_focus hview (lines_eq_modify S l) (lines_eq_modify T l') rfl rfl rfl rfl
        (.call (signal_twin _ _)) .nil
  | ending e =>
      exact twins_of_focus hview (lines_eq_modify S l) (lines_eq_modify T l') rfl rfl rfl rfl
        (.call (sourceSignal_twin _)) .nil
  | emitting n last => exact resumeEmission_twins hline hview n last b
  | completing => exact back_twins hview true

end State

end Wiretap

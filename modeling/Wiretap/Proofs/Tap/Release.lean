import Wiretap.Proofs.Tap.Opening

/-!
# Before a tap gives up its source

As long as a tap has not cancelled its source, no hook of it has failed in a way that concerns its
receiver: what it has sent begins with the tap itself as a handle and tells of no fault. The first
turn after which that might change ends with a cancellation of the source.
-/

namespace Wiretap.Tap

variable {K : Kinds} {σ α ε : Type}

/-- Is the source left alone at this point? A second handle that was cancelled is not the source. -/
def Resume.isHarmless : Resume α ε → Bool
  | .refused _ | .excused _ | .failed _ | .spoiled _ _ | .released => false
  | _ => true

/-- A turn that ends in a harmless way, or by cancelling the source. -/
inductive Turn.Mild (turn : Turn σ α ε) : Prop
  | answer {b : Bool} (hnext : turn.next = .answer b)
  | down {s : Signal α (TapError ε)} {r : Resume α ε} (hnext : turn.next = .down s r)
    (hr : r.isHarmless = true) (hs : s.fault? = none)
  | up {h : Handle} {c : Control} {r : Resume α ε} (hnext : turn.next = .up h c r)
    (hr : r.isHarmless = true)
  | cancel {h : Handle} {r : Resume α ε} (hnext : turn.next = .up h .cancel r)
    (hsource : turn.tap.source = some h)

/-- The hook that accompanies a cancellation has not failed. -/
def Turn.Cancels (turn : Turn σ α ε) : Prop := ∀ cause, .ran .cancel (some cause) ∉ turn.acts

theorem Turn.Mild.after {turn : Turn σ α ε} (h : turn.Mild) (act : Act α ε) :
    (turn.after act).Mild := by
  cases h with
  | answer hnext => exact .answer hnext
  | down hnext hr hs => exact .down hnext hr hs
  | up hnext hr => exact .up hnext hr
  | cancel hnext hsource => exact .cancel hnext hsource

variable {t : Tap σ} {h : Handle} (L : Listener σ α ε) {Ls : Context → Listener σ α ε}

theorem finish_mild : (t.finish : Turn σ α ε).Mild := .answer rfl

theorem dropItem_mild (x : α) : (t.dropItem x : Turn σ α ε).Mild := finish_mild.after _

theorem dropError_mild (e : Undelivered ε) : (t.dropError e : Turn σ α ε).Mild :=
  finish_mild.after _

/-- With a source, a cancellation is what a turn ends with. -/
theorem cancelSource_mild (hsource : t.source = some h) (r : Resume α ε) (goOn : Turn σ α ε) :
    (t.cancelSource r goOn).Mild := by
  unfold cancelSource
  rw [hsource]
  exact .cancel rfl hsource

theorem runHook_mild {u : Tap σ} {k : Hook α ε} {ok : Tap σ → Turn σ α ε}
    {failed : Tap σ → Fault → Turn σ α ε} (hsource : u.source = some h)
    (hok : ∀ v : Tap σ, v.source = some h → (ok v).Mild)
    (hfailed : ∀ (v : Tap σ) f, v.source = some h → (failed v f).Mild) :
    (u.runHook L k ok failed).Mild := by
  unfold runHook
  rcases L.run u.listener k with ⟨listener, _ | cause⟩
  · exact (hok { u with listener } hsource).after _
  · exact (hfailed { u with listener } _ hsource).after _

theorem fail_mild (hsource : t.source = some h) (f : Fault) : (t.fail L f).Mild :=
  cancelSource_mild hsource _ _

theorem dropFault_mild {f : Fault} {goOn : Tap σ → Turn σ α ε} (hgoOn : ∀ u, (goOn u).Mild) :
    (t.dropFault L f goOn).Mild := ((hgoOn _).after _).after _

theorem malformedNext_mild (hsource : t.source = some h) (x : α) :
    (t.malformedNext L x).Mild :=
  runHook_mild L hsource (fun _ _ => dropItem_mild x)
    fun _ _ _ => dropFault_mild L fun _ => dropItem_mild x

theorem consumed_mild (hsource : t.source = some h) (x : α) : (t.consumed L x).Mild :=
  runHook_mild L hsource (fun _ _ => finish_mild) fun _ f hv => fail_mild L hv f

theorem wrapUp_mild (hsource : t.source = some h) (k : Hook α ε) (ending : Ending) :
    (t.wrapUp L k ending).Mild := by
  have hdropped : ∀ (u : Tap σ) (f : Fault), (u.dropFault L f finish).Mild :=
    fun _ _ => dropFault_mild L fun _ => finish_mild
  unfold wrapUp
  refine runHook_mild L hsource (fun u hu => ?_) fun u f _ => hdropped u f
  unfold runFinally
  split
  · exact finish_mild
  · exact runHook_mild L (u := { u with finalized := true }) hu (fun _ _ => finish_mild)
      fun v f _ => hdropped v f

theorem onNext_mild (hsource : t.source = some h) (x : α) : (t.onNext L x).Mild := by
  unfold onNext
  split
  · exact malformedNext_mild L hsource x
  · refine runHook_mild L hsource (fun u _ => ?_) fun _ f hv => fail_mild L hv f
    split
    · exact .down rfl rfl rfl
    · exact dropItem_mild x

theorem onOffer_mild (hsource : t.source = some h) (conditional : Bool) (x : α) :
    (t.onOffer L conditional x).Mild := by
  unfold onOffer
  split
  · exact malformedNext_mild L hsource x
  · split
    · split <;> exact .down rfl rfl rfl
    · exact dropItem_mild x

theorem onError_mild (hsource : t.source = some h) (e : ε) : (t.onError L e).Mild := by
  unfold onError
  split
  · exact runHook_mild L hsource (fun _ _ => dropError_mild _)
      fun _ _ _ => dropFault_mild L fun _ => dropError_mild _
  · refine runHook_mild L (u := { t with done := true }) hsource (fun u hu => ?_)
      fun u f hu => cancelSource_mild hu _ _
    dsimp only
    split
    · exact .down rfl rfl rfl
    · exact (wrapUp_mild L (t := { u with attached := false }) hu _ _).after _

theorem onComplete_mild (hsource : t.source = some h) : (t.onComplete L).Mild := by
  unfold onComplete
  split
  · exact runHook_mild L hsource (fun _ _ => finish_mild)
      fun _ _ _ => dropFault_mild L fun _ => finish_mild
  · refine runHook_mild L (u := { t with done := true }) hsource (fun u hu => ?_)
      fun u f hu => fail_mild L hu f
    dsimp only
    split
    · exact .down rfl rfl rfl
    · exact wrapUp_mild L (t := { u with attached := false }) hu _ _

theorem onRequest_mild (hsource : t.source = some h) (n : UInt64) : (t.onRequest L n).Mild := by
  unfold onRequest
  split
  · refine runHook_mild L hsource (fun u hu => ?_) fun _ f hv => fail_mild L hv f
    simp only [hu]
    exact .up rfl rfl
  · exact dropError_mild _

/-- A cancellation is passed on, unless its own hook fails. -/
theorem onCancel_next (hsource : t.source = some h) (hcancels : (t.onCancel L).Cancels) :
    (t.onCancel L).next = .up h .cancel .released ∧ (t.onCancel L).tap.source = some h := by
  unfold onCancel runHook at *
  rcases hrun : L.run t.listener (.cancel : Hook α ε) with ⟨listener, _ | cause⟩
  · simp [cancelSource, hsource]
  · exact absurd (by simp [hrun]) (hcancels cause)

theorem onCancel_mild (hsource : t.source = some h) (hcancels : (t.onCancel L).Cancels) :
    (t.onCancel L).Mild := by
  obtain ⟨hnext, hnow⟩ := onCancel_next L hsource hcancels
  exact .cancel hnext hnow

/-- A tap with a source is called. -/
theorem serve_mild (hsource : t.source = some h) (self : Handle) (conditional : Bool)
    (input : Input α ε) (hcancels : (t.serve L self conditional input).Cancels) :
    (t.serve L self conditional input).Mild := by
  rcases input with (handle | x | x | e | _) | (n | _)
  · simp only [serve, receive, onSubscribe, hsource]
    exact .up rfl rfl
  · exact onNext_mild L hsource x
  · exact onOffer_mild L hsource conditional x
  · exact onError_mild L hsource e
  · exact onComplete_mild L hsource
  · exact onRequest_mild L hsource n
  · exact onCancel_mild L hsource hcancels

/-- A tap with a source goes on. -/
theorem resume_mild (hsource : t.source = some h) {r : Resume α ε} (hr : r.isHarmless = true)
    (b : Bool) : (t.resume L r b).Mild := by
  cases r with
  | leave => exact finish_mild
  | ignored => exact finish_mild.after _
  | passedError e => exact wrapUp_mild L hsource _ _
  | passedComplete => exact wrapUp_mild L hsource _ _
  | offered x =>
      cases b with
      | true => exact consumed_mild L hsource x
      | false => exact .answer rfl
  | sent x => exact consumed_mild L hsource x
  | _ => cases hr

/-! ## Lives -/

theorem runHook_deeds_ne_nil {k : Hook α ε} {ok : Tap σ → Turn σ α ε}
    {failed : Tap σ → Fault → Turn σ α ε} : (t.runHook L k ok failed).deeds ≠ [] :=
  List.cons_ne_nil _ _

/-- A tap that goes on does something that can be seen. -/
theorem resume_deeds_ne_nil (r : Resume α ε) (b : Bool) : (t.resume L r b).deeds ≠ [] := by
  cases r with
  | offered x =>
      cases b with
      | true => exact runHook_deeds_ne_nil L
      | false => exact List.cons_ne_nil _ _
  | released =>
      simp only [resume, released, runFinally]
      split
      · exact List.cons_ne_nil _ _
      · exact runHook_deeds_ne_nil L
  | _ => exact List.cons_ne_nil _ _

/-- In every step of its life a tap does something that can be seen. -/
theorem Life.Step.deeds_ne {self : Handle} {conditional : Bool} {manners : Life.Manners σ α ε}
    {now next : Life σ α ε} (hstep : Life.Step Ls self conditional manners now next) :
    next.deeds ≠ now.deeds := by
  intro heq
  cases hstep with
  | serve => simp [Life.take] at heq
  | resume ambient b => simp [Life.take, resume_deeds_ne_nil] at heq

namespace Life

variable {l : Life σ α ε} {place : Nat} {turn : Turn σ α ε} {pending : List (Resume α ε)}
  {deeds : List (Deed α ε)}

/-- Nothing has come from the source yet. -/
structure Untouched (l : Life σ α ε) : Prop where
  source : l.tap.source = none
  attached : l.tap.attached = true
  pending : l.pending = []
  heard : heard l.deeds = []
  sent : sent l.deeds = []

/-- The source gave its handle before anything else, and the tap has handed out itself before
anything else, and no fault. -/
structure Running (place : Nat) (h : Handle) (l : Life σ α ε) : Prop where
  source : l.tap.source = some h
  heard : ∃ rest, heard l.deeds = .subscribe h :: rest
  sent : ∃ rest, sent l.deeds = .subscribe (.tap place) :: rest
  harmless : ∀ r ∈ l.pending, r.isHarmless = true
  honest : ∀ s ∈ Tap.sent l.deeds, s.fault? = none

/-- A tap that lives has been set up. -/
theorem Lived.notSetUp_not_mem {self : Handle} {conditional : Bool}
    {manners : Life.Manners σ α ε} {Ls : Context → Listener σ α ε}
    (hl : Lived Ls self conditional manners l) (f : Fault) : .notSetUp f ∉ l.deeds := by
  refine hl.invariant (motive := fun l => .notSetUp f ∉ l.deeds) ?_ ?_
  · rintro first ⟨-, -, hdeeds | hdeeds⟩ <;> simp [hdeeds]
  · intro now next hnow hstep
    cases hstep with
    | serve =>
        dsimp only at hnow
        simp [Life.take, hnow, Turn.notSetUp_not_mem]
    | resume ambient b =>
        dsimp only at hnow
        simp [Life.take, hnow, Turn.notSetUp_not_mem]

/-- The turn ends with the cancellation of the source, whose handle came first. -/
def GivesUp (l : Life σ α ε) (turn : Turn σ α ε) : Prop :=
  ∃ h r rest, turn.next = .up h .cancel r ∧ Tap.heard l.deeds = .subscribe h :: rest

/-- The tap has not given up its source. -/
def Unharmed (place : Nat) (l : Life σ α ε) : Prop := l.Untouched ∨ ∃ h, l.Running place h

theorem Newborn.unharmed (h : l.Newborn) : l.Unharmed place := by
  obtain ⟨⟨listener, context, htap⟩, hpending, hdeeds⟩ := h
  refine .inl ⟨by rw [htap]; rfl, by rw [htap]; rfl, hpending, ?_, ?_⟩ <;>
    rcases hdeeds with hdeeds | hdeeds <;> rw [hdeeds] <;> rfl

theorem Unharmed.honest (hl : l.Unharmed place) : ∀ s ∈ Tap.sent l.deeds, s.fault? = none := by
  rcases hl with hl | ⟨h, hl⟩
  · simp [hl.sent]
  · exact hl.honest

theorem Unharmed.running (hl : l.Unharmed place) (hsource : l.tap.source ≠ none) :
    ∃ h, l.Running place h := hl.resolve_left fun hnone => hsource hnone.source

namespace Running

theorem received (hl : Running place h ⟨t, pending, deeds⟩) (input : Input α ε) :
    Running place h ⟨t, pending, deeds ++ [.received input]⟩ where
  source := hl.source
  heard := by
    obtain ⟨rest, hrest⟩ := hl.heard
    dsimp only at hrest
    simp [hrest]
  sent := by simpa [Deed.sent?] using hl.sent
  harmless := hl.harmless
  honest := by simpa [Deed.sent?] using hl.honest

theorem tail {r : Resume α ε} (hl : Running place h ⟨t, r :: pending, deeds⟩) :
    Running place h ⟨t, pending, deeds⟩ where
  source := hl.source
  heard := hl.heard
  sent := hl.sent
  harmless := fun r hr => hl.harmless r (List.mem_cons_of_mem _ hr)
  honest := hl.honest

/-- A mild turn of a tap with a source. -/
theorem take (hl : l.Running place h) (hturn : turn.Mild) (hkeep : turn.tap.source = some h) :
    (l.take turn).Running place h ∨ l.GivesUp turn := by
  have hgoOn : (∀ r ∈ turn.next.resume?, r.isHarmless = true) →
      (∀ s ∈ Tap.sent turn.next.deeds, s.fault? = none) → (l.take turn).Running place h := by
    intro hresume hsent
    obtain ⟨rest, hrest⟩ := hl.heard
    obtain ⟨later, hlater⟩ := hl.sent
    refine ⟨hkeep, ⟨rest, by simp [Life.take, hrest]⟩, ⟨later ++ Tap.sent turn.next.deeds, ?_⟩,
      ?_, ?_⟩
    · simp [Life.take, hlater]
    · intro r hr
      rcases List.mem_append.mp hr with hr | hr
      · exact hresume r (Option.mem_toList.mp hr)
      · exact hl.harmless r hr
    · intro s hs
      simp only [Life.take, sent_append, sent_turn_deeds] at hs
      rcases List.mem_append.mp hs with hs | hs
      · exact hl.honest s hs
      · exact hsent s hs
  cases hturn with
  | answer hnext =>
      refine .inl (hgoOn ?_ ?_)
      · simp [hnext, Next.resume?]
      · simp [hnext, Next.deeds, Deed.sent?]
  | down hnext hr hs =>
      refine .inl (hgoOn ?_ ?_)
      · simpa [hnext, Next.resume?] using hr
      · simpa [hnext, Next.deeds, Deed.sent?] using hs
  | up hnext hr =>
      refine .inl (hgoOn ?_ ?_)
      · simpa [hnext, Next.resume?] using hr
      · simp [hnext, Next.deeds]
  | cancel hnext hsource =>
      obtain ⟨rest, hrest⟩ := hl.heard
      rw [hkeep, Option.some.injEq] at hsource
      subst hsource
      exact .inr ⟨_, _, rest, hnext, hrest⟩

end Running

/-- The handle arrives: it is kept, and the tap hands out itself or gives up the source at once. -/
theorem Untouched.subscribe (hl : Untouched ⟨t, pending, deeds⟩) (handle : Handle) :
    (take ⟨t, pending, deeds ++ [.received (.signal (.subscribe handle))]⟩
        (t.onSubscribe L (.tap place) handle)).Running place handle ∨
      GivesUp ⟨t, pending, deeds ++ [.received (.signal (.subscribe handle))]⟩
        (t.onSubscribe L (.tap place) handle) := by
  have hnone : t.source = none := hl.source
  have hattached : t.attached = true := hl.attached
  have hpending : pending = [] := hl.pending
  have hheard : Tap.heard deeds = [] := hl.heard
  have hsent : Tap.sent deeds = [] := hl.sent
  unfold onSubscribe runHook
  rw [hnone]
  rcases L.run t.listener (.subscription : Hook α ε) with ⟨listener, _ | cause⟩
  · left
    simp only [hattached, ↓reduceIte]
    constructor <;> simp [Life.take, Tap.down, Turn.after, Turn.deeds, Next.deeds, Next.resume?,
      Deed.sent?, Deed.heard?, Signal.fault?, Resume.isHarmless, hheard, hsent, hpending]
  · refine .inr ⟨handle, _, [], rfl, ?_⟩
    simp [hheard, Deed.heard?]

/-- A tap that has not given up its source is called, first of all with a handle. -/
theorem Unharmed.serve (hl : Unharmed place ⟨t, pending, deeds⟩) (conditional : Bool)
    {input : Input α ε} (hfirst : t.source = none → input.isSubscribe = true)
    (hcancels : (t.serve L (.tap place) conditional input).Cancels) :
    (take ⟨t, pending, deeds ++ [.received input]⟩
        (t.serve L (.tap place) conditional input)).Unharmed place ∨
      GivesUp ⟨t, pending, deeds ++ [.received input]⟩
        (t.serve L (.tap place) conditional input) := by
  rcases hl with hl | ⟨h, hl⟩
  · have hinput := hfirst hl.source
    rcases input with (handle | x | x | e | _) | c
    case signal.subscribe =>
      exact (hl.subscribe L handle).imp_left fun hnow => .inr ⟨handle, hnow⟩
    all_goals cases hinput
  · have hkeep := serve_settled L (.tap place) conditional input hl.source
    have hturn := serve_mild L hl.source (.tap place) conditional input hcancels
    exact ((hl.received input).take hturn (hkeep.source.trans hl.source)).imp_left
      fun hnow => .inr ⟨h, hnow⟩

/-- A tap that has not given up its source goes on. -/
theorem Unharmed.resume {r : Resume α ε} (hl : Unharmed place ⟨t, r :: pending, deeds⟩) (b : Bool) :
    (take ⟨t, pending, deeds⟩ (t.resume L r b)).Unharmed place ∨
      GivesUp ⟨t, pending, deeds⟩ (t.resume L r b) := by
  rcases hl with hl | ⟨h, hl⟩
  · cases hl.pending
  · have hkeep := resume_settled L (t := t) r b
    have hturn := resume_mild L hl.source (hl.harmless r List.mem_cons_self) b
    exact (hl.tail.take hturn (hkeep.source.trans hl.source)).imp_left fun hnow => .inr ⟨h, hnow⟩

end Life

end Wiretap.Tap

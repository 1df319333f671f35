import Wiretap.Proofs.Tap.Life

/-!
# The context of a tap

The listener of a tap augments the context of the receiver once, when the tap is set up. What comes
of that is the context of the tap from then on, whatever it is called with.
-/

namespace Wiretap.Tap

variable {K : Kinds} {σ α ε : Type} {t : Tap σ} (L : Listener σ α ε) {Ls : Context → Listener σ α ε}

/-- The context of the receiver is augmented with this result. -/
def Augments (listener : σ) (context augmented : Context) : Prop :=
  (L.run listener .first).2 = none ∧
    (L.augment (L.run listener .first).1 context).2 = .ok augmented

theorem setUp_augments {listener : σ} {context : Context} {acts : List (Act α ε)}
    (h : setUp L listener context = (acts, .ok t)) : Augments L listener context t.context := by
  unfold setUp at h
  dsimp only at h
  split at h
  · cases h
  next hfirst =>
    split at h
    · cases h
    next augmented haugment =>
      cases h
      exact ⟨hfirst, haugment⟩

/-- Augmenting leaves no choice. -/
theorem Augments.unique {listener : σ} {context first second : Context}
    (hfirst : Augments L listener context first) (hsecond : Augments L listener context second) :
    first = second := Except.ok.inj (hfirst.2.symm.trans hsecond.2)

/-! ## The context stays -/

theorem cancelSource_context {r : Resume α ε} {goOn : Turn σ α ε}
    (hgoOn : goOn.tap.context = t.context) : (t.cancelSource r goOn).tap.context = t.context := by
  unfold cancelSource
  split
  · rfl
  · exact hgoOn

theorem terminate_context (e : TapError ε) :
    (t.terminate e : Turn σ α ε).tap.context = t.context := by
  unfold terminate
  split <;> rfl

theorem runHook_context {h : Hook α ε} {ok : Tap σ → Turn σ α ε}
    {failed : Tap σ → Fault → Turn σ α ε}
    (hok : ∀ u : Tap σ, u.context = t.context → (ok u).tap.context = t.context)
    (hfailed : ∀ (u : Tap σ) f, u.context = t.context → (failed u f).tap.context = t.context) :
    (t.runHook L h ok failed).tap.context = t.context := by
  unfold runHook
  rcases L.run t.listener h with ⟨listener, _ | cause⟩
  · exact hok _ rfl
  · exact hfailed _ _ rfl

theorem runFinally_context {ending : Ending} {ok : Tap σ → Turn σ α ε}
    {failed : Tap σ → Fault → Turn σ α ε}
    (hok : ∀ u : Tap σ, u.context = t.context → (ok u).tap.context = t.context)
    (hfailed : ∀ (u : Tap σ) f, u.context = t.context → (failed u f).tap.context = t.context) :
    (t.runFinally L ending ok failed).tap.context = t.context := by
  unfold runFinally
  split
  · exact hok t rfl
  · exact runHook_context L (t := { t with finalized := true }) hok hfailed

theorem failed_context (f : Fault) : (t.failed L f).tap.context = t.context :=
  terminate_context (t := { t with listener := L.notice t.listener f }) (.listener f)

theorem fail_context (f : Fault) : (t.fail L f).tap.context = t.context :=
  cancelSource_context (failed_context L f)

theorem spoiled_context (f : Fault) (e : ε) : (t.spoiled L f e).tap.context = t.context :=
  terminate_context (t := { t with listener := L.notice t.listener f }) (.multiple f e)

theorem wrapUp_context {h : Hook α ε} {ending : Ending} :
    (t.wrapUp L h ending).tap.context = t.context := by
  unfold wrapUp
  refine runHook_context L (fun u hu => ?_) fun _ _ hu => hu
  rw [← hu]
  exact runFinally_context L (fun _ hv => hv) fun _ _ hv => hv

theorem released_context : (t.released L).tap.context = t.context :=
  runFinally_context L (fun _ hu => hu) fun _ f hu => (fail_context L f).trans hu

theorem consumed_context (x : α) : (t.consumed L x).tap.context = t.context :=
  runHook_context L (fun _ hu => hu) fun _ f hu => (fail_context L f).trans hu

theorem malformedNext_context (x : α) : (t.malformedNext L x).tap.context = t.context :=
  runHook_context L (fun _ hu => hu) fun _ _ hu => hu

theorem onSubscribe_context (self h : Handle) :
    (t.onSubscribe L self h).tap.context = t.context := by
  unfold onSubscribe
  split
  · rfl
  · refine runHook_context L (t := { t with source := some h }) (fun u hu => ?_) fun _ _ hu => hu
    split <;> exact hu

theorem onNext_context (x : α) : (t.onNext L x).tap.context = t.context := by
  unfold onNext
  split
  · exact malformedNext_context L x
  · refine runHook_context L (fun u hu => ?_) fun _ f hu => (fail_context L f).trans hu
    split <;> exact hu

theorem onOffer_context (conditional : Bool) (x : α) :
    (t.onOffer L conditional x).tap.context = t.context := by
  unfold onOffer
  split
  · exact malformedNext_context L x
  · split
    · split <;> rfl
    · rfl

theorem onError_context (e : ε) : (t.onError L e).tap.context = t.context := by
  unfold onError
  split
  · exact runHook_context L (fun _ hu => hu) fun _ _ hu => hu
  · refine runHook_context L (t := { t with done := true }) (fun u hu => ?_) fun u f hu => ?_
    · dsimp only
      split
      · exact hu
      · exact (wrapUp_context (t := { u with attached := false }) L).trans hu
    · exact (cancelSource_context (spoiled_context L f e)).trans hu

theorem onComplete_context : (t.onComplete L).tap.context = t.context := by
  unfold onComplete
  split
  · exact runHook_context L (fun _ hu => hu) fun _ _ hu => hu
  · refine runHook_context L (t := { t with done := true }) (fun u hu => ?_) fun u f hu => ?_
    · dsimp only
      split
      · exact hu
      · exact (wrapUp_context (t := { u with attached := false }) L).trans hu
    · exact (fail_context L f).trans hu

theorem onRequest_context (n : UInt64) : (t.onRequest L n).tap.context = t.context := by
  unfold onRequest
  split
  · refine runHook_context L (fun u hu => ?_) fun _ f hu => (fail_context L f).trans hu
    split <;> exact hu
  · rfl

theorem onCancel_context : (t.onCancel L).tap.context = t.context :=
  runHook_context L (fun _ hu => (cancelSource_context (released_context L)).trans hu)
    fun _ f hu => (failed_context L f).trans hu

/-- A call leaves the context as it is. -/
theorem serve_context (self : Handle) (conditional : Bool) (input : Input α ε) :
    (t.serve L self conditional input).tap.context = t.context := by
  rcases input with (h | x | x | e | _) | (n | _)
  · exact onSubscribe_context L self h
  · exact onNext_context L x
  · exact onOffer_context L conditional x
  · exact onError_context L e
  · exact onComplete_context L
  · exact onRequest_context L n
  · exact onCancel_context L

/-- So does the return of a neighbour. -/
theorem resume_context (r : Resume α ε) (b : Bool) :
    (t.resume L r b).tap.context = t.context := by
  cases r with
  | refused f =>
      simp only [resume, refused, report]
      split <;> rfl
  | failed f => exact failed_context L f
  | spoiled f e => exact spoiled_context L f e
  | passedError e => exact wrapUp_context L
  | passedComplete => exact wrapUp_context L
  | sent x => exact consumed_context L x
  | released => exact released_context L
  | offered x =>
      cases b with
      | true => exact consumed_context L x
      | false => rfl
  | _ => rfl

/-- In its life a tap keeps its context. -/
theorem Life.Step.context {self : Handle} {conditional : Bool} {manners : Life.Manners σ α ε}
    {now next : Life σ α ε} (h : Life.Step Ls self conditional manners now next) :
    next.tap.context = now.tap.context := by
  cases h with
  | serve ambient => exact serve_context (Ls ambient) _ _ _
  | resume ambient b => exact resume_context (Ls ambient) _ b

end Wiretap.Tap

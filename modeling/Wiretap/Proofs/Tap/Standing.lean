import Wiretap.Proofs.Tap.Epilogue

/-!
# How a tap stands

Of its subscription a tap remembers the handle of the source, whether the receiver is still
attached, whether the end has come, and whether the last hook has been settled. Nothing of this is
taken back. Between calls the receiver is attached just as long as neither the end has come nor the
last hook has been settled. In the middle of a call it may be attached longer: then the tap waits
for the cancellation of the source, and lets the receiver go when that returns.
-/

namespace Wiretap

variable {K : Kinds} {σ α ε : Type}

namespace Tap

/-- What a tap remembers of its subscription. -/
structure Standing where
  /-- The handle of the source. -/
  source : Option Handle
  /-- Is the receiver still attached? -/
  attached : Bool
  /-- Has the subscription ended? -/
  done : Bool
  /-- Has the last hook been settled? -/
  finalized : Bool

namespace Standing

/-- The end has come, or the last hook has been settled. -/
def Over (s : Standing) : Prop := s.done = true ∨ s.finalized = true

/-- Nothing has been taken back on the way from `s` to `s'`. -/
structure Onward (s s' : Standing) : Prop where
  source : ∀ h, s.source = some h → s'.source = some h
  detached : s.attached = false → s'.attached = false
  done : s.done = true → s'.done = true
  finalized : s.finalized = true → s'.finalized = true

namespace Onward

variable {s s' s'' : Standing}

theorem refl (s : Standing) : s.Onward s := ⟨fun _ => id, id, id, id⟩

theorem trans (h : s.Onward s') (h' : s'.Onward s'') : s.Onward s'' where
  source := fun handle hsource => h'.source handle (h.source handle hsource)
  detached := fun hdetached => h'.detached (h.detached hdetached)
  done := fun hdone => h'.done (h.done hdone)
  finalized := fun hfinalized => h'.finalized (h.finalized hfinalized)

theorem keeps_over (h : s.Onward s') (hover : s.Over) : s'.Over := hover.imp h.done h.finalized

end Onward

end Standing

/-- How a tap stands. The listener and the context have no part in it. -/
def standing (t : Tap σ) : Standing where
  source := t.source
  attached := t.attached
  done := t.done
  finalized := t.finalized

/-- What a turn can make of a tap that has stood like this. -/
inductive Turn.Leaves (s : Standing) (s' : Standing) (next : Next α ε) : Prop
  /-- The flags are as before, and no ending has been passed on. -/
  | same (hattached : s'.attached = s.attached) (hover : s'.Over → s.Over)
    (hpassed : ∀ r ∈ next.resume?, r.isPassed = false)
  /-- The receiver has been let go at the end. -/
  | over (hdetached : s'.attached = false) (hover : s'.Over)
  /-- The end has been left to come when a cancellation returns. -/
  | doomed (hattached : s'.attached = s.attached) (hfatal : next.isFatal = true)

/-- The law of a turn of a tap that has stood like this. -/
structure Turn.Upholds (s : Standing) (turn : Turn σ α ε) : Prop where
  onward : s.Onward turn.tap.standing
  leaves : Turn.Leaves s turn.tap.standing turn.next

variable {s : Standing} {t : Tap σ} {turn : Turn σ α ε}

/-- An act changes nothing. -/
theorem Turn.Upholds.after (h : turn.Upholds s) (act : Act α ε) : (turn.after act).Upholds s :=
  ⟨h.onward, h.leaves⟩

/-- A turn that only calls a neighbour or answers. -/
theorem next_upholds {next : Next α ε} (hs : t.standing = s)
    (hpassed : ∀ r ∈ next.resume?, r.isPassed = false) :
    (⟨[], t, next⟩ : Turn σ α ε).Upholds s := by
  subst hs
  exact ⟨.refl _, .same rfl id hpassed⟩

theorem reply_upholds (b : Bool) (hs : t.standing = s) : (t.reply b : Turn σ α ε).Upholds s :=
  next_upholds hs fun _ hr => nomatch hr

theorem down_upholds {signal : Signal α (TapError ε)} {r : Resume α ε} (hr : r.isPassed = false)
    (hs : t.standing = s) : (t.down signal r).Upholds s :=
  next_upholds hs (by simpa [Next.resume?] using hr)

theorem up_upholds {h : Handle} {c : Control} {r : Resume α ε} (hr : r.isPassed = false)
    (hs : t.standing = s) : (⟨[], t, .up h c r⟩ : Turn σ α ε).Upholds s :=
  next_upholds hs (by simpa [Next.resume?] using hr)

theorem dropItem_upholds (x : α) (hs : t.standing = s) :
    (t.dropItem x : Turn σ α ε).Upholds s :=
  (reply_upholds true hs).after _

theorem dropError_upholds (e : Undelivered ε) (hs : t.standing = s) :
    (t.dropError e : Turn σ α ε).Upholds s :=
  (reply_upholds true hs).after _

theorem terminate_upholds {e : TapError ε} (honward : s.Onward t.standing) :
    (t.terminate e : Turn σ α ε).Upholds s := by
  have hended : t.standing.Onward ⟨t.source, false, true, true⟩ :=
    ⟨fun _ => id, fun _ => rfl, fun _ => rfl, fun _ => rfl⟩
  unfold terminate
  split <;> exact ⟨honward.trans hended, .over rfl (.inl rfl)⟩

variable (L : Listener σ α ε) {Ls : Context → Listener σ α ε}

theorem failed_upholds {f : Fault} (honward : s.Onward t.standing) :
    (t.failed L f).Upholds s := by
  refine .after ?_ _
  exact terminate_upholds honward

theorem spoiled_upholds {f : Fault} {e : ε} (honward : s.Onward t.standing) :
    (t.spoiled L f e).Upholds s := by
  refine .after ?_ _
  exact terminate_upholds honward

theorem cancelSource_upholds {r : Resume α ε} {goOn : Turn σ α ε} (honward : s.Onward t.standing)
    (hattached : t.attached = s.attached) (hr : r.isFatal = true) (hgoOn : goOn.Upholds s) :
    (t.cancelSource r goOn).Upholds s := by
  unfold cancelSource
  split
  · exact ⟨honward, .doomed hattached (by simpa [Next.isFatal, Next.resume?] using hr)⟩
  · exact hgoOn

theorem fail_upholds {f : Fault} (honward : s.Onward t.standing)
    (hattached : t.attached = s.attached) : (t.fail L f).Upholds s :=
  cancelSource_upholds honward hattached rfl (failed_upholds L honward)

theorem runHook_upholds {h : Hook α ε} {ok : Tap σ → Turn σ α ε}
    {failed : Tap σ → Fault → Turn σ α ε}
    (hok : ∀ listener, (ok { t with listener := listener }).Upholds s)
    (hfailed : ∀ listener f, (failed { t with listener := listener } f).Upholds s) :
    (t.runHook L h ok failed).Upholds s := by
  unfold runHook
  rcases L.run t.listener h with ⟨listener, _ | cause⟩
  · exact (hok listener).after _
  · exact (hfailed listener _).after _

theorem dropFault_upholds {f : Fault} {goOn : Tap σ → Turn σ α ε}
    (hgoOn : ∀ listener, (goOn { t with listener := listener }).Upholds s) :
    (t.dropFault L f goOn).Upholds s :=
  ((hgoOn _).after _).after _

theorem dropFault_finish_upholds {f : Fault} (hs : t.standing = s) :
    (t.dropFault L f finish : Turn σ α ε).Upholds s := by
  apply dropFault_upholds
  exact fun listener => reply_upholds true hs

/-! ## Signals and controls -/

theorem malformedNext_upholds (x : α) : (t.malformedNext L x).Upholds t.standing := by
  apply runHook_upholds
  · exact fun listener => dropItem_upholds x rfl
  · intro listener f
    apply dropFault_upholds
    exact fun listener => dropItem_upholds x rfl

theorem onSubscribe_upholds (self h : Handle) : (t.onSubscribe L self h).Upholds t.standing := by
  unfold onSubscribe
  split
  · exact up_upholds rfl rfl
  next hsource =>
    have hgiven : ∀ (listener : σ) (next : Next α ε), (∀ r ∈ next.resume?, r.isPassed = false) →
        (⟨[], { t with listener := listener, source := some h }, next⟩ : Turn σ α ε).Upholds
          t.standing :=
      fun listener next hpassed =>
        ⟨⟨fun first hfirst => by simp [standing, hsource] at hfirst, id, id, id⟩,
          .same rfl id hpassed⟩
    apply runHook_upholds
    · intro listener
      dsimp only
      split <;> apply hgiven <;> simp [Next.resume?, Resume.isPassed]
    · intro listener f
      apply hgiven
      simp [Next.resume?, Resume.isPassed]

theorem onNext_upholds (x : α) : (t.onNext L x).Upholds t.standing := by
  unfold onNext
  split
  · exact malformedNext_upholds L x
  · apply runHook_upholds
    · intro listener
      dsimp only
      split
      · exact down_upholds rfl rfl
      · exact dropItem_upholds x rfl
    · exact fun listener f => fail_upholds L (.refl _) rfl

theorem consumed_upholds (x : α) : (t.consumed L x).Upholds t.standing := by
  apply runHook_upholds
  · exact fun listener => reply_upholds true rfl
  · exact fun listener f => fail_upholds L (.refl _) rfl

theorem onOffer_upholds (conditional : Bool) (x : α) :
    (t.onOffer L conditional x).Upholds t.standing := by
  unfold onOffer
  split
  · exact malformedNext_upholds L x
  · split
    · split <;> exact down_upholds rfl rfl
    · exact dropItem_upholds x rfl

/-- Once the receiver has been let go, only the last hook is left. -/
theorem wrapUp_upholds {h : Hook α ε} {ending : Ending} (honward : s.Onward t.standing)
    (hdetached : t.attached = false) (hover : t.standing.Over) :
    (t.wrapUp L h ending).Upholds s := by
  have hfinish : ∀ u : Tap σ, t.standing.Onward u.standing →
      (u.finish : Turn σ α ε).Upholds s := fun u hu =>
    ⟨honward.trans hu, .over (hu.detached hdetached) (hu.keeps_over hover)⟩
  have hdropped : ∀ (u : Tap σ) f, t.standing.Onward u.standing →
      (u.dropFault L f finish : Turn σ α ε).Upholds s := fun u f hu =>
    dropFault_upholds L fun listener => hfinish { u with listener := listener } hu
  have hsettled : ∀ listener : σ,
      t.standing.Onward ({ t with listener := listener, finalized := true } : Tap σ).standing :=
    fun listener => ⟨fun _ => id, id, id, fun _ => rfl⟩
  unfold wrapUp
  apply runHook_upholds
  · intro listener
    unfold runFinally
    split
    · exact hfinish _ (.refl _)
    · apply runHook_upholds
      · exact fun listener' => hfinish _ (hsettled listener')
      · exact fun listener' f => hdropped _ f (hsettled listener')
  · exact fun listener f => hdropped _ f (.refl _)

theorem onError_upholds (e : ε) : (t.onError L e).Upholds t.standing := by
  unfold onError
  split
  · apply runHook_upholds
    · exact fun listener => dropError_upholds _ rfl
    · intro listener f
      apply dropFault_upholds
      exact fun listener => dropError_upholds _ rfl
  · have hended : ∀ listener : σ,
        t.standing.Onward ({ t with listener := listener, done := true } : Tap σ).standing :=
      fun listener => ⟨fun _ => id, id, fun _ => rfl, id⟩
    have hdetached : ∀ listener : σ, t.standing.Onward
        ({ t with listener := listener, attached := false, done := true } : Tap σ).standing :=
      fun listener => ⟨fun _ => id, fun _ => rfl, fun _ => rfl, id⟩
    apply runHook_upholds
    · intro listener
      dsimp only
      split
      · exact ⟨hdetached listener, .over rfl (.inl rfl)⟩
      · exact (wrapUp_upholds L (hdetached listener) rfl (.inl rfl)).after _
    · exact fun listener f =>
        cancelSource_upholds (hended listener) rfl rfl (spoiled_upholds L (hended listener))

theorem onComplete_upholds : (t.onComplete L).Upholds t.standing := by
  unfold onComplete
  split
  · apply runHook_upholds
    · exact fun listener => reply_upholds true rfl
    · exact fun listener f => dropFault_finish_upholds L rfl
  · have hdetached : ∀ listener : σ, t.standing.Onward
        ({ t with listener := listener, attached := false, done := true } : Tap σ).standing :=
      fun listener => ⟨fun _ => id, fun _ => rfl, fun _ => rfl, id⟩
    apply runHook_upholds
    · intro listener
      dsimp only
      split
      · exact ⟨hdetached listener, .over rfl (.inl rfl)⟩
      · exact wrapUp_upholds L (hdetached listener) rfl (.inl rfl)
    · exact fun listener f => fail_upholds L ⟨fun _ => id, id, fun _ => rfl, id⟩ rfl

theorem onRequest_upholds (n : UInt64) : (t.onRequest L n).Upholds t.standing := by
  unfold onRequest
  split
  · apply runHook_upholds
    · intro listener
      dsimp only
      split
      · exact up_upholds rfl rfl
      · exact reply_upholds true rfl
    · exact fun listener f => fail_upholds L (.refl _) rfl
  · exact dropError_upholds _ rfl

theorem released_upholds (hs : t.standing = s) : (t.released L).Upholds s := by
  subst hs
  have hsettled : ∀ listener : σ,
      t.standing.Onward ({ t with listener := listener, finalized := true } : Tap σ).standing :=
    fun listener => ⟨fun _ => id, id, id, fun _ => rfl⟩
  have hreleased : ∀ u : Tap σ, t.standing.Onward u.standing → u.finalized = true →
      (finish { u with attached := false } : Turn σ α ε).Upholds t.standing :=
    fun u hu hfinalized =>
      ⟨⟨hu.source, fun _ => rfl, hu.done, hu.finalized⟩, .over rfl (.inr hfinalized)⟩
  unfold released runFinally
  split
  next hfinalized => exact hreleased t (.refl _) hfinalized
  · apply runHook_upholds
    · exact fun listener => hreleased _ (hsettled listener) rfl
    · exact fun listener f => fail_upholds L (hsettled listener) rfl

theorem onCancel_upholds : (t.onCancel L).Upholds t.standing := by
  apply runHook_upholds
  · intro listener
    unfold cancelSource
    split
    · exact up_upholds rfl rfl
    · exact released_upholds L rfl
  · exact fun listener f => failed_upholds L (.refl _)

/-- Whatever a tap is called with. -/
theorem serve_upholds (self : Handle) (conditional : Bool) (input : Input α ε) :
    (t.serve L self conditional input).Upholds t.standing := by
  rcases input with (h | x | x | e | _) | (n | _)
  · exact onSubscribe_upholds L self h
  · exact onNext_upholds L x
  · exact onOffer_upholds L conditional x
  · exact onError_upholds L e
  · exact onComplete_upholds L
  · exact onRequest_upholds L n
  · exact onCancel_upholds L

theorem refused_upholds (f : Fault) : (t.refused L f).Upholds t.standing := by
  have hended : t.standing.Onward ⟨t.source, false, true, true⟩ :=
    ⟨fun _ => id, fun _ => rfl, fun _ => rfl, fun _ => rfl⟩
  refine .after ?_ _
  dsimp only
  split <;> exact ⟨hended, .over rfl (.inl rfl)⟩

/-- Wherever a tap resumes. After an ending has been passed on the receiver has been let go. -/
theorem resume_upholds (b : Bool) {r : Resume α ε}
    (hpassed : r.isPassed = true → t.attached = false ∧ t.standing.Over) :
    (t.resume L r b).Upholds t.standing := by
  cases r with
  | leave => exact reply_upholds true rfl
  | ignored => exact (reply_upholds true rfl).after _
  | refused f => exact refused_upholds L f
  | excused f => exact down_upholds rfl rfl
  | failed f => exact failed_upholds L (.refl _)
  | spoiled f e => exact spoiled_upholds L (.refl _)
  | passedError e => exact wrapUp_upholds L (.refl _) (hpassed rfl).1 (hpassed rfl).2
  | passedComplete => exact wrapUp_upholds L (.refl _) (hpassed rfl).1 (hpassed rfl).2
  | offered x =>
      cases b with
      | true => exact consumed_upholds L x
      | false => exact reply_upholds false rfl
  | sent x => exact consumed_upholds L x
  | released => exact released_upholds L rfl

theorem resume_detached (b : Bool) {r : Resume α ε} (hr : r.isFatal = true) :
    (t.resume L r b).tap.attached = false := by
  cases r with
  | failed f => exact terminate_attached _
  | spoiled f e => exact terminate_attached _
  | _ => cases hr

/-! ## Along a life -/

/-- How a tap stands with the calls that it has made and that have not returned. -/
structure Standing.Sound (s : Standing) (pending : List (Resume α ε)) : Prop where
  /-- The receiver is let go only at the end. -/
  shut : s.attached = false → s.Over
  /-- At the end it has been let go, or will be when a cancellation returns. -/
  owed : s.attached = true → s.Over → ∃ r ∈ pending, r.isFatal = true
  /-- It has been let go when an ending has been passed on. -/
  passed : ∀ r ∈ pending, r.isPassed = true → s.attached = false

namespace Standing.Sound

variable {pending later : List (Resume α ε)}

/-- A turn. The calls that go on waiting are all of them, or all but one that has returned. -/
theorem take (h : s.Sound pending) (hturn : turn.Upholds s) (hlater : ∀ r ∈ later, r ∈ pending)
    (hkept : turn.tap.attached = true → ∀ r ∈ pending, r.isFatal = true → r ∈ later) :
    turn.tap.standing.Sound (turn.next.resume?.toList ++ later) := by
  have hpassed : ∀ r ∈ later, r.isPassed = true → turn.tap.attached = false := fun r hr hpassed =>
    hturn.onward.detached (h.passed r (hlater r hr) hpassed)
  obtain ⟨hattached, hover, hnone⟩ | ⟨hdetached, hover⟩ | ⟨hattached, hfatal⟩ := hturn.leaves
  · refine ⟨fun hgone => ?_, fun hthere hend => ?_, fun r hr hp => ?_⟩
    · exact hturn.onward.keeps_over (h.shut (hattached.symm.trans hgone))
    · obtain ⟨r, hr, hfatal⟩ := h.owed (hattached.symm.trans hthere) (hover hend)
      exact ⟨r, List.mem_append_right _ (hkept hthere r hr hfatal), hfatal⟩
    · rcases List.mem_append.mp hr with hnew | hold
      · rw [hnone r (by simpa using hnew)] at hp
        cases hp
      · exact hpassed r hold hp
  · refine ⟨fun _ => hover, fun hthere => ?_, fun _ _ _ => hdetached⟩
    rw [hdetached] at hthere
    cases hthere
  · obtain ⟨r, hr, hr'⟩ : ∃ r ∈ turn.next.resume?, r.isFatal = true := by
      simpa [Next.isFatal, Option.any_eq_true] using hfatal
    refine ⟨fun hgone => ?_, fun _ _ => ?_, fun r' hmem hp => ?_⟩
    · exact hturn.onward.keeps_over (h.shut (hattached.symm.trans hgone))
    · exact ⟨r, List.mem_append_left _ (by simpa using hr), hr'⟩
    · rcases List.mem_append.mp hmem with hnew | hold
      · obtain rfl : r' = r := by simpa [Option.mem_def.mp hr] using hnew
        cases r' with
        | failed f => cases hp
        | spoiled f e => cases hp
        | _ => cases hr'
      · exact hpassed r' hold hp

theorem not_over (h : s.Sound ([] : List (Resume α ε))) : s.attached = false ↔ s.Over := by
  refine ⟨h.shut, fun hover => ?_⟩
  by_contra hattached
  obtain ⟨r, hr, -⟩ := h.owed (by simpa using hattached) hover
  cases hr

end Standing.Sound

namespace Life

variable {self : Handle} {conditional : Bool} {manners : Manners σ α ε} {l l' : Life σ α ε}

/-- Whatever happens to a tap, nothing is taken back, and it goes on standing as it should. -/
theorem Step.sound (hstep : Step Ls self conditional manners l l')
    (h : l.tap.standing.Sound l.pending) :
    l.tap.standing.Onward l'.tap.standing ∧ l'.tap.standing.Sound l'.pending := by
  cases hstep with
  | @serve t pending deeds input ambient hmanners =>
      have hturn := serve_upholds (t := t) (Ls ambient) self conditional input
      exact ⟨hturn.onward, h.take hturn (fun _ => id) fun _ _ hr _ => hr⟩
  | @resume t r pending deeds ambient b =>
      have hturn := resume_upholds (t := t) (r := r) (Ls ambient) b fun hpassed =>
        have hdetached := h.passed r List.mem_cons_self hpassed
        ⟨hdetached, h.shut hdetached⟩
      refine ⟨hturn.onward, h.take hturn (fun _ => List.mem_cons_of_mem _) ?_⟩
      intro hthere r' hr' hfatal
      rcases List.mem_cons.mp hr' with rfl | hlater
      · -- A cancellation for the sake of a fault has returned, so the receiver has been let go.
        rw [resume_detached (Ls ambient) b hfatal] at hthere
        cases hthere
      · exact hlater

theorem Lived.sound (h : Lived Ls self conditional manners l) :
    l.tap.standing.Sound l.pending := by
  refine h.invariant ?_ fun now next hnow hstep => (hstep.sound hnow).2
  rintro first ⟨⟨listener, context, htap⟩, hpending, -⟩
  rw [htap, hpending]
  exact ⟨fun hgone => Bool.noConfusion hgone,
    fun _ hover => hover.elim Bool.noConfusion Bool.noConfusion, fun r hr => nomatch hr⟩

end Life

end Tap

end Wiretap

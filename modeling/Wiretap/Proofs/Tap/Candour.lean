import Wiretap.Proofs.Tap.Turn

/-!
# Turns that the receiver has not asked for

What a tap does with a signal, or when a neighbour returns, follows one law towards its receiver,
except in the calls that the receiver makes itself: the receiver is let go only with its last
signal, or with an excuse that is still owed, and once it has been let go it gets nothing. No
request is passed on, and no hook for a request or a cancellation runs.
-/

namespace Wiretap

variable {K : Kinds} {σ α ε : Type}

/-- Is it a hook for something that the receiver asks for? -/
def Hook.isControl : Hook α ε → Bool
  | .request _ | .cancel => true
  | _ => false

namespace Tap

/-- Did the tap run a hook for something that its receiver asks for? -/
def Act.isControl : Act α ε → Bool
  | .ran h _ => h.isControl
  | _ => false

/-- A turn of a tap whose receiver is attached or not, that belongs to no call of the receiver. It
does not let the receiver go without a last signal, or one that is owed, and it does not speak to a
receiver that has been let go. -/
structure Turn.Candid (attached : Bool) (turn : Turn σ α ε) : Prop where
  detached : attached = false → turn.tap.attached = false
  silent : attached = false → sent turn.next.deeds = []
  told : attached = true → turn.tap.attached = false →
    (∃ s ∈ sent turn.next.deeds, s.isTerminal = true) ∨ ∃ r ∈ turn.next.resume?, r.isExcuse = true
  /-- Only an empty handle comes before an excuse. -/
  excuse : ∀ r ∈ turn.next.resume?, r.isExcuse = true → .subscribe .empty ∈ sent turn.next.deeds
  acts : ∀ act ∈ turn.acts, act.isControl = false
  up : ∀ h c r, turn.next = .up h c r → c = .cancel
  resume : .released ∉ turn.next.resume?

namespace Turn.Candid

variable {attached : Bool} {turn : Turn σ α ε} {t : Tap σ}

theorem after {act : Act α ε} (h : turn.Candid attached) (hact : act.isControl = false) :
    (turn.after act).Candid attached where
  detached := h.detached
  silent := h.silent
  told := h.told
  excuse := h.excuse
  acts := by
    intro act' hmem
    rcases List.mem_cons.mp hmem with rfl | hmem
    · exact hact
    · exact h.acts act' hmem
  up := h.up
  resume := h.resume

theorem cancel (h : turn.Candid attached) : .ran .cancel none ∉ turn.acts :=
  fun hmem => by cases h.acts _ hmem

/-- An answer changes nothing about the receiver. -/
theorem of_answer (turn : Turn σ α ε) {b : Bool} (hnext : turn.next = .answer b)
    (hacts : turn.acts = []) : turn.Candid turn.tap.attached where
  detached hnow := hnow
  silent _ := by rw [hnext]; rfl
  told hthen hnow := by
    rw [hthen] at hnow
    cases hnow
  excuse := by simp [hnext, Next.resume?]
  acts := by simp [hacts]
  up := by simp [hnext]
  resume := by simp [hnext, Next.resume?]

end Turn.Candid

variable {t : Tap σ}

theorem reply_candid (b : Bool) : (t.reply b : Turn σ α ε).Candid t.attached :=
  Turn.Candid.of_answer (t.reply b) rfl rfl

theorem finish_candid : (t.finish : Turn σ α ε).Candid t.attached := reply_candid true

theorem dropItem_candid (x : α) : (t.dropItem x : Turn σ α ε).Candid t.attached :=
  finish_candid.after rfl

theorem dropError_candid (e : Undelivered ε) : (t.dropError e : Turn σ α ε).Candid t.attached :=
  finish_candid.after rfl

/-- A signal for an attached receiver, which is let go if the signal is its last. -/
theorem down_candid {s : Signal α (TapError ε)} {r : Resume α ε}
    (hlast : t.attached = false → s.isTerminal = true) (hr : r.isExcuse = false)
    (hreleased : r ≠ .released) : (t.down s r : Turn σ α ε).Candid true where
  detached := nofun
  silent := nofun
  told _ hnow := .inl ⟨s, by simp [down, Next.deeds, Deed.sent?], hlast hnow⟩
  excuse := by simp [down, Next.resume?, hr]
  acts := by simp [down]
  up := by simp [down]
  resume := by simpa [down, Next.resume?] using hreleased

theorem cancel_candid {h : Handle} {r : Resume α ε} (hr : r.isExcuse = false)
    (hreleased : r ≠ .released) :
    (⟨[], t, .up h .cancel r⟩ : Turn σ α ε).Candid t.attached where
  detached hnow := hnow
  silent _ := rfl
  told hthen hnow := by
    rw [hthen] at hnow
    cases hnow
  excuse := by simp [Next.resume?, hr]
  acts := by simp
  up := by simp
  resume := by simpa [Next.resume?] using hreleased

theorem cancelSource_candid {r : Resume α ε} {goOn : Turn σ α ε} (hr : r.isExcuse = false)
    (hreleased : r ≠ .released) (hgoOn : goOn.Candid t.attached) :
    (t.cancelSource r goOn).Candid t.attached := by
  unfold cancelSource
  split
  · exact cancel_candid hr hreleased
  · exact hgoOn

theorem terminate_candid (e : TapError ε) : (t.terminate e : Turn σ α ε).Candid t.attached := by
  unfold terminate
  split
  next hattached =>
    rw [hattached]
    exact down_candid (fun _ => rfl) rfl (by simp)
  next hattached =>
    rw [Bool.not_eq_true] at hattached
    rw [hattached]
    exact dropError_candid (t := { t with attached := false, done := true, finalized := true }) _

variable (L : Listener σ α ε)

theorem runHook_candid {u : Tap σ} {h : Hook α ε} {ok : Tap σ → Turn σ α ε}
    {failed : Tap σ → Fault → Turn σ α ε} (hhook : h.isControl = false)
    (hok : ∀ listener, (ok { u with listener }).Candid u.attached)
    (hfailed : ∀ listener f, (failed { u with listener } f).Candid u.attached) :
    (u.runHook L h ok failed).Candid u.attached := by
  unfold runHook
  rcases L.run u.listener h with ⟨listener, _ | cause⟩
  · exact (hok listener).after hhook
  · exact (hfailed listener _).after hhook

theorem failed_candid (f : Fault) : (t.failed L f).Candid t.attached :=
  Turn.Candid.after (terminate_candid (t := { t with listener := L.notice t.listener f }) _) rfl

theorem spoiled_candid (f : Fault) (e : ε) : (t.spoiled L f e).Candid t.attached :=
  Turn.Candid.after (terminate_candid (t := { t with listener := L.notice t.listener f }) _) rfl

theorem fail_candid (f : Fault) : (t.fail L f).Candid t.attached :=
  cancelSource_candid rfl (by simp) (failed_candid L f)

theorem dropFault_candid {f : Fault} {goOn : Tap σ → Turn σ α ε}
    (hgoOn : ∀ listener, (goOn { t with listener }).Candid t.attached) :
    (t.dropFault L f goOn).Candid t.attached :=
  ((hgoOn (L.notice t.listener f)).after rfl).after rfl

theorem malformedNext_candid (x : α) : (t.malformedNext L x).Candid t.attached :=
  runHook_candid L rfl (fun listener => dropItem_candid (t := { t with listener }) x)
    fun listener _ => dropFault_candid (t := { t with listener }) L
      fun listener => dropItem_candid (t := { t with listener }) x

theorem wrapUp_candid {h : Hook α ε} {ending : Ending} (hhook : h.isControl = false) :
    (t.wrapUp L h ending).Candid t.attached := by
  have hdropped : ∀ (u : Tap σ) (f : Fault), (u.dropFault L f finish).Candid u.attached :=
    fun u f => dropFault_candid L fun listener => finish_candid (t := { u with listener })
  unfold wrapUp
  refine runHook_candid L hhook (fun listener => ?_) fun listener f =>
    hdropped { t with listener } f
  unfold runFinally
  split
  · exact finish_candid (t := { t with listener })
  · exact runHook_candid L (u := { t with listener, finalized := true }) rfl
      (fun listener => finish_candid (t := { t with listener, finalized := true }))
      fun listener f => hdropped { t with listener, finalized := true } f

theorem consumed_candid (x : α) : (t.consumed L x).Candid t.attached :=
  runHook_candid L rfl (fun listener => finish_candid (t := { t with listener }))
    fun listener f => fail_candid (t := { t with listener }) L f

theorem onSubscribe_candid (self h : Handle) : (t.onSubscribe L self h).Candid t.attached := by
  unfold onSubscribe
  split
  · exact cancel_candid rfl (by simp)
  · refine runHook_candid L (u := { t with source := some h }) rfl (fun listener => ?_)
      fun listener f => cancel_candid (t := { t with listener, source := some h }) rfl (by simp)
    dsimp only
    split
    next hattached =>
      rw [hattached]
      exact down_candid (fun hnow => by simp at hnow) rfl (by simp)
    next => exact finish_candid (t := { t with listener, source := some h })

theorem onNext_candid (x : α) : (t.onNext L x).Candid t.attached := by
  unfold onNext
  split
  · exact malformedNext_candid L x
  · refine runHook_candid L rfl (fun listener => ?_)
      fun listener f => fail_candid (t := { t with listener }) L f
    dsimp only
    split
    next hattached =>
      rw [hattached]
      exact down_candid (fun hnow => by simp at hnow) rfl (by simp)
    next => exact dropItem_candid (t := { t with listener }) x

theorem onOffer_candid (conditional : Bool) (x : α) :
    (t.onOffer L conditional x).Candid t.attached := by
  unfold onOffer
  split
  · exact malformedNext_candid L x
  · split
    next hattached =>
      rw [hattached]
      split
      · exact down_candid (fun hnow => by simp [hattached] at hnow) rfl (by simp)
      · exact down_candid (fun hnow => by simp [hattached] at hnow) rfl (by simp)
    next => exact dropItem_candid x

theorem onError_candid (e : ε) : (t.onError L e).Candid t.attached := by
  unfold onError
  split
  · exact runHook_candid L rfl (fun listener => dropError_candid (t := { t with listener }) _)
      fun listener _ => dropFault_candid (t := { t with listener }) L
        fun listener => dropError_candid (t := { t with listener }) _
  · refine runHook_candid L (u := { t with done := true }) rfl (fun listener => ?_)
      fun listener f => cancelSource_candid (t := { t with listener, done := true }) rfl (by simp)
        (spoiled_candid L f e)
    dsimp only
    split
    next hattached =>
      rw [hattached]
      exact down_candid (fun _ => rfl) rfl (by simp)
    next hattached =>
      rw [Bool.not_eq_true] at hattached
      rw [hattached]
      exact (wrapUp_candid (t := { t with listener, attached := false, done := true }) L rfl).after
        rfl

theorem onComplete_candid : (t.onComplete L).Candid t.attached := by
  unfold onComplete
  split
  · exact runHook_candid L rfl (fun listener => finish_candid (t := { t with listener }))
      fun listener _ => dropFault_candid (t := { t with listener }) L
        fun listener => finish_candid (t := { t with listener })
  · refine runHook_candid L (u := { t with done := true }) rfl (fun listener => ?_)
      fun listener f => fail_candid (t := { t with listener, done := true }) L f
    dsimp only
    split
    next hattached =>
      rw [hattached]
      exact down_candid (fun _ => rfl) rfl (by simp)
    next hattached =>
      rw [Bool.not_eq_true] at hattached
      rw [hattached]
      exact wrapUp_candid (t := { t with listener, attached := false, done := true }) L rfl

theorem refused_candid (f : Fault) : (t.refused L f).Candid t.attached := by
  refine Turn.Candid.after ?_ rfl
  dsimp only
  split
  next hattached =>
    rw [hattached]
    exact {
      detached := nofun
      silent := nofun
      told := fun _ _ => .inr ⟨_, rfl, rfl⟩
      excuse := fun _ _ _ => List.mem_singleton_self _
      acts := by simp [down]
      up := by simp [down]
      resume := by simp [down, Next.resume?] }
  next hattached =>
    rw [Bool.not_eq_true] at hattached
    rw [hattached]
    exact finish_candid (t := { t with
      listener := L.notice t.listener f, attached := false, done := true, finalized := true })

/-- A signal from the source. -/
theorem receive_candid (self : Handle) (conditional : Bool) (s : Signal α ε) :
    (t.receive L self conditional s).Candid t.attached := by
  cases s with
  | subscribe h => exact onSubscribe_candid L self h
  | next x => exact onNext_candid L x
  | offer x => exact onOffer_candid L conditional x
  | error e => exact onError_candid L e
  | complete => exact onComplete_candid L

/-- A tap goes on, but not with an excuse or a cancellation by its receiver. -/
theorem resume_candid {r : Resume α ε} (b : Bool) (hexcuse : r.isExcuse = false)
    (hreleased : r ≠ .released) : (t.resume L r b).Candid t.attached := by
  cases r with
  | leave => exact finish_candid
  | ignored => exact finish_candid.after rfl
  | refused f => exact refused_candid L f
  | excused f => cases hexcuse
  | failed f => exact failed_candid L f
  | spoiled f e => exact spoiled_candid L f e
  | passedError e => exact wrapUp_candid L rfl
  | passedComplete => exact wrapUp_candid L rfl
  | offered x =>
      cases b with
      | true => exact consumed_candid L x
      | false => exact reply_candid false
  | sent x => exact consumed_candid L x
  | released => exact absurd rfl hreleased

end Tap

end Wiretap

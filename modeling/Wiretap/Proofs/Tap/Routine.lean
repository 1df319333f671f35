import Wiretap.Proofs.Tap.Finality

/-!
# Routine

Most of what a tap does has nothing to do with the end of its subscription as the last hook sees
it: it runs neither the hook for a cancellation nor the hooks after an ending nor the last hook, and
it does not stop where one of these comes next. Such a turn is routine. What a routine turn does to
the tap's flags is said here once.
-/

namespace Wiretap

variable {K : Kinds} {σ α ε : Type}

/-- Is it neither the hook for a cancellation nor one of those that follow an ending? -/
def Hook.isRoutine (h : Hook α ε) : Bool := h.announces?.isNone && h.ending?.isNone

namespace Tap

/-- Did the tap do something routine? -/
def Act.isRoutine : Act α ε → Bool
  | .ran h _ => h.isRoutine
  | _ => true

/-- Does something routine come next when the tap resumes? -/
def Resume.isRoutine : Resume α ε → Bool
  | .passedError _ | .passedComplete | .released => false
  | _ => true

/-- A routine turn of the tap `t`. -/
structure Turn.Routine (t : Tap σ) (turn : Turn σ α ε) : Prop where
  acts : ∀ act ∈ turn.acts, act.isRoutine = true
  resume : ∀ r ∈ turn.next.resume?, r.isRoutine = true
  done : t.done = true → turn.tap.done = true
  finalized : t.finalized = true → turn.tap.finalized = true
  /-- The receiver is only let go when the last hook is settled. -/
  detached : turn.tap.attached = false → t.attached = false ∨ turn.tap.finalized = true
  /-- The end only comes when the last hook is settled. -/
  ended : turn.tap.done = true → t.done = true ∨ turn.tap.finalized = true

namespace Turn.Routine

variable {turn : Turn σ α ε} {t : Tap σ}

theorem after {act : Act α ε} (h : turn.Routine t) (hact : act.isRoutine = true) :
    (turn.after act).Routine t where
  acts := by
    intro other hother
    rcases List.mem_cons.mp hother with rfl | hother
    · exact hact
    · exact h.acts other hother
  resume := h.resume
  done := h.done
  finalized := h.finalized
  detached := h.detached
  ended := h.ended

/-- A turn that only calls a neighbour or answers. -/
theorem of_next {next : Next α ε} (h : ∀ r ∈ next.resume?, r.isRoutine = true) :
    (⟨[], t, next⟩ : Turn σ α ε).Routine t where
  acts := fun _ hact => by cases hact
  resume := h
  done := id
  finalized := id
  detached := .inl
  ended := .inl

/-- The state of the listener and the handle of the source do not matter. -/
theorem of_parts {listener : σ} {source : Option Handle}
    (h : turn.Routine { t with listener := listener, source := source }) : turn.Routine t :=
  ⟨h.acts, h.resume, h.done, h.finalized, h.detached, h.ended⟩

theorem of_listener {listener : σ} (h : turn.Routine { t with listener := listener }) :
    turn.Routine t := h.of_parts

/-- The last hook may have been settled before the turn. -/
theorem of_finalized {u : Tap σ} (h : turn.Routine u) (hdone : u.done = true)
    (hfinalized : u.finalized = true) : turn.Routine t where
  acts := h.acts
  resume := h.resume
  done := fun _ => h.done hdone
  finalized := fun _ => h.finalized hfinalized
  detached := fun _ => .inr (h.finalized hfinalized)
  ended := fun _ => .inr (h.finalized hfinalized)

end Turn.Routine

variable {t : Tap σ}

theorem finish_routine : (t.finish : Turn σ α ε).Routine t := .of_next (by simp [Next.resume?])

theorem dropItem_routine (x : α) : (t.dropItem x : Turn σ α ε).Routine t :=
  finish_routine.after rfl

theorem dropError_routine (e : Undelivered ε) : (t.dropError e : Turn σ α ε).Routine t :=
  finish_routine.after rfl

theorem down_routine {s : Signal α (TapError ε)} {r : Resume α ε} (hr : r.isRoutine = true) :
    (t.down s r).Routine t :=
  .of_next (by simpa [Next.resume?] using hr)

theorem terminate_routine (e : TapError ε) : (t.terminate e : Turn σ α ε).Routine t := by
  unfold terminate
  split
  · exact (down_routine rfl).of_finalized rfl rfl
  · exact (dropError_routine _).of_finalized rfl rfl

theorem cancelSource_routine {r : Resume α ε} {goOn : Turn σ α ε} (hr : r.isRoutine = true)
    (hgoOn : goOn.Routine t) : (t.cancelSource r goOn).Routine t := by
  unfold cancelSource
  split
  · exact .of_next (by simpa [Next.resume?] using hr)
  · exact hgoOn

variable (L : Listener σ α ε)

theorem runHook_routine {u : Tap σ} {h : Hook α ε} {ok : Tap σ → Turn σ α ε}
    {failed : Tap σ → Fault → Turn σ α ε} (hhook : h.isRoutine = true)
    (hok : ∀ listener, (ok { u with listener := listener }).Routine t)
    (hfailed : ∀ listener f, (failed { u with listener := listener } f).Routine t) :
    (u.runHook L h ok failed).Routine t := by
  unfold runHook
  rcases L.run u.listener h with ⟨listener, _ | cause⟩
  · exact (hok listener).after hhook
  · exact (hfailed listener _).after hhook

theorem failed_routine (f : Fault) : (t.failed L f).Routine t :=
  (terminate_routine _).of_listener.after rfl

theorem fail_routine (f : Fault) : (t.fail L f).Routine t :=
  cancelSource_routine rfl (failed_routine L f)

theorem spoiled_routine (f : Fault) (e : ε) : (t.spoiled L f e).Routine t :=
  (terminate_routine _).of_listener.after rfl

theorem dropFault_routine {u : Tap σ} {f : Fault} {goOn : Tap σ → Turn σ α ε}
    (hgoOn : ∀ listener, (goOn { u with listener := listener }).Routine t) :
    (u.dropFault L f goOn).Routine t :=
  ((hgoOn _).after rfl).after rfl

/-! ## Signals and controls -/

theorem malformedNext_routine (x : α) : (t.malformedNext L x).Routine t :=
  runHook_routine L rfl (fun _ => (dropItem_routine x).of_listener)
    fun _ _ => dropFault_routine L fun _ => (dropItem_routine x).of_listener

theorem onNext_routine (x : α) : (t.onNext L x).Routine t := by
  unfold onNext
  split
  · exact malformedNext_routine L x
  · refine runHook_routine L rfl (fun listener => ?_) fun _ f => (fail_routine L f).of_listener
    split
    · exact (down_routine rfl).of_listener
    · exact (dropItem_routine x).of_listener

theorem consumed_routine (x : α) : (t.consumed L x).Routine t :=
  runHook_routine L rfl (fun _ => finish_routine.of_listener)
    fun _ f => (fail_routine L f).of_listener

theorem onOffer_routine (conditional : Bool) (x : α) :
    (t.onOffer L conditional x).Routine t := by
  unfold onOffer
  split
  · exact malformedNext_routine L x
  · split
    · split <;> exact down_routine rfl
    · exact dropItem_routine x

theorem onRequest_routine (n : UInt64) : (t.onRequest L n).Routine t := by
  unfold onRequest
  split
  · refine runHook_routine L rfl (fun listener => ?_) fun _ f => (fail_routine L f).of_listener
    dsimp only
    split
    · exact (Turn.Routine.of_next (by simp [Next.resume?, Resume.isRoutine])).of_listener
    · exact finish_routine.of_listener
  · exact dropError_routine _

theorem onSubscribe_routine (self h : Handle) : (t.onSubscribe L self h).Routine t := by
  unfold onSubscribe
  split
  · exact .of_next (by simp [Next.resume?, Resume.isRoutine])
  · refine runHook_routine L rfl (fun listener => ?_) fun listener f => ?_
    · split
      · exact (down_routine rfl).of_parts
      · exact finish_routine.of_parts
    · exact (Turn.Routine.of_next (by simp [Next.resume?, Resume.isRoutine])).of_parts

/-- An ending that is malformed. -/
theorem malformedError_routine (e : ε) (hdone : t.done = true) : (t.onError L e).Routine t := by
  unfold onError
  rw [if_pos hdone]
  exact runHook_routine L rfl (fun _ => (dropError_routine _).of_listener)
    fun _ _ => dropFault_routine L fun _ => (dropError_routine _).of_listener

theorem malformedComplete_routine (hdone : t.done = true) : (t.onComplete L).Routine t := by
  unfold onComplete
  rw [if_pos hdone]
  exact runHook_routine L rfl (fun _ => finish_routine.of_listener)
    fun _ _ => dropFault_routine L fun _ => finish_routine.of_listener

/-- Does the call end the subscription? -/
def Input.isEnd : Input α ε → Bool
  | .signal (.error _) | .signal .complete | .control .cancel => true
  | _ => false

/-- Whatever a tap is called with, unless it ends the subscription. -/
theorem serve_routine (self : Handle) (conditional : Bool) {input : Input α ε}
    (hinput : input.isEnd = false) : (t.serve L self conditional input).Routine t := by
  rcases input with (h | x | x | e | _) | (n | _)
  · exact onSubscribe_routine L self h
  · exact onNext_routine L x
  · exact onOffer_routine L conditional x
  · cases hinput
  · cases hinput
  · exact onRequest_routine L n
  · cases hinput

/-- Wherever a tap resumes, unless it goes on with the end of its subscription. -/
theorem resume_routine {r : Resume α ε} (b : Bool) (hr : r.isRoutine = true) :
    (t.resume L r b).Routine t := by
  cases r with
  | leave => exact finish_routine
  | ignored => exact finish_routine.after rfl
  | refused f =>
      refine Turn.Routine.after ?_ rfl
      dsimp only
      split
      · exact (down_routine rfl).of_finalized rfl rfl
      · exact finish_routine.of_finalized rfl rfl
  | excused f => exact down_routine rfl
  | failed f => exact failed_routine L f
  | spoiled f e => exact spoiled_routine L f e
  | offered x =>
      cases b with
      | true => exact consumed_routine L x
      | false => exact .of_next (by simp [Next.resume?])
  | sent x => exact consumed_routine L x
  | passedError e => cases hr
  | passedComplete => cases hr
  | released => cases hr

end Tap

end Wiretap

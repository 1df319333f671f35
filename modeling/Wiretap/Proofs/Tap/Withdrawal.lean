import Wiretap.Proofs.Tap.Turn

/-!
# Withdrawal

A tap that is told of an error, or told to cancel, withdraws: until it has returned it does nothing
but cancel its source and send its receiver an error. Its neighbours withdraw in their turn, so a
cancellation never sets off anything but cancellations on the one side and errors on the other.
-/

namespace Wiretap

/-- Does a failure of the hook end the stream by an error of the tap's own, the source having done
nothing wrong? -/
def Hook.isContained {α ε : Type} : Hook α ε → Bool
  | .next _ | .complete | .request _ => true
  | _ => false

namespace Tap

variable {K : Kinds} {σ α ε : Type}

/-- Did a hook fail whose fault is contained? -/
def Act.isContained : Act α ε → Bool
  | .ran h (some _) => h.isContained
  | _ => false

/-- A point at which a tap that withdraws resumes. -/
def Resume.withdraws : Resume α ε → Bool
  | .leave | .failed _ | .spoiled _ _ | .passedError _ | .released => true
  | _ => false

/-- Does the turn end with an answer, an error for the receiver or a cancellation? -/
def Next.withdraws : Next α ε → Bool
  | .answer _ => true
  | .down (.error _) r => r.withdraws && !r.waits
  | .up _ .cancel r => r.withdraws && r.waits
  | _ => false

/-- The turn belongs to a withdrawal. -/
structure Turn.Withdraws (turn : Turn σ α ε) : Prop where
  next : turn.next.withdraws = true
  /-- No hook with a contained fault fails. -/
  acts : ∀ act ∈ turn.acts, act.isContained = false

namespace Turn.Withdraws

variable {turn : Turn σ α ε}

theorem after {act : Act α ε} (h : turn.Withdraws) (hact : act.isContained = false) :
    (turn.after act).Withdraws where
  next := h.next
  acts := by
    intro other hother
    rcases List.mem_cons.mp hother with rfl | hother
    · exact hact
    · exact h.acts other hother

theorem of_nil {t : Tap σ} {next : Next α ε} (h : next.withdraws = true) :
    (⟨[], t, next⟩ : Turn σ α ε).Withdraws := ⟨h, by simp⟩

end Turn.Withdraws

variable {t : Tap σ}

theorem finish_withdraws : (t.finish : Turn σ α ε).Withdraws := .of_nil rfl

theorem dropItem_withdraws (x : α) : (t.dropItem x : Turn σ α ε).Withdraws :=
  finish_withdraws.after rfl

theorem dropError_withdraws (e : Undelivered ε) : (t.dropError e : Turn σ α ε).Withdraws :=
  finish_withdraws.after rfl

theorem terminate_withdraws (e : TapError ε) : (t.terminate e : Turn σ α ε).Withdraws := by
  unfold terminate
  split
  · exact .of_nil rfl
  · exact dropError_withdraws _

theorem cancelSource_withdraws {r : Resume α ε} {goOn : Turn σ α ε}
    (hr : (r.withdraws && r.waits) = true) (hgoOn : goOn.Withdraws) :
    (t.cancelSource r goOn).Withdraws := by
  unfold cancelSource
  split
  · exact .of_nil hr
  · exact hgoOn

variable (L : Listener σ α ε)

theorem runHook_withdraws {h : Hook α ε} {ok : Tap σ → Turn σ α ε}
    {failed : Tap σ → Fault → Turn σ α ε} (hhook : h.isContained = false)
    (hok : ∀ t, (ok t).Withdraws) (hfailed : ∀ t f, (failed t f).Withdraws) :
    (t.runHook L h ok failed).Withdraws := by
  unfold runHook
  rcases L.run t.listener h with ⟨listener, _ | cause⟩
  · exact (hok _).after rfl
  · exact (hfailed _ _).after hhook

theorem failed_withdraws (f : Fault) : (t.failed L f).Withdraws :=
  (terminate_withdraws _).after rfl

theorem fail_withdraws (f : Fault) : (t.fail L f).Withdraws :=
  cancelSource_withdraws rfl (failed_withdraws L f)

theorem spoiled_withdraws (f : Fault) (e : ε) : (t.spoiled L f e).Withdraws :=
  (terminate_withdraws _).after rfl

theorem dropFault_withdraws {f : Fault} {goOn : Tap σ → Turn σ α ε}
    (hgoOn : ∀ t, (goOn t).Withdraws) : (t.dropFault L f goOn).Withdraws :=
  ((hgoOn _).after rfl).after rfl

theorem malformedNext_withdraws (x : α) : (t.malformedNext L x).Withdraws :=
  runHook_withdraws L rfl (fun _ => dropItem_withdraws x)
    fun _ _ => dropFault_withdraws L fun _ => dropItem_withdraws x

theorem runFinally_withdraws {ending : Ending} {ok : Tap σ → Turn σ α ε}
    {failed : Tap σ → Fault → Turn σ α ε} (hok : ∀ t, (ok t).Withdraws)
    (hfailed : ∀ t f, (failed t f).Withdraws) : (t.runFinally L ending ok failed).Withdraws := by
  unfold runFinally
  split
  · exact hok t
  · exact runHook_withdraws L rfl hok hfailed

theorem wrapUp_withdraws {h : Hook α ε} (hhook : h.isContained = false) (ending : Ending) :
    (t.wrapUp L h ending).Withdraws := by
  have hdropped : ∀ (t : Tap σ) (f : Fault), (t.dropFault L f finish).Withdraws :=
    fun _ _ => dropFault_withdraws L fun _ => finish_withdraws
  unfold wrapUp
  exact runHook_withdraws L hhook
    (fun _ => runFinally_withdraws L (fun _ => finish_withdraws) hdropped) hdropped

theorem released_withdraws : (t.released L).Withdraws :=
  runFinally_withdraws L (fun _ => finish_withdraws) fun _ f => fail_withdraws L f

theorem onError_withdraws (e : ε) : (t.onError L e).Withdraws := by
  unfold onError
  split
  · exact runHook_withdraws L rfl (fun _ => dropError_withdraws _)
      fun _ _ => dropFault_withdraws L fun _ => dropError_withdraws _
  · refine runHook_withdraws L rfl (fun t => ?_) fun _ f => ?_
    · dsimp only
      split
      · exact .of_nil rfl
      · exact (wrapUp_withdraws L rfl _).after rfl
    · exact cancelSource_withdraws rfl (spoiled_withdraws L f e)

theorem onCancel_withdraws : (t.onCancel L).Withdraws :=
  runHook_withdraws L rfl (fun _ => cancelSource_withdraws rfl (released_withdraws L))
    fun _ f => failed_withdraws L f

/-- A tap that gets an error withdraws, and so does one that is told to cancel. -/
theorem serve_withdraws (self : Handle) (conditional : Bool) {input : Input α ε}
    (hinput : input.isError = true ∨ input = .control .cancel) :
    (t.serve L self conditional input).Withdraws := by
  rcases input with (h | x | x | e | _) | c
  case signal.error => exact onError_withdraws L e
  case control =>
    obtain rfl : c = .cancel := by simpa [Input.isError] using hinput
    exact onCancel_withdraws L
  all_goals simp [Input.isError] at hinput

/-- A tap that withdraws goes on withdrawing. -/
theorem resume_withdraws {r : Resume α ε} (b : Bool) (hr : r.withdraws = true) :
    (t.resume L r b).Withdraws := by
  cases r with
  | leave => exact finish_withdraws
  | failed f => exact failed_withdraws L f
  | spoiled f e => exact spoiled_withdraws L f e
  | passedError e => exact wrapUp_withdraws L rfl _
  | released => exact released_withdraws L
  | _ => cases hr

end Tap

end Wiretap

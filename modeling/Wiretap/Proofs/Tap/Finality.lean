import Mathlib.Data.List.Induction
import Wiretap.Proofs.Tap.Account

/-!
# When the last hook runs

The last hook follows at once on the success of a hook that announces it: the hook after an ending,
or the hook for a cancellation. It is ruled out when it has run, and when a hook fails whose fault
ends the stream. The hooks after an ending are not among those: their faults are dropped, and leave
the last hook to a cancellation.

The outlook says what may still come of the last hook. Next to the source it can be read off what
has been seen of a tap, deed by deed, and it agrees with the state of the tap.
-/

namespace Wiretap

variable {K : Kinds} {σ α ε : Type}

namespace Hook

/-- The ending with which the last hook is to run when this hook has succeeded. -/
def announces? : Hook α ε → Option Ending
  | .afterError _ => some .error
  | .afterComplete => some .complete
  | .cancel => some .cancel
  | _ => none

/-- Is it the hook after an ending? -/
def isAfter : Hook α ε → Bool
  | .afterError _ | .afterComplete => true
  | _ => false

/-- The ending that the last hook is told of. -/
def ending? : Hook α ε → Option Ending
  | .finally ending => some ending
  | _ => none

/-- Does a failure of the hook end the stream? -/
def isFatal : Hook α ε → Bool
  | .subscription | .next _ | .error _ | .complete | .request _ | .cancel => true
  | _ => false

theorem ending?_of_isFatal {h : Hook α ε} (hfatal : h.isFatal = true) : h.ending? = none := by
  cases h with
  | «finally» ending => cases hfatal
  | _ => rfl

theorem ending?_of_announces {h : Hook α ε} {ending : Ending}
    (hannounces : h.announces? = some ending) : h.ending? = none := by
  cases h with
  | «finally» ending => cases hannounces
  | _ => rfl

end Hook

namespace Tap

namespace Deed

/-- The ending with which the last hook is to run next. -/
def announces? : Deed α ε → Option Ending
  | .acted (.ran h none) => h.announces?
  | _ => none

/-- The ending with which the last hook was run. -/
def ending? : Deed α ε → Option Ending
  | .acted (.ran h _) => h.ending?
  | _ => none

/-- Did a hook fail whose fault ends the stream? -/
def isFatal : Deed α ε → Bool
  | .acted (.ran h (some _)) => h.isFatal
  | _ => false

/-- Is the last hook settled by the deed? -/
def settles (d : Deed α ε) : Bool := d.ending?.isSome || d.isFatal

/-- Was a hook after an ending run? -/
def isAfter : Deed α ε → Bool
  | .acted (.ran h _) => h.isAfter
  | _ => false

theorem announces?_of_settles {d : Deed α ε} (h : d.settles = true) : d.announces? = none := by
  rcases d with _ | _ | (⟨hook, _ | cause⟩ | _ | _ | _ | _ | _) | _ | _ | _
  case acted.ran.none => cases hook <;> first | rfl | cases h
  all_goals rfl

end Deed

/-- What may come of the last hook. -/
inductive Outlook
  /-- It may still run. -/
  | possible
  /-- It runs next. -/
  | due (ending : Ending)
  /-- It has run, or never will. -/
  | settled
deriving DecidableEq

namespace Outlook

/-- The outlook after a deed, if that was to be expected. -/
def after (o : Outlook) (d : Deed α ε) : Option Outlook :=
  match o, d.ending? with
  | .possible, none =>
    if d.isFatal then some .settled else some ((d.announces?.map due).getD .possible)
  | .due ending, some ending' => if ending' = ending then some .settled else none
  | .settled, none => some .settled
  | _, _ => none

/-- The outlook after deeds, if all were to be expected. -/
def run (o : Outlook) (deeds : List (Deed α ε)) : Option Outlook := deeds.foldlM after o

@[simp] theorem run_nil (o : Outlook) : o.run ([] : List (Deed α ε)) = some o := rfl

@[simp] theorem run_cons (o : Outlook) (d : Deed α ε) (deeds : List (Deed α ε)) :
    o.run (d :: deeds) = (o.after d).bind (·.run deeds) := rfl

@[simp] theorem run_append (o : Outlook) (first second : List (Deed α ε)) :
    o.run (first ++ second) = (o.run first).bind (·.run second) := by
  simp [run, List.foldlM_append]

/-- Unless the last hook is due, a deed that has nothing to do with it changes nothing. -/
theorem after_other {o : Outlook} {d : Deed α ε} (ho : ∀ ending, o ≠ .due ending)
    (hending : d.ending? = none) (hfatal : d.isFatal = false) (hannounces : d.announces? = none) :
    o.after d = some o := by
  cases o with
  | possible => simp [after, hending, hfatal, hannounces]
  | due ending => exact absurd rfl (ho ending)
  | settled => simp [after, hending]

variable {deeds before later : List (Deed α ε)} {d : Deed α ε} {o : Outlook} {ending : Ending}

/-- The last hook runs when it is due. -/
theorem due_of_after (h : o.after d = some .settled) (hending : d.ending? = some ending) :
    o = .due ending := by
  cases o with
  | possible => simp [after, hending] at h
  | due ending' =>
      simp only [after, hending, Option.ite_none_right_eq_some, and_true] at h
      rw [h]
  | settled => simp [after, hending] at h

theorem possible_of_after (h : o.after d = some .possible) :
    o = .possible ∧ d.settles = false ∧ d.announces? = none := by
  cases hending : d.ending? with
  | some ending =>
      cases o with
      | due ending' => simp [after, hending] at h
      | _ => simp [after, hending] at h
  | none =>
      cases o with
      | possible =>
          cases hfatal : d.isFatal with
          | true => simp [after, hending, hfatal] at h
          | false =>
              cases hannounces : d.announces? with
              | none => simp [Deed.settles, hending, hfatal]
              | some ending => simp [after, hending, hfatal, hannounces] at h
      | _ => simp [after, hending] at h

theorem possible_of_after_due (h : o.after d = some (.due ending)) :
    o = .possible ∧ d.announces? = some ending := by
  cases hending : d.ending? with
  | some ending' =>
      cases o with
      | due ending'' => simp [after, hending] at h
      | _ => simp [after, hending] at h
  | none =>
      cases o with
      | possible =>
          cases hfatal : d.isFatal with
          | true => simp [after, hending, hfatal] at h
          | false =>
              cases hannounces : d.announces? with
              | none => simp [after, hending, hfatal, hannounces] at h
              | some ending' => simpa [after, hending, hfatal, hannounces] using h
      | _ => simp [after, hending] at h

/-- As long as the last hook is possible, nothing has settled it. -/
theorem not_settles_of_run (h : Outlook.possible.run deeds = some .possible) :
    ∀ d ∈ deeds, d.settles = false := by
  induction deeds using List.reverseRecOn with
  | nil => simp
  | append_singleton deeds d ih =>
      rw [run_append] at h
      obtain ⟨o, hbefore, hlast⟩ := Option.bind_eq_some_iff.mp h
      simp only [run_cons, run_nil, Option.bind_fun_some] at hlast
      obtain ⟨rfl, hd, -⟩ := possible_of_after hlast
      intro d' hd'
      rcases List.mem_append.mp hd' with hold | hnew
      · exact ih hbefore d' hold
      · rwa [List.mem_singleton.mp hnew]

/-- What nothing settles stays possible or due. -/
theorem run_ne_settled {first : Outlook} (h : first.run deeds = some o) (hfirst : first ≠ .settled)
    (hdeeds : ∀ d ∈ deeds, d.settles = false) : o ≠ .settled := by
  rintro rfl
  induction deeds using List.reverseRecOn with
  | nil => exact hfirst (Option.some.inj h)
  | append_singleton deeds d ih =>
      rw [run_append] at h
      obtain ⟨o, hbefore, hlast⟩ := Option.bind_eq_some_iff.mp h
      simp only [run_cons, run_nil, Option.bind_fun_some] at hlast
      have hd : d.settles = false := hdeeds d (by simp)
      simp only [Deed.settles, Bool.or_eq_false_iff, Option.isSome_eq_false_iff,
        Option.isNone_iff_eq_none] at hd
      have hsettled : o = .settled := by
        cases o with
        | possible => cases hannounces : d.announces? <;> simp [after, hd, hannounces] at hlast
        | due ending => simp [after, hd.1] at hlast
        | settled => rfl
      subst hsettled
      exact ih (fun d' hd' => hdeeds d' (List.mem_append_left _ hd')) hbefore

/-- The last hook runs right after the success of a hook that announces it, and nothing has settled
it before. -/
theorem announced_of_run (h : Outlook.possible.run (before ++ d :: later) = some o)
    (hending : d.ending? = some ending) : ∃ earlier announcement,
      before = earlier ++ [announcement] ∧ announcement.announces? = some ending ∧
        ∀ d ∈ earlier, d.settles = false := by
  rw [run_append] at h
  obtain ⟨now, hbefore, hrest⟩ := Option.bind_eq_some_iff.mp h
  rw [run_cons] at hrest
  obtain ⟨next, hd, -⟩ := Option.bind_eq_some_iff.mp hrest
  have hnext : next = .settled := by
    cases now with
    | due ending' =>
        simp only [after, hending] at hd
        split at hd <;> simp_all
    | _ => simp [after, hending] at hd
  subst hnext
  obtain rfl := due_of_after hd hending
  rcases List.eq_nil_or_concat before with rfl | ⟨earlier, announcement, rfl⟩
  · cases hbefore
  · rw [List.concat_eq_append, run_append] at hbefore
    obtain ⟨first, hearlier, hlast⟩ := Option.bind_eq_some_iff.mp hbefore
    simp only [run_cons, run_nil, Option.bind_fun_some] at hlast
    obtain ⟨rfl, hannounces⟩ := possible_of_after_due hlast
    exact ⟨earlier, announcement, List.concat_eq_append, hannounces, not_settles_of_run hearlier⟩

/-- If nothing has settled the last hook, it runs right after it is announced. -/
theorem runs_of_announced (h : Outlook.possible.run (before ++ d :: later) = some o)
    (hbefore : ∀ d ∈ before, d.settles = false) (hannounces : d.announces? = some ending)
    (ho : ∀ ending, o ≠ .due ending) : ∃ d ∈ later, d.ending? = some ending := by
  rw [run_append] at h
  obtain ⟨now, hfirst, hrest⟩ := Option.bind_eq_some_iff.mp h
  rw [run_cons] at hrest
  obtain ⟨next, hd, hlater⟩ := Option.bind_eq_some_iff.mp hrest
  have hsettles : d.settles = false := by
    by_contra hsettles
    rw [Deed.announces?_of_settles (by simpa using hsettles)] at hannounces
    cases hannounces
  simp only [Deed.settles, Bool.or_eq_false_iff, Option.isSome_eq_false_iff,
    Option.isNone_iff_eq_none] at hsettles
  have hnow : now = .possible := by
    cases now with
    | possible => rfl
    | due ending' => simp [after, hsettles.1] at hd
    | settled => exact absurd rfl (run_ne_settled hfirst nofun hbefore)
  subst hnow
  simp only [after, hsettles, hannounces, Option.map_some, Option.getD_some, Bool.false_eq_true,
    if_false, Option.some.injEq] at hd
  subst hd
  cases later with
  | nil => exact absurd (Option.some.inj hlater).symm (ho ending)
  | cons d' later =>
      rw [run_cons] at hlater
      obtain ⟨next, hd', -⟩ := Option.bind_eq_some_iff.mp hlater
      cases hending : d'.ending? with
      | none => simp [after, hending] at hd'
      | some ending' =>
          simp only [after, hending, Option.ite_none_right_eq_some] at hd'
          exact ⟨d', List.mem_cons_self, by rw [hending, hd'.1]⟩

/-- The outlook for a tap whose innermost call resumes at `r?`. -/
def of (t : Tap σ) (r? : Option (Resume α ε)) : Outlook :=
  if t.finalized then .settled
  else match r? with
    | some .released => .due .cancel
    | some (.refused _) | some (.failed _) | some (.spoiled _ _) => .settled
    | _ => .possible

variable {t : Tap σ}

/-- The last hook is settled if it has run or a fault that ends the stream is on its way. -/
theorem of_eq_settled {r? : Option (Resume α ε)} :
    of t r? = .settled ↔ t.finalized = true ∨ ∃ r ∈ r?, r.unreported?.isSome = true := by
  unfold of
  cases hfinalized : t.finalized with
  | true => simp
  | false =>
      cases r? with
      | none => simp
      | some r => cases r <;> simp [Resume.unreported?]

theorem of_none_ne_due : of t (none : Option (Resume α ε)) ≠ .due ending := by
  unfold of
  split <;> exact nofun

/-- A tap that waits for no cancellation has the outlook of one that waits for nothing. -/
theorem of_not_waits {r : Resume α ε} (h : r.waits = false) :
    of t (some r) = of t (none : Option (Resume α ε)) := by
  cases r with
  | released | refused f | failed f | spoiled f e | ignored => cases h
  | _ => rfl

end Outlook

/-- What the turn shows fits the outlook before and after it. -/
def Turn.Keeps (o : Outlook) (turn : Turn σ α ε) : Prop :=
  o.run turn.deeds = some (.of turn.tap turn.next.resume?)

namespace Turn.Keeps

variable {t : Tap σ} {o o' : Outlook} {turn : Turn σ α ε}

theorem after {act : Act α ε} (h : turn.Keeps o') (hact : o.after (.acted act) = some o') :
    (turn.after act).Keeps o := by
  rw [Turn.Keeps, Turn.deeds_after, Outlook.run_cons, hact]
  exact h

/-- An act that has nothing to do with the last hook. -/
theorem after_other {act : Act α ε} (h : turn.Keeps o) (ho : ∀ ending, o ≠ .due ending)
    (hending : (.acted act : Deed α ε).ending? = none)
    (hfatal : (.acted act : Deed α ε).isFatal = false)
    (hannounces : (.acted act : Deed α ε).announces? = none) : (turn.after act).Keeps o :=
  h.after (Outlook.after_other ho hending hfatal hannounces)

end Turn.Keeps

variable {t : Tap σ} {o : Outlook}

/-- The outlook for a tap that waits for nothing. -/
abbrev outlook (t : Tap σ) (α ε : Type) : Outlook := .of t (none : Option (Resume α ε))

theorem reply_keeps (b : Bool) : (t.reply b : Turn σ α ε).Keeps (t.outlook α ε) := by
  have hreturned : (t.outlook α ε).after (.returned b : Deed α ε) = some (t.outlook α ε) :=
    Outlook.after_other (fun _ => Outlook.of_none_ne_due) rfl rfl rfl
  simp [Turn.Keeps, reply, Turn.deeds, Next.deeds, hreturned, Next.resume?]

theorem finish_keeps : (t.finish : Turn σ α ε).Keeps (t.outlook α ε) := reply_keeps true

theorem dropItem_keeps (x : α) : (t.dropItem x : Turn σ α ε).Keeps (t.outlook α ε) :=
  finish_keeps.after_other (fun _ => Outlook.of_none_ne_due) rfl rfl rfl

theorem dropError_keeps (e : Undelivered ε) :
    (t.dropError e : Turn σ α ε).Keeps (t.outlook α ε) :=
  finish_keeps.after_other (fun _ => Outlook.of_none_ne_due) rfl rfl rfl

theorem down_keeps {s : Signal α (TapError ε)} {r : Resume α ε} (hwaits : r.waits = false) :
    (t.down s r).Keeps (t.outlook α ε) := by
  have hsent : (t.outlook α ε).after (.sent s) = some (t.outlook α ε) :=
    Outlook.after_other (fun _ => Outlook.of_none_ne_due) rfl rfl rfl
  simp [Turn.Keeps, down, Turn.deeds, Next.deeds, hsent, Next.resume?,
    Outlook.of_not_waits hwaits]

theorem terminate_keeps (e : TapError ε) : (t.terminate e : Turn σ α ε).Keeps .settled := by
  unfold terminate
  split
  · exact down_keeps (t := { t with attached := false, done := true, finalized := true }) rfl
  · exact dropError_keeps (t := { t with attached := false, done := true, finalized := true }) _

/-- A tap that cancels its source has the outlook of one that waits for that. -/
theorem cancelSource_keeps {r : Resume α ε} {goOn : Turn σ α ε}
    (h : goOn.Keeps (.of t (some r))) : (t.cancelSource r goOn).Keeps (.of t (some r)) := by
  unfold cancelSource
  split
  · rfl
  · exact h

variable (L : Listener σ α ε)

theorem runHook_keeps {u : Tap σ} {h : Hook α ε} {ok : Tap σ → Turn σ α ε}
    {failed : Tap σ → Fault → Turn σ α ε} (passed spoilt : Outlook)
    (hok : ∀ listener, (ok { u with listener := listener }).Keeps passed)
    (hfailed : ∀ listener f, (failed { u with listener := listener } f).Keeps spoilt)
    (hpassed : o.after (.acted (.ran h none)) = some passed)
    (hspoilt : ∀ cause, o.after (.acted (.ran h (some cause))) = some spoilt) :
    (u.runHook L h ok failed).Keeps o := by
  unfold runHook
  rcases L.run u.listener h with ⟨listener, _ | cause⟩
  · exact (hok listener).after hpassed
  · exact (hfailed listener _).after (hspoilt cause)

theorem report_keeps {f : Fault} {goOn : Tap σ → Turn σ α ε} (ho : ∀ ending, o ≠ .due ending)
    (hgoOn : ∀ listener, (goOn { t with listener := listener }).Keeps o) :
    (t.report L f goOn).Keeps o :=
  (hgoOn _).after_other ho rfl rfl rfl

theorem failed_keeps (f : Fault) : (t.failed L f).Keeps .settled :=
  report_keeps L (fun _ => nofun) fun _ => terminate_keeps _

theorem spoiled_keeps (f : Fault) (e : ε) : (t.spoiled L f e).Keeps .settled :=
  report_keeps L (fun _ => nofun) fun _ => terminate_keeps _

theorem fail_keeps (f : Fault) : (t.fail L f).Keeps .settled := by
  have hof : Outlook.of t (some (.failed f : Resume α ε)) = .settled := by simp [Outlook.of]
  have hfailed := failed_keeps (t := t) L f
  rw [← hof] at hfailed ⊢
  exact cancelSource_keeps hfailed

theorem dropFault_keeps {f : Fault} {goOn : Tap σ → Turn σ α ε} (ho : ∀ ending, o ≠ .due ending)
    (hgoOn : ∀ listener, (goOn { t with listener := listener }).Keeps o) :
    (t.dropFault L f goOn).Keeps o :=
  report_keeps L ho fun listener => (hgoOn listener).after_other ho rfl rfl rfl

/-- The hook has nothing to do with the last one. -/
theorem runHook_keeps_other {u : Tap σ} {h : Hook α ε} {ok : Tap σ → Turn σ α ε}
    {failed : Tap σ → Fault → Turn σ α ε} (ho : ∀ ending, o ≠ .due ending)
    (hending : h.ending? = none) (hfatal : h.isFatal = false) (hannounces : h.announces? = none)
    (hok : ∀ listener, (ok { u with listener := listener }).Keeps o)
    (hfailed : ∀ listener f, (failed { u with listener := listener } f).Keeps o) :
    (u.runHook L h ok failed).Keeps o := by
  refine runHook_keeps L _ _ hok hfailed (Outlook.after_other ho hending rfl hannounces)
    fun cause => ?_
  exact Outlook.after_other ho hending hfatal rfl

/-- The hook's failure settles the last one. -/
theorem runHook_keeps_fatal {u : Tap σ} {h : Hook α ε} {ok : Tap σ → Turn σ α ε}
    {failed : Tap σ → Fault → Turn σ α ε} (hfatal : h.isFatal = true)
    (hannounces : h.announces? = none)
    (hok : ∀ listener, (ok { u with listener := listener }).Keeps (u.outlook α ε))
    (hfailed : ∀ listener f, (failed { u with listener := listener } f).Keeps .settled) :
    (u.runHook L h ok failed).Keeps (u.outlook α ε) := by
  have hending := Hook.ending?_of_isFatal hfatal
  refine runHook_keeps L _ _ hok hfailed ?_ fun cause => ?_
  · exact Outlook.after_other (fun _ => Outlook.of_none_ne_due) hending rfl hannounces
  · unfold outlook Outlook.of
    cases u.finalized <;> simp [Outlook.after, Deed.ending?, hending, Deed.isFatal, hfatal]

theorem runFinally_keeps {ending : Ending} {ok : Tap σ → Turn σ α ε}
    {failed : Tap σ → Fault → Turn σ α ε}
    (ho : o = if t.finalized then .settled else .due ending)
    (hok : ∀ listener, (ok { t with listener := listener, finalized := true }).Keeps .settled)
    (hfailed : ∀ listener f,
      (failed { t with listener := listener, finalized := true } f).Keeps .settled) :
    (t.runFinally L ending ok failed).Keeps o := by
  unfold runFinally
  split
  next hfinalized =>
    rw [if_pos hfinalized] at ho
    have hsame := hok t.listener
    rw [← hfinalized] at hsame
    rwa [ho]
  next hopen =>
    rw [if_neg hopen] at ho
    subst ho
    exact runHook_keeps L _ _ hok hfailed (by simp [Outlook.after, Deed.ending?, Hook.ending?])
      fun cause => by simp [Outlook.after, Deed.ending?, Hook.ending?]

theorem released_keeps : (t.released L).Keeps (.of t (some (.released : Resume α ε))) :=
  runFinally_keeps L (by simp [Outlook.of])
    (fun listener => finish_keeps (t := { t with listener, attached := false, finalized := true }))
    fun _ f => fail_keeps L f

theorem wrapUp_keeps {h : Hook α ε} {ending : Ending} (hfatal : h.isFatal = false)
    (hannounces : h.announces? = some ending) : (t.wrapUp L h ending).Keeps (t.outlook α ε) := by
  have hending := Hook.ending?_of_announces hannounces
  have hdropped : ∀ u : Tap σ, ∀ f, (u.dropFault L f finish).Keeps (u.outlook α ε) :=
    fun u f => dropFault_keeps L (fun _ => Outlook.of_none_ne_due) fun _ => finish_keeps
  unfold wrapUp
  refine runHook_keeps L (if t.finalized then .settled else .due ending) (t.outlook α ε) ?_
    (fun listener f => hdropped { t with listener := listener } f) ?_ fun cause => ?_
  · intro listener
    exact runFinally_keeps L rfl
      (fun listener => finish_keeps (t := { t with listener, finalized := true }))
      fun listener f => hdropped { t with listener, finalized := true } f
  · unfold outlook Outlook.of
    cases t.finalized <;>
      simp [Outlook.after, Deed.ending?, hending, Deed.isFatal, Deed.announces?, hannounces]
  · exact Outlook.after_other (fun _ => Outlook.of_none_ne_due) hending hfatal rfl

/-! ## Signals and controls -/

theorem malformedNext_keeps (x : α) : (t.malformedNext L x).Keeps (t.outlook α ε) :=
  runHook_keeps_other L (fun _ => Outlook.of_none_ne_due) rfl rfl rfl
    (fun _ => dropItem_keeps x) fun _ _ =>
      dropFault_keeps L (fun _ => Outlook.of_none_ne_due) fun _ => dropItem_keeps x

theorem onNext_keeps (x : α) : (t.onNext L x).Keeps (t.outlook α ε) := by
  unfold onNext
  split
  · exact malformedNext_keeps L x
  · refine runHook_keeps_fatal L rfl rfl (fun listener => ?_) fun _ f => fail_keeps L f
    split
    · exact down_keeps rfl
    · exact dropItem_keeps x

theorem consumed_keeps (x : α) : (t.consumed L x).Keeps (t.outlook α ε) :=
  runHook_keeps_fatal L rfl rfl (fun _ => finish_keeps) fun _ f => fail_keeps L f

theorem onOffer_keeps (conditional : Bool) (x : α) :
    (t.onOffer L conditional x).Keeps (t.outlook α ε) := by
  unfold onOffer
  split
  · exact malformedNext_keeps L x
  · split
    · split <;> exact down_keeps rfl
    · exact dropItem_keeps x

theorem passedError_keeps (e : ε) : (t.passedError L e).Keeps (t.outlook α ε) :=
  wrapUp_keeps L rfl rfl

theorem passedComplete_keeps : (t.passedComplete L).Keeps (t.outlook α ε) :=
  wrapUp_keeps L rfl rfl

theorem onError_keeps (e : ε) : (t.onError L e).Keeps (t.outlook α ε) := by
  unfold onError
  split
  · exact runHook_keeps_other L (fun _ => Outlook.of_none_ne_due) rfl rfl rfl
      (fun _ => dropError_keeps _) fun _ _ =>
        dropFault_keeps L (fun _ => Outlook.of_none_ne_due) fun _ => dropError_keeps _
  · refine runHook_keeps_fatal (u := { t with done := true }) L rfl rfl (fun listener => ?_)
      fun listener f => ?_
    · dsimp only
      split
      · exact down_keeps (t := { t with listener, attached := false, done := true }) rfl
      · exact (passedError_keeps (t := { t with listener, attached := false, done := true }) L
          e).after_other (fun _ => Outlook.of_none_ne_due) rfl rfl rfl
    · have hof : Outlook.of ({ t with listener, done := true } : Tap σ)
          (some (.spoiled f e : Resume α ε)) = .settled := by simp [Outlook.of]
      have hspoiled := spoiled_keeps (t := { t with listener, done := true }) L f e
      rw [← hof] at hspoiled ⊢
      exact cancelSource_keeps hspoiled

theorem onComplete_keeps : (t.onComplete L).Keeps (t.outlook α ε) := by
  unfold onComplete
  split
  · exact runHook_keeps_other L (fun _ => Outlook.of_none_ne_due) rfl rfl rfl
      (fun _ => finish_keeps) fun _ _ =>
        dropFault_keeps L (fun _ => Outlook.of_none_ne_due) fun _ => finish_keeps
  · refine runHook_keeps_fatal (u := { t with done := true }) L rfl rfl (fun listener => ?_)
      fun _ f => fail_keeps L f
    dsimp only
    split
    · exact down_keeps (t := { t with listener, attached := false, done := true }) rfl
    · exact passedComplete_keeps (t := { t with listener, attached := false, done := true }) L

theorem onRequest_keeps (n : UInt64) : (t.onRequest L n).Keeps (t.outlook α ε) := by
  unfold onRequest
  split
  · refine runHook_keeps_fatal L rfl rfl (fun listener => ?_) fun _ f => fail_keeps L f
    dsimp only
    split
    · rfl
    · exact finish_keeps
  · exact dropError_keeps _

theorem onCancel_keeps : (t.onCancel L).Keeps (t.outlook α ε) := by
  refine runHook_keeps L (.of t (some (.released : Resume α ε))) .settled (fun listener => ?_)
    (fun _ f => failed_keeps L f) ?_ fun cause => ?_
  · exact cancelSource_keeps (t := { t with listener }) (released_keeps L)
  all_goals
    unfold outlook Outlook.of
    cases t.finalized <;> rfl

theorem onSubscribe_keeps (self h : Handle) : (t.onSubscribe L self h).Keeps (t.outlook α ε) := by
  unfold onSubscribe
  split
  · rfl
  · refine runHook_keeps_fatal (u := { t with source := some h }) L rfl rfl (fun listener => ?_)
      fun listener f => ?_
    · split
      · exact down_keeps rfl
      · exact finish_keeps
    · simp [Turn.Keeps, Turn.deeds, Next.deeds, Next.resume?, Outlook.of]

theorem serve_keeps (self : Handle) (conditional : Bool) (input : Input α ε) :
    (t.serve L self conditional input).Keeps (t.outlook α ε) := by
  cases input with
  | signal s =>
      cases s with
      | subscribe h => exact onSubscribe_keeps L self h
      | next x => exact onNext_keeps L x
      | offer x => exact onOffer_keeps L conditional x
      | error e => exact onError_keeps L e
      | complete => exact onComplete_keeps L
  | control c =>
      cases c with
      | request n => exact onRequest_keeps L n
      | cancel => exact onCancel_keeps L

theorem refused_keeps (f : Fault) : (t.refused L f).Keeps .settled := by
  refine report_keeps L (fun _ => nofun) fun listener => ?_
  dsimp only
  split
  · exact down_keeps (t := { t with listener, attached := false, done := true, finalized := true })
      rfl
  · exact finish_keeps
      (t := { t with listener, attached := false, done := true, finalized := true })

theorem resume_keeps (r : Resume α ε) (b : Bool) :
    (t.resume L r b).Keeps (.of t (some r)) := by
  cases r with
  | leave => exact finish_keeps
  | ignored => exact finish_keeps.after_other (fun _ => Outlook.of_none_ne_due) rfl rfl rfl
  | excused f => exact down_keeps rfl
  | passedError e => exact passedError_keeps L e
  | passedComplete => exact passedComplete_keeps L
  | offered x =>
      cases b with
      | true => exact consumed_keeps L x
      | false => exact reply_keeps false
  | sent x => exact consumed_keeps L x
  | released => exact released_keeps L
  | refused f =>
      have hsettled := refused_keeps (t := t) L f
      rwa [show Outlook.of t (some (.refused f : Resume α ε)) = .settled by simp [Outlook.of]]
  | failed f =>
      have hsettled := failed_keeps (t := t) L f
      rwa [show Outlook.of t (some (.failed f : Resume α ε)) = .settled by simp [Outlook.of]]
  | spoiled f e =>
      have hsettled := spoiled_keeps (t := t) L f e
      rwa [show Outlook.of t (some (.spoiled f e : Resume α ε)) = .settled by simp [Outlook.of]]

end Tap

end Wiretap

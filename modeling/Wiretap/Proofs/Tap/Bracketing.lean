import Wiretap.Proofs.Tap.Epilogue

/-!
# Hooks around deliveries

What a tap sends its receiver it has just told its listener, and what it tells its listener of an
ending, before and after, comes in a fixed order: the hook for it, the delivery, or the drop if
there is no receiver, the hook after it, the last hook. Here the order is read off single turns. A
turn goes on after a delivery of an ending, or it takes up an ending, or it has to do with none.
-/

namespace Wiretap

variable {K : Kinds} {σ α ε : Type}

/-- An ending of the source. -/
inductive Farewell (ε : Type)
  | error (e : ε)
  | complete

namespace Farewell

/-- The hook for it. -/
def hook : Farewell ε → Hook α ε
  | .error e => .error e
  | .complete => .complete

/-- The hook after it. -/
def after : Farewell ε → Hook α ε
  | .error e => .afterError e
  | .complete => .afterComplete

/-- What the last hook is told of it. -/
def ending : Farewell ε → Ending
  | .error _ => .error
  | .complete => .complete

/-- The signal by which the receiver gets it. -/
def signal : Farewell ε → Signal α (TapError ε)
  | .error e => .error (.source e)
  | .complete => .complete

/-- What is done with it where there is no receiver: a completion leaves no trace. -/
def drop : Farewell ε → List (Tap.Act α ε)
  | .error e => [.droppedError (.source e)]
  | .complete => []

/-- Where the tap goes on when the receiver has got it. -/
def resume : Farewell ε → Tap.Resume α ε
  | .error e => .passedError e
  | .complete => .passedComplete

end Farewell

namespace Hook

/-- Is it a hook for an ending? -/
def isFarewell : Hook α ε → Bool
  | .error _ | .complete => true
  | _ => false

/-- Is it a hook that has to do with an ending of the source, be it before or after? -/
def isClosing : Hook α ε → Bool
  | .error _ | .complete | .afterError _ | .afterComplete => true
  | .finally ending => ending != .cancel
  | _ => false

theorem isFarewell_of_isClosing {h : Hook α ε} (hfree : h.isClosing = false) :
    h.isFarewell = false := by
  cases h <;> first | rfl | cases hfree

theorem isAfter_of_isClosing {h : Hook α ε} (hfree : h.isClosing = false) :
    h.isAfter = false := by
  cases h <;> first | rfl | cases hfree

end Hook

namespace Farewell

variable (w : Farewell ε)

@[simp] theorem isFarewell_hook : (w.hook : Hook α ε).isFarewell = true := by cases w <;> rfl

@[simp] theorem isAfter_hook : (w.hook : Hook α ε).isAfter = false := by cases w <;> rfl

@[simp] theorem isFarewell_after : (w.after : Hook α ε).isFarewell = false := by cases w <;> rfl

@[simp] theorem isAfter_after : (w.after : Hook α ε).isAfter = true := by cases w <;> rfl

@[simp] theorem isClosing_after : (w.after : Hook α ε).isClosing = true := by cases w <;> rfl

@[simp] theorem isPassed_resume : (w.resume : Tap.Resume α ε).isPassed = true := by
  cases w <;> rfl

end Farewell

/-- The hook that announces a signal to the listener before a tap sends it. An empty handle, a fault
of the listener and an offer come unannounced. -/
def Signal.announcement? : Signal α (TapError ε) → Option (Hook α ε)
  | .subscribe (.tap _) => some .subscription
  | .next x => some (.next x)
  | .error (.source e) => some (.error e)
  | .complete => some .complete
  | _ => none

@[simp] theorem Farewell.announcement?_signal (w : Farewell ε) :
    (w.signal : Signal α (TapError ε)).announcement? = some w.hook := by cases w <;> rfl

namespace Tap

/-- Has it nothing to do with an ending of the source? -/
def Act.isFree : Act α ε → Bool
  | .ran h _ => !h.isClosing
  | _ => true

/-- Did the tap run a hook for an ending? -/
def Act.isFarewell : Act α ε → Bool
  | .ran h _ => h.isFarewell
  | _ => false

/-- Did the tap run a hook for an ending, and did it succeed? -/
def Act.isGranted : Act α ε → Bool
  | .ran h none => h.isFarewell
  | _ => false

/-- Did the tap run a hook after an ending? -/
def Act.isAfter : Act α ε → Bool
  | .ran h _ => h.isAfter
  | _ => false

theorem Act.isFarewell_of_isFree {act : Act α ε} (h : act.isFree = true) :
    act.isFarewell = false := by
  cases act with
  | ran hook failure => exact Hook.isFarewell_of_isClosing (by simpa [Act.isFree] using h)
  | _ => rfl

theorem Act.isAfter_of_isFree {act : Act α ε} (h : act.isFree = true) : act.isAfter = false := by
  cases act with
  | ran hook failure => exact Hook.isAfter_of_isClosing (by simpa [Act.isFree] using h)
  | _ => rfl

theorem Act.isFarewell_of_isGranted {act : Act α ε} (h : act.isGranted = true) :
    act.isFarewell = true := by
  rcases act with ⟨hook, _ | cause⟩ | _ | _ | _ | _ | _
  case ran.none => exact h
  all_goals cases h

theorem countP_isGranted_free {acts : List (Act α ε)} (h : ∀ act ∈ acts, act.isFree = true) :
    acts.countP Act.isGranted = 0 := by
  refine List.countP_eq_zero.mpr fun act hact hgranted => ?_
  have hnot := Act.isFarewell_of_isFree (h act hact)
  rw [Act.isFarewell_of_isGranted hgranted] at hnot
  cases hnot

theorem countP_isAfter_free {acts : List (Act α ε)} (h : ∀ act ∈ acts, act.isFree = true) :
    acts.countP Act.isAfter = 0 := by
  refine List.countP_eq_zero.mpr fun act hact => ?_
  rw [Act.isAfter_of_isFree (h act hact)]
  exact Bool.false_ne_true

/-- The ending that has been passed on when the tap resumes. -/
def Resume.farewell? : Resume α ε → Option (Farewell ε)
  | .passedError e => some (.error e)
  | .passedComplete => some .complete
  | _ => none

theorem Resume.farewell?_eq_some {r : Resume α ε} {w : Farewell ε} :
    r.farewell? = some w ↔ r = w.resume := by
  cases r <;> cases w <;> simp [Resume.farewell?, Farewell.resume]

theorem Resume.isPassed_eq (r : Resume α ε) : r.isPassed = r.farewell?.isSome := by
  cases r <;> rfl

/-- A turn that has nothing to do with an ending of the source, and that sends nothing that would
have to be announced. -/
structure Turn.Free (t : Tap σ) (turn : Turn σ α ε) : Prop where
  acts : ∀ act ∈ turn.acts, act.isFree = true
  done : t.done = true → turn.tap.done = true
  resume : ∀ r ∈ turn.next.resume?, r.isPassed = false
  silent : ∀ s r, turn.next = .down s r → s.announcement? = none

namespace Turn.Free

variable {turn : Turn σ α ε} {t u : Tap σ}

theorem after {act : Act α ε} (h : turn.Free t) (hact : act.isFree = true) :
    (turn.after act).Free t where
  acts := by
    intro other hother
    rcases List.mem_cons.mp hother with rfl | hother
    · exact hact
    · exact h.acts other hother
  done := h.done
  resume := h.resume
  silent := h.silent

/-- Only the end of the subscription matters. -/
theorem of_done (h : turn.Free u) (hdone : t.done = true → u.done = true) : turn.Free t :=
  ⟨h.acts, fun hnow => h.done (hdone hnow), h.resume, h.silent⟩

/-- The state of the listener, the handle of the source and the last hook do not matter. -/
theorem of_parts {listener : σ} {source : Option Handle} {attached finalized : Bool}
    (h : turn.Free { t with listener, source, attached, finalized }) : turn.Free t := h.of_done id

theorem of_next {next : Next α ε} (hresume : ∀ r ∈ next.resume?, r.isPassed = false)
    (hsilent : ∀ s r, next = .down s r → s.announcement? = none) :
    (⟨[], t, next⟩ : Turn σ α ε).Free t :=
  ⟨nofun, id, hresume, hsilent⟩

theorem of_up {h : Handle} {c : Control} {r : Resume α ε} (hr : r.isPassed = false) :
    (⟨[], t, .up h c r⟩ : Turn σ α ε).Free t :=
  of_next (by simpa [Next.resume?] using hr) nofun

end Turn.Free

variable {t : Tap σ}

theorem reply_free (b : Bool) : (t.reply b : Turn σ α ε).Free t :=
  .of_next (by simp [Next.resume?]) nofun

theorem finish_free : (t.finish : Turn σ α ε).Free t := reply_free true

theorem dropItem_free (x : α) : (t.dropItem x : Turn σ α ε).Free t := finish_free.after rfl

theorem dropError_free (e : Undelivered ε) : (t.dropError e : Turn σ α ε).Free t :=
  finish_free.after rfl

theorem down_free {s : Signal α (TapError ε)} {r : Resume α ε} (hs : s.announcement? = none)
    (hr : r.isPassed = false) : (t.down s r).Free t := by
  refine .of_next (by simpa [Next.resume?] using hr) fun s' r' hnext => ?_
  cases hnext
  exact hs

theorem cancelSource_free {r : Resume α ε} {goOn : Turn σ α ε} (hr : r.isPassed = false)
    (hgoOn : goOn.Free t) : (t.cancelSource r goOn).Free t := by
  unfold cancelSource
  split
  · exact .of_up hr
  · exact hgoOn

/-- A stream that ends with an error of the tap's own ends unannounced. -/
theorem terminate_free {e : TapError ε}
    (he : (.error e : Signal α (TapError ε)).announcement? = none) :
    (t.terminate e : Turn σ α ε).Free t := by
  unfold terminate
  split
  · exact (down_free he rfl).of_done fun _ => rfl
  · exact (dropError_free _).of_done fun _ => rfl

variable (L : Listener σ α ε)

theorem runHook_free {u : Tap σ} {h : Hook α ε} {ok : Tap σ → Turn σ α ε}
    {failed : Tap σ → Fault → Turn σ α ε} (hhook : h.isClosing = false)
    (hok : ∀ listener, (ok { u with listener := listener }).Free t)
    (hfailed : ∀ listener f, (failed { u with listener := listener } f).Free t) :
    (u.runHook L h ok failed).Free t := by
  have hact : ∀ failure, (.ran h failure : Act α ε).isFree = true := by simp [Act.isFree, hhook]
  unfold runHook
  rcases L.run u.listener h with ⟨listener, _ | cause⟩
  · exact (hok listener).after (hact none)
  · exact (hfailed listener _).after (hact _)

theorem failed_free (f : Fault) : (t.failed L f).Free t :=
  (terminate_free (e := .listener f) rfl).of_parts.after rfl

theorem fail_free (f : Fault) : (t.fail L f).Free t := cancelSource_free rfl (failed_free L f)

theorem spoiled_free (f : Fault) (e : ε) : (t.spoiled L f e).Free t :=
  (terminate_free (e := .multiple f e) rfl).of_parts.after rfl

theorem dropFault_free {u : Tap σ} {f : Fault} {goOn : Tap σ → Turn σ α ε}
    (hgoOn : ∀ listener, (goOn { u with listener := listener }).Free t) :
    (u.dropFault L f goOn).Free t :=
  ((hgoOn _).after rfl).after rfl

theorem dropFault_finish_free (f : Fault) : (t.dropFault L f finish : Turn σ α ε).Free t :=
  dropFault_free L fun _ => finish_free.of_parts

theorem malformedNext_free (x : α) : (t.malformedNext L x).Free t :=
  runHook_free L rfl (fun _ => (dropItem_free x).of_parts)
    fun _ _ => dropFault_free L fun _ => (dropItem_free x).of_parts

theorem consumed_free (x : α) : (t.consumed L x).Free t :=
  runHook_free L rfl (fun _ => finish_free.of_parts) fun _ f => (fail_free L f).of_parts

theorem refused_free (f : Fault) : (t.refused L f : Turn σ α ε).Free t := by
  refine Turn.Free.after ?_ rfl
  dsimp only
  split
  · exact (down_free rfl rfl).of_done fun _ => rfl
  · exact finish_free.of_done fun _ => rfl

theorem onRequest_free (n : UInt64) : (t.onRequest L n).Free t := by
  unfold onRequest
  split
  · refine runHook_free L rfl (fun listener => ?_) fun _ f => (fail_free L f).of_parts
    dsimp only
    split
    · exact (Turn.Free.of_up (r := .leave) rfl).of_parts
    · exact finish_free.of_parts
  · exact dropError_free _

theorem released_free : (t.released L).Free t := by
  unfold released runFinally
  split
  · exact finish_free.of_parts
  · exact runHook_free L rfl (fun _ => finish_free.of_parts) fun _ f => (fail_free L f).of_parts

theorem onCancel_free : (t.onCancel L).Free t :=
  runHook_free L rfl (fun _ => (cancelSource_free (r := .released) rfl (released_free L)).of_parts)
    fun _ f => (failed_free L f).of_parts

/-- What is done once an ending has been passed on or dropped: the hook after it, and if that
succeeds and the last hook has not been settled, the last hook. -/
inductive Wrapped (w : Farewell ε) : List (Act α ε) → Prop
  | failed (cause : Cause) {acts : List (Act α ε)} (hfree : ∀ act ∈ acts, act.isFree = true) :
    Wrapped w (.ran w.after (some cause) :: acts)
  | settled : Wrapped w [.ran w.after none]
  | concluded (failure : Option Cause) {acts : List (Act α ε)}
    (hfree : ∀ act ∈ acts, act.isFree = true) :
    Wrapped w (.ran w.after none :: .ran (.finally w.ending) failure :: acts)

/-- The order of things in a turn of the tap `t` that goes on after an ending, if one is given. -/
inductive Turn.Orderly (t : Tap σ) (turn : Turn σ α ε) : Option (Farewell ε) → Prop
  /-- It has nothing to do with an ending. -/
  | free (h : turn.Free t) : Orderly t turn none
  /-- A signal is announced and sent. -/
  | announced {h : Hook α ε} {s : Signal α (TapError ε)} {r : Resume α ε}
    (hh : h.isClosing = false) (hs : s.announcement? = some h) (hr : r.isPassed = false)
    (hacts : turn.acts = [.ran h none]) (hnext : turn.next = .down s r)
    (hdone : t.done = true → turn.tap.done = true) : Orderly t turn none
  /-- An ending is announced and sent. -/
  | passed (w : Farewell ε) (hopen : t.done = false) (hacts : turn.acts = [.ran w.hook none])
    (hnext : turn.next = .down w.signal w.resume) (hdone : turn.tap.done = true) :
    Orderly t turn none
  /-- An ending is announced and dropped. -/
  | dropped (w : Farewell ε) {acts : List (Act α ε)} (hopen : t.done = false)
    (hacts : turn.acts = .ran w.hook none :: (w.drop ++ acts)) (hwrapped : Wrapped w acts)
    (hnext : turn.next = .answer true) (hdone : turn.tap.done = true) : Orderly t turn none
  /-- The hook for an ending fails. -/
  | spoiled (w : Farewell ε) (cause : Cause) {rest : Turn σ α ε} (hopen : t.done = false)
    (hturn : turn = rest.after (.ran w.hook (some cause)))
    (hfree : rest.Free { t with done := true }) : Orderly t turn none
  /-- An ending has been sent. -/
  | wrapped (w : Farewell ε) (hwrapped : Wrapped w turn.acts) (hnext : turn.next = .answer true)
    (hdone : t.done = true → turn.tap.done = true) : Orderly t turn (some w)

theorem Wrapped.isFarewell {w : Farewell ε} {acts : List (Act α ε)} (h : Wrapped w acts) :
    ∀ act ∈ acts, act.isFarewell = false := by
  have hafter : ∀ failure, (.ran w.after failure : Act α ε).isFarewell = false :=
    fun _ => w.isFarewell_after
  intro act hact
  cases h with
  | failed cause hfree =>
      rcases List.mem_cons.mp hact with rfl | hact
      · exact hafter _
      · exact Act.isFarewell_of_isFree (hfree act hact)
  | settled =>
      rw [List.mem_singleton.mp hact]
      exact hafter _
  | concluded failure hfree =>
      rcases List.mem_cons.mp hact with rfl | hact
      · exact hafter _
      rcases List.mem_cons.mp hact with rfl | hact
      · rfl
      · exact Act.isFarewell_of_isFree (hfree act hact)

theorem Wrapped.counts {w : Farewell ε} {acts : List (Act α ε)} (h : Wrapped w acts) :
    acts.countP Act.isGranted = 0 ∧ acts.countP Act.isAfter = 1 := by
  refine ⟨List.countP_eq_zero.mpr fun act hact hgranted => ?_, ?_⟩
  · have hnot := h.isFarewell act hact
    rw [Act.isFarewell_of_isGranted hgranted] at hnot
    cases hnot
  · have hafter : ∀ failure, (.ran w.after failure : Act α ε).isAfter = true :=
      fun _ => w.isAfter_after
    cases h with
    | failed cause hfree => simp [hafter, countP_isAfter_free hfree]
    | settled => simp [hafter]
    | concluded failure hfree =>
        have hlast : (.ran (.finally w.ending) failure : Act α ε).isAfter = false := rfl
        simp [hafter, hlast, countP_isAfter_free hfree]

namespace Turn.Orderly

variable {turn : Turn σ α ε} {due : Option (Farewell ε)}

theorem done (h : turn.Orderly t due) (hdone : t.done = true) : turn.tap.done = true := by
  cases h with
  | free h => exact h.done hdone
  | announced _ _ _ _ _ hkept => exact hkept hdone
  | passed _ _ _ _ hended => exact hended
  | dropped _ _ _ _ _ hended => exact hended
  | spoiled _ _ _ hturn hfree =>
      rw [hturn]
      exact hfree.done rfl
  | wrapped _ _ _ hkept => exact hkept hdone

/-- A tap that runs the hook for an ending has come to the end. -/
theorem ended (h : turn.Orderly t due) {act : Act α ε} (hact : act ∈ turn.acts)
    (hfarewell : act.isFarewell = true) : turn.tap.done = true := by
  have hnot : act.isFarewell = false → turn.tap.done = true := by
    intro hfalse
    rw [hfarewell] at hfalse
    cases hfalse
  cases h with
  | free h => exact hnot (Act.isFarewell_of_isFree (h.acts act hact))
  | @announced hook s r hh hs hr hacts =>
      rw [hacts, List.mem_singleton] at hact
      subst hact
      exact hnot (Hook.isFarewell_of_isClosing hh)
  | passed _ _ _ _ hended => exact hended
  | dropped _ _ _ _ _ hended => exact hended
  | spoiled _ _ _ hturn hfree =>
      rw [hturn]
      exact hfree.done rfl
  | wrapped _ hwrapped => exact hnot (hwrapped.isFarewell act hact)

/-- What a tap sends at the end of a turn it has just announced, if it has to be announced. -/
theorem announces (h : turn.Orderly t due) {s : Signal α (TapError ε)} {r : Resume α ε}
    (hnext : turn.next = .down s r) {hook : Hook α ε} (hs : s.announcement? = some hook) :
    ∃ before, turn.acts = before ++ [.ran hook none] := by
  have hnone : s.announcement? = none → ∃ before, turn.acts = before ++ [.ran hook none] := by
    rw [hs]
    exact nofun
  cases h with
  | free h => exact hnone (h.silent s r hnext)
  | announced hh hs' hr hacts hnext' =>
      cases hnext.symm.trans hnext'
      cases hs.symm.trans hs'
      exact ⟨[], hacts⟩
  | passed w _ hacts hnext' =>
      cases hnext.symm.trans hnext'
      cases hs.symm.trans w.announcement?_signal
      exact ⟨[], hacts⟩
  | dropped _ _ _ _ hnext' => cases hnext.symm.trans hnext'
  | spoiled _ _ _ hturn hfree =>
      rw [hturn] at hnext
      exact hnone (hfree.silent s r hnext)
  | wrapped _ _ hnext' => cases hnext.symm.trans hnext'

/-- For every ending whose hook succeeds there is a hook after it, be it now or later. -/
theorem balance (h : turn.Orderly t due) :
    turn.acts.countP Act.isGranted + due.isSome.toNat =
      turn.acts.countP Act.isAfter + turn.next.resume?.toList.countP Resume.isPassed := by
  have hpassed : (∀ r ∈ turn.next.resume?, r.isPassed = false) →
      turn.next.resume?.toList.countP Resume.isPassed = 0 := by
    intro hnot
    refine List.countP_eq_zero.mpr fun r hr => ?_
    rw [hnot r (by simpa using hr)]
    exact Bool.false_ne_true
  have hgranted : ∀ w : Farewell ε, (.ran w.hook none : Act α ε).isGranted = true :=
    fun w => w.isFarewell_hook
  have hafter : ∀ (w : Farewell ε) failure, (.ran w.hook failure : Act α ε).isAfter = false :=
    fun w _ => w.isAfter_hook
  cases h with
  | free h =>
      rw [countP_isGranted_free h.acts, countP_isAfter_free h.acts, hpassed h.resume]
      rfl
  | @announced hook s r hh hs hr hacts hnext =>
      have hfree : ∀ act ∈ turn.acts, act.isFree = true := by simp [hacts, Act.isFree, hh]
      rw [countP_isGranted_free hfree, countP_isAfter_free hfree, hnext]
      simp [Next.resume?, hr]
  | passed w _ hacts hnext =>
      rw [hacts, hnext]
      simp [hgranted, hafter, Next.resume?]
  | @dropped w acts _ hacts hwrapped hnext =>
      have hdrop : ∀ act ∈ (w.drop : List (Act α ε)), act.isFree = true := by
        cases w <;> simp [Farewell.drop, Act.isFree]
      rw [hacts, hnext]
      simp [hgranted, hafter, hwrapped.counts, countP_isGranted_free hdrop,
        countP_isAfter_free hdrop, Next.resume?]
  | @spoiled w cause rest _ hturn hfree =>
      have hnot : (.ran w.hook (some cause) : Act α ε).isGranted = false := rfl
      subst hturn
      rw [hpassed hfree.resume, acts_after]
      simp [hnot, hafter, countP_isGranted_free hfree.acts, countP_isAfter_free hfree.acts]
  | wrapped w hwrapped hnext =>
      rw [hnext, hwrapped.counts.1, hwrapped.counts.2]
      rfl

end Turn.Orderly

theorem wrapUp_wrapped (w : Farewell ε) :
    Wrapped w (t.wrapUp L w.after w.ending).acts ∧
      (t.wrapUp L w.after w.ending).next = .answer true ∧
      (t.wrapUp L w.after w.ending).tap.done = t.done := by
  have hdropped : ∀ (u : Tap σ) (f : Fault), ∀ act ∈ (u.dropFault L f finish : Turn σ α ε).acts,
      act.isFree = true := fun u f => (dropFault_finish_free L f).acts
  unfold wrapUp runHook
  rcases L.run t.listener w.after with ⟨listener, _ | cause⟩
  · unfold runFinally
    dsimp only
    split
    · exact ⟨.settled, rfl, rfl⟩
    · unfold runHook
      dsimp only
      rcases L.run listener (.finally w.ending) with ⟨last, _ | cause⟩
      · exact ⟨.concluded none nofun, rfl, rfl⟩
      · exact ⟨.concluded _ (hdropped _ _), rfl, rfl⟩
  · exact ⟨.failed cause (hdropped _ _), rfl, rfl⟩

theorem onSubscribe_orderly (place : Nat) (h : Handle) :
    (t.onSubscribe L (.tap place) h).Orderly t none := by
  unfold onSubscribe
  split
  · exact .free (.of_up rfl)
  · unfold runHook
    rcases L.run t.listener .subscription with ⟨listener, _ | cause⟩
    · dsimp only
      split
      · exact .announced (h := .subscription) rfl rfl rfl rfl rfl id
      · exact .free (finish_free.of_parts.after rfl)
    · exact .free ((Turn.Free.of_up (r := .refused _) rfl).of_parts.after rfl)

theorem onNext_orderly (x : α) : (t.onNext L x).Orderly t none := by
  unfold onNext
  split
  · exact .free (malformedNext_free L x)
  · unfold runHook
    rcases L.run t.listener (.next x) with ⟨listener, _ | cause⟩
    · dsimp only
      split
      · exact .announced (h := .next x) rfl rfl rfl rfl rfl id
      · exact .free ((dropItem_free x).of_parts.after rfl)
    · exact .free ((fail_free L _).of_parts.after rfl)

theorem onError_orderly (e : ε) : (t.onError L e).Orderly t none := by
  unfold onError
  split
  next hdone =>
    exact .free (runHook_free L rfl (fun _ => (dropError_free _).of_parts)
      fun _ _ => dropFault_free L fun _ => (dropError_free _).of_parts)
  next hopen =>
    have hopen : t.done = false := by simpa using hopen
    unfold runHook
    rcases L.run t.listener (.error e) with ⟨listener, _ | cause⟩
    · dsimp only
      split
      · exact .passed (.error e) hopen rfl rfl rfl
      · obtain ⟨hwrapped, hnext, hdone⟩ := wrapUp_wrapped L (.error e)
          (t := { t with listener, attached := false, done := true })
        exact .dropped (.error e) hopen rfl hwrapped hnext hdone
    · refine .spoiled (.error e) cause hopen rfl ?_
      exact (cancelSource_free (r := .spoiled _ e) rfl (spoiled_free L _ e)).of_parts

theorem onComplete_orderly : (t.onComplete L).Orderly t none := by
  unfold onComplete
  split
  next hdone =>
    exact .free (runHook_free L rfl (fun _ => finish_free.of_parts)
      fun _ f => (dropFault_finish_free L f).of_parts)
  next hopen =>
    have hopen : t.done = false := by simpa using hopen
    unfold runHook
    rcases L.run t.listener .complete with ⟨listener, _ | cause⟩
    · dsimp only
      split
      · exact .passed .complete hopen rfl rfl rfl
      · obtain ⟨hwrapped, hnext, hdone⟩ := wrapUp_wrapped L .complete
          (t := { t with listener, attached := false, done := true })
        exact .dropped .complete hopen rfl hwrapped hnext hdone
    · exact .spoiled .complete cause hopen rfl (fail_free L _).of_parts

/-- Whatever a tap is called with, except an offer. -/
theorem serve_orderly (place : Nat) (conditional : Bool) {input : Input α ε}
    (hinput : ∀ x, input ≠ .signal (.offer x)) :
    (t.serve L (.tap place) conditional input).Orderly t none := by
  rcases input with (h | x | x | e | _) | (n | _)
  case signal.subscribe => exact onSubscribe_orderly L place h
  case signal.next => exact onNext_orderly L x
  case signal.offer => exact absurd rfl (hinput x)
  case signal.error => exact onError_orderly L e
  case signal.complete => exact onComplete_orderly L
  case control.request => exact .free (onRequest_free L n)
  case control.cancel => exact .free (onCancel_free L)

/-- Wherever a tap resumes. -/
theorem resume_orderly (r : Resume α ε) (b : Bool) :
    (t.resume L r b).Orderly t r.farewell? := by
  have hwrapped : ∀ w : Farewell ε, (t.wrapUp L w.after w.ending).Orderly t (some w) := by
    intro w
    obtain ⟨hwrapped, hnext, hdone⟩ := wrapUp_wrapped (t := t) L w
    exact .wrapped w hwrapped hnext fun hended => hdone.trans hended
  cases r with
  | leave => exact .free finish_free
  | ignored => exact .free (finish_free.after rfl)
  | refused f => exact .free (refused_free L f)
  | excused f => exact .free (down_free rfl rfl)
  | failed f => exact .free (failed_free L f)
  | spoiled f e => exact .free (spoiled_free L f e)
  | passedError e => exact hwrapped (.error e)
  | passedComplete => exact hwrapped .complete
  | offered x =>
      cases b with
      | true => exact .free (consumed_free L x)
      | false => exact .free (reply_free false)
  | sent x => exact .free (consumed_free L x)
  | released => exact .free (released_free L)

end Tap

end Wiretap

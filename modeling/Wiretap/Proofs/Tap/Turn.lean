import Wiretap.Proofs.Tap.Ledger

/-!
# What a turn can do

Apart from the arrival of a handle, every turn of a tap obeys one law: it keeps the handle of the
source, never attaches the receiver again, speaks to the receiver only while it is attached and
detaches it before an ending, uses no other handle than that of the source, and accounts for the
faults it is charged with. The law is proved once for each operation.
-/

namespace Wiretap

/-- Does the signal bring a handle? -/
def Signal.isSubscribe {α ε : Type} : Signal α ε → Bool
  | .subscribe _ => true
  | _ => false

/-- The handle that the signal brings. -/
def Signal.handle? {α ε : Type} : Signal α ε → Option Handle
  | .subscribe h => some h
  | _ => none

/-- Does the control ask for the end? -/
def Control.isCancel : Control → Bool
  | .cancel => true
  | .request _ => false

/-- Is it the hook for a handle? -/
def Hook.isSubscription {α ε : Type} : Hook α ε → Bool
  | .subscription => true
  | _ => false

namespace Tap

variable {K : Kinds} {σ α ε : Type}

/-- Did the tap run the hook for a handle? -/
def Act.opens : Act α ε → Bool
  | .ran h _ => h.isSubscription
  | _ => false

namespace Resume

/-- Does the tap wait for the cancellation of a handle that it refused? -/
def isRefusal : Resume α ε → Bool
  | .refused _ => true
  | _ => false

/-- Does the tap owe its receiver the fault that explains an empty handle? -/
def isExcuse : Resume α ε → Bool
  | .excused _ => true
  | _ => false

/-- Does the tap wait for the cancellation of a handle? -/
def waits : Resume α ε → Bool
  | .ignored | .refused _ | .failed _ | .spoiled _ _ | .released => true
  | _ => false

theorem isRefusal_of_waits {r : Resume α ε} (h : r.waits = false) : r.isRefusal = false := by
  cases r with
  | refused f => cases h
  | _ => rfl

/-- Has the tap made an offer to its receiver? -/
def isOffered : Resume α ε → Bool
  | .offered _ => true
  | _ => false

/-- Will the tap end the stream because of a fault when it resumes? -/
def isFatal : Resume α ε → Bool
  | .failed _ | .spoiled _ _ => true
  | _ => false

theorem waits_of_isFatal {r : Resume α ε} (h : r.isFatal = true) : r.waits = true := by
  cases r with
  | failed f => rfl
  | spoiled f e => rfl
  | _ => cases h

/-- The fault that will be reported when the tap resumes. -/
def unreported? : Resume α ε → Option Fault
  | .refused f => some f
  | .failed f => some f
  | .spoiled f _ => some f
  | _ => none

/-- The fault that has been reported and will leave when the tap resumes. -/
def unsettled? : Resume α ε → Option Fault
  | .excused f => some f
  | _ => none

theorem unsettled?_of_isExcuse {r : Resume α ε} (h : r.isExcuse = false) :
    r.unsettled? = none := by
  cases r with
  | excused f => cases h
  | _ => rfl

end Resume

/-- The faults that a turn leaves to be reported. -/
def Next.unreported (next : Next α ε) : List Fault :=
  (next.resume?.bind Resume.unreported?).toList

/-- Does the turn leave the end of the stream to be sent when a cancellation returns? -/
def Next.isFatal (next : Next α ε) : Bool := next.resume?.any Resume.isFatal

/-- The law of a turn of the tap `t` that is charged with these faults. -/
structure Turn.Plain (t : Tap σ) (unreported unsettled : List Fault) (turn : Turn σ α ε) :
    Prop where
  /-- The handle of the source stays. -/
  source : turn.tap.source = t.source
  /-- The receiver is not attached again. -/
  attached : turn.tap.attached = true → t.attached = true
  /-- The end stays. -/
  done : t.done = true → turn.tap.done = true
  /-- The end comes with the receiver's last signal, unless that is still to be sent. -/
  ended : t.done = false → turn.tap.attached = true → turn.tap.done = true →
    turn.next.isFatal = true
  /-- The receiver is attached when it gets a signal, and not any more when that is its last. -/
  down : ∀ s r, turn.next = .down s r → t.attached = true ∧ s.isSubscribe = false ∧
    (s.isTerminal = true → turn.tap.attached = false) ∧ r.waits = false ∧ r.isExcuse = false
  /-- Only the handle of the source is used. -/
  up : ∀ h c r, turn.next = .up h c r →
    t.source = some h ∧ r.waits = c.isCancel ∧ r.isRefusal = false ∧ r.isExcuse = false
  /-- The hook for a handle is not run. -/
  hooks : ∀ act ∈ turn.acts, act.opens = false
  /-- Every fault is accounted for. -/
  balance : ∀ k : Ledger,
    Ledger.run ⟨unreported ++ k.unreported, unsettled ++ k.unsettled⟩ turn.deeds =
      some ⟨turn.next.unreported ++ k.unreported, k.unsettled⟩

namespace Turn.Plain

variable {t u : Tap σ} {unreported unreported' unsettled unsettled' : List Fault}
  {turn : Turn σ α ε}

theorem weaken (h : turn.Plain u unreported unsettled) (hsource : u.source = t.source)
    (hattached : u.attached = true → t.attached = true)
    (hdone : t.done = true → u.done = true)
    (hended : t.done = false → turn.tap.attached = true → turn.tap.done = true →
      turn.next.isFatal = true) :
    turn.Plain t unreported unsettled where
  source := h.source.trans hsource
  attached := fun hnow => hattached (h.attached hnow)
  done := fun hnow => h.done (hdone hnow)
  ended := hended
  down := fun s r hnext => ⟨hattached (h.down s r hnext).1, (h.down s r hnext).2⟩
  up := fun handle c r hnext => ⟨hsource ▸ (h.up handle c r hnext).1, (h.up handle c r hnext).2⟩
  hooks := h.hooks
  balance := h.balance

/-- Neither the listener nor its last hook matters. -/
theorem of_listener {listener : σ} {finalized : Bool}
    (h : turn.Plain { t with listener := listener, finalized := finalized } unreported unsettled) :
    turn.Plain t unreported unsettled :=
  h.weaken rfl id id h.ended

/-- After the receiver has been detached the end may have come. -/
theorem of_detached (h : turn.Plain u unreported unsettled) (hsource : u.source = t.source)
    (hattached : u.attached = false) (hdone : t.done = true → u.done = true) :
    turn.Plain t unreported unsettled := by
  have hnever : turn.tap.attached = true → False := by
    intro hnow
    rw [h.attached hnow] at hattached
    cases hattached
  refine h.weaken hsource (fun hnow => ?_) hdone fun _ hnow => (hnever hnow).elim
  rw [hattached] at hnow
  cases hnow

theorem after {act : Act α ε} (h : turn.Plain t unreported' unsettled')
    (hopens : act.opens = false)
    (hpost : ∀ k : Ledger, Ledger.post (α := α) (ε := ε)
        ⟨unreported ++ k.unreported, unsettled ++ k.unsettled⟩ (.acted act) =
      some ⟨unreported' ++ k.unreported, unsettled' ++ k.unsettled⟩) :
    (turn.after act).Plain t unreported unsettled where
  source := h.source
  attached := h.attached
  done := h.done
  ended := h.ended
  down := h.down
  up := h.up
  hooks := by
    intro act' hact
    rcases List.mem_cons.mp hact with rfl | hact
    · exact hopens
    · exact h.hooks act' hact
  balance := by
    intro k
    rw [Turn.deeds_after, Ledger.run_cons, hpost k]
    exact h.balance k

/-- An act that concerns no fault. -/
theorem after_other {act : Act α ε} (h : turn.Plain t unreported unsettled)
    (hopens : act.opens = false) (hfailure : (Deed.acted act).failure? = none)
    (hreport : (Deed.acted act).report? = none) (hdropped : (Deed.acted act).dropped? = none) :
    (turn.after act).Plain t unreported unsettled := by
  refine h.after hopens fun k => ?_
  simp only [Ledger.post, Deed.left?, Deed.uncreated?, Deed.surfaced?, hfailure, hreport, hdropped]
  rfl

theorem after_reported {f : Fault} (h : turn.Plain t unreported (f :: unsettled)) :
    (turn.after (.reported f)).Plain t (f :: unreported) unsettled := by
  refine h.after rfl fun k => ?_
  simp [Ledger.post, Ledger.report, Deed.failure?, Deed.uncreated?, Deed.report?]

theorem after_droppedFault {f : Fault} {e : Undelivered ε} (hfault : e.fault? = some f)
    (h : turn.Plain t unreported unsettled) :
    (turn.after (.droppedError e)).Plain t unreported (f :: unsettled) := by
  refine h.after rfl fun k => ?_
  simp [Ledger.post, Ledger.settle, Deed.failure?, Deed.uncreated?, Deed.report?, Deed.left?,
    Deed.dropped?, hfault]

theorem resume (h : turn.Plain t unreported unsettled) :
    ∀ r, turn.next.resume? = some r → r.isRefusal = false ∧ r.isExcuse = false := by
  intro r hr
  cases hnext : turn.next with
  | answer b => simp [hnext, Next.resume?] at hr
  | down s r' =>
      obtain rfl : r' = r := by simpa [hnext, Next.resume?] using hr
      obtain ⟨-, -, -, hwaits, hexcuse⟩ := h.down s r' hnext
      exact ⟨Resume.isRefusal_of_waits hwaits, hexcuse⟩
  | up handle c r' =>
      obtain rfl : r' = r := by simpa [hnext, Next.resume?] using hr
      exact (h.up handle c r' hnext).2.2

end Turn.Plain

variable {t : Tap σ} {unreported unsettled : List Fault}

theorem reply_plain (b : Bool) : (t.reply b : Turn σ α ε).Plain t [] [] where
  source := rfl
  attached := id
  done := id
  ended := fun hdone _ hended => absurd hended (by simp [reply, hdone])
  down := by intro s r hnext; cases hnext
  up := by intro h c r hnext; cases hnext
  hooks := by intro act hact; cases hact
  balance := fun k => rfl

theorem finish_plain : (t.finish : Turn σ α ε).Plain t [] [] := reply_plain true

theorem dropItem_plain (x : α) : (t.dropItem x : Turn σ α ε).Plain t [] [] :=
  finish_plain.after_other rfl rfl rfl rfl

theorem dropError_plain {e : Undelivered ε} (hfault : e.fault? = none) :
    (t.dropError e : Turn σ α ε).Plain t [] [] :=
  finish_plain.after_other rfl rfl rfl hfault

theorem dropError_fault_plain {e : Undelivered ε} {f : Fault} (hfault : e.fault? = some f) :
    (t.dropError e : Turn σ α ε).Plain t [] [f] :=
  finish_plain.after_droppedFault hfault

/-- A signal for an attached receiver, which is detached first if the signal is its last. -/
theorem down_plain {u : Tap σ} {s : Signal α (TapError ε)} {r : Resume α ε}
    (hsource : u.source = t.source) (hdone : t.done = true → u.done = true)
    (hended : t.done = false → u.attached = true → u.done = false)
    (hattached : t.attached = true) (hsubscribe : s.isSubscribe = false)
    (hterminal : s.isTerminal = true → u.attached = false) (hwaits : r.waits = false)
    (hexcuse : r.isExcuse = false) (hunreported : r.unreported? = none) :
    (u.down s r : Turn σ α ε).Plain t [] s.fault?.toList where
  source := hsource
  attached := fun _ => hattached
  done := hdone
  ended := fun hopen hnow hend => absurd hend (by simp [down, hended hopen hnow])
  down := by
    intro s' r' hnext
    cases hnext
    exact ⟨hattached, hsubscribe, hterminal, hwaits, hexcuse⟩
  up := by intro h c r' hnext; cases hnext
  hooks := by intro act hact; cases hact
  balance := by
    intro k
    cases hfault : s.fault? <;>
      simp [down, Turn.deeds, Next.deeds, Ledger.post, Ledger.settle, Deed.failure?,
        Deed.uncreated?, Deed.report?, Deed.left?, Deed.dropped?, Deed.surfaced?, hfault,
        Next.unreported, Next.resume?, hunreported]

theorem cancelSource_plain {r : Resume α ε} {goOn : Turn σ α ε} (hwaits : r.waits = true)
    (hrefusal : r.isRefusal = false) (hexcuse : r.isExcuse = false)
    (hgoOn : goOn.Plain t r.unreported?.toList []) :
    (t.cancelSource r goOn).Plain t r.unreported?.toList [] := by
  unfold cancelSource
  cases hsource : t.source with
  | none => exact hgoOn
  | some h =>
      exact {
        source := rfl
        attached := id
        done := id
        ended := fun hdone _ hended => absurd hended (by simp [hdone])
        down := by intro s r' hnext; cases hnext
        up := by
          intro h' c r' hnext
          cases hnext
          exact ⟨hsource, hwaits, hrefusal, hexcuse⟩
        hooks := by intro act hact; cases hact
        balance := by
          intro k
          simp [Turn.deeds, Next.deeds, Next.unreported, Next.resume?] }

/-- A stream that cannot end at once ends when the cancellation returns. -/
theorem cancelSource_isFatal {r : Resume α ε} {goOn : Turn σ α ε} (hr : r.isFatal = true)
    (hgoOn : goOn.tap.attached = false) (hnow : (t.cancelSource r goOn).tap.attached = true) :
    (t.cancelSource r goOn).next.isFatal = true := by
  unfold cancelSource at hnow ⊢
  split at hnow
  · simpa [Next.isFatal, Next.resume?] using hr
  · rw [hgoOn] at hnow
    cases hnow

variable (L : Listener σ α ε)

/-- The tap may have been marked before the hook is run. -/
theorem runHook_plain {u : Tap σ} {h : Hook α ε} {ok : Tap σ → Turn σ α ε}
    {failed : Tap σ → Fault → Turn σ α ε} (hhook : h.isSubscription = false)
    (hok : ∀ listener, (ok { u with listener := listener }).Plain t [] [])
    (hfailed : ∀ listener f, (failed { u with listener := listener } f).Plain t [f] []) :
    (u.runHook L h ok failed).Plain t [] [] := by
  unfold runHook
  rcases L.run u.listener h with ⟨listener, _ | cause⟩
  · exact (hok listener).after_other hhook rfl rfl rfl
  · refine (hfailed listener (h.fault cause)).after hhook fun k => ?_
    simp [Ledger.post, Deed.failure?]

theorem report_plain {f : Fault} {goOn : Tap σ → Turn σ α ε}
    (hgoOn : ∀ listener, (goOn { t with listener := listener }).Plain t [] [f]) :
    (t.report L f goOn).Plain t [f] [] :=
  (hgoOn _).after_reported

theorem terminate_plain {e : TapError ε} {f : Fault} (hfault : e.fault? = some f) :
    (t.terminate e : Turn σ α ε).Plain t [] [f] := by
  unfold terminate
  split
  next hattached =>
    have hdown := down_plain (α := α) (t := t)
      (u := { t with attached := false, done := true, finalized := true })
      (s := .error e) (r := .leave) rfl (fun _ => rfl) (fun _ hnow => by cases hnow) hattached rfl
      (fun _ => rfl) rfl rfl rfl
    simpa [Signal.fault?, hfault] using hdown
  next hattached =>
    exact (dropError_fault_plain (e := .tapped e) hfault).of_detached rfl rfl fun _ => rfl

theorem terminate_attached (e : TapError ε) :
    (t.terminate e : Turn σ α ε).tap.attached = false := by
  unfold terminate
  split <;> rfl

theorem failed_plain (f : Fault) : (t.failed L f).Plain t [f] [] :=
  report_plain L fun _ => (terminate_plain rfl).of_listener

theorem fail_plain (f : Fault) : (t.fail L f).Plain t [f] [] :=
  cancelSource_plain (r := .failed f) rfl rfl rfl (failed_plain L f)

theorem dropFault_plain {f : Fault} {goOn : Tap σ → Turn σ α ε}
    (hgoOn : ∀ listener, (goOn { t with listener := listener }).Plain t [] []) :
    (t.dropFault L f goOn).Plain t [f] [] :=
  report_plain L fun listener => (hgoOn listener).after_droppedFault rfl

theorem runFinally_plain {ending : Ending} {ok : Tap σ → Turn σ α ε}
    {failed : Tap σ → Fault → Turn σ α ε}
    (hok : ∀ listener finalized,
      (ok { t with listener := listener, finalized := finalized }).Plain t [] [])
    (hfailed : ∀ listener finalized f,
      (failed { t with listener := listener, finalized := finalized } f).Plain t [f] []) :
    (t.runFinally L ending ok failed).Plain t [] [] := by
  unfold runFinally
  split
  · exact hok t.listener t.finalized
  · exact runHook_plain L rfl (fun listener => hok listener true)
      fun listener => hfailed listener true

/-! ## Signals from the source -/

theorem malformedNext_plain (x : α) : (t.malformedNext L x).Plain t [] [] :=
  runHook_plain L rfl (fun _ => (dropItem_plain x).of_listener)
    fun _ _ => (dropFault_plain L fun _ => (dropItem_plain x).of_listener).of_listener

theorem onNext_plain (x : α) : (t.onNext L x).Plain t [] [] := by
  unfold onNext
  split
  · exact malformedNext_plain L x
  · refine runHook_plain L rfl (fun listener => ?_) fun _ f => (fail_plain L f).of_listener
    split
    next hattached =>
      exact down_plain (s := .next x) (r := .leave) rfl id (fun hopen _ => hopen) hattached rfl
        (fun hterminal => by cases hterminal) rfl rfl rfl
    next => exact (dropItem_plain x).of_listener

theorem consumed_plain (x : α) : (t.consumed L x).Plain t [] [] :=
  runHook_plain L rfl (fun _ => finish_plain.of_listener) fun _ f => (fail_plain L f).of_listener

theorem onOffer_plain (conditional : Bool) (x : α) :
    (t.onOffer L conditional x).Plain t [] [] := by
  unfold onOffer
  split
  · exact malformedNext_plain L x
  · split
    next hattached =>
      split
      · exact down_plain (s := .offer x) (r := .offered x) rfl id (fun hopen _ => hopen) hattached
          rfl (fun hterminal => by cases hterminal) rfl rfl rfl
      · exact down_plain (s := .next x) (r := .sent x) rfl id (fun hopen _ => hopen) hattached rfl
          (fun hterminal => by cases hterminal) rfl rfl rfl
    next => exact dropItem_plain x

theorem wrapUp_plain {h : Hook α ε} (hhook : h.isSubscription = false) (ending : Ending) :
    (t.wrapUp L h ending).Plain t [] [] := by
  have hdropped : ∀ (t' : Tap σ) (f : Fault), (t'.dropFault L f finish).Plain t' [f] [] :=
    fun t' f => dropFault_plain L fun _ => finish_plain.of_listener
  unfold wrapUp
  refine runHook_plain L hhook (fun listener => ?_) fun listener f => (hdropped _ f).of_listener
  refine (runFinally_plain L (fun _ _ => ?_) fun _ _ f => ?_).of_listener
  · exact finish_plain.of_listener
  · exact (hdropped _ f).of_listener

theorem passedError_plain (e : ε) : (t.passedError L e).Plain t [] [] := wrapUp_plain L rfl _

theorem passedComplete_plain : (t.passedComplete L).Plain t [] [] := wrapUp_plain L rfl _

theorem spoiled_plain (f : Fault) (e : ε) : (t.spoiled L f e).Plain t [f] [] :=
  report_plain L fun _ => (terminate_plain rfl).of_listener

theorem onError_plain (e : ε) : (t.onError L e).Plain t [] [] := by
  unfold onError
  split
  · exact runHook_plain L rfl (fun _ => (dropError_plain rfl).of_listener)
      fun _ _ => (dropFault_plain L fun _ => (dropError_plain rfl).of_listener).of_listener
  · refine runHook_plain L rfl (fun listener => ?_) fun listener f => ?_
    · dsimp only
      split
      next hattached =>
        exact down_plain (s := .error (.source e)) (r := .passedError e) rfl (fun _ => rfl)
          (fun _ hnow => by cases hnow) hattached rfl (fun _ => rfl) rfl rfl rfl
      next =>
        refine Turn.Plain.of_detached (u := { t with attached := false, done := true }) ?_ rfl rfl
          fun _ => rfl
        exact (passedError_plain L e).of_listener.after_other rfl rfl rfl rfl
    · have hcancel := cancelSource_plain (t := { t with listener := listener, done := true })
        (r := .spoiled f e) rfl rfl rfl (spoiled_plain L f e)
      exact hcancel.weaken rfl id (fun _ => rfl)
        fun _ hnow _ => cancelSource_isFatal rfl (terminate_attached _) hnow

theorem onComplete_plain : (t.onComplete L).Plain t [] [] := by
  unfold onComplete
  split
  · exact runHook_plain L rfl (fun _ => finish_plain.of_listener)
      fun _ _ => (dropFault_plain L fun _ => finish_plain.of_listener).of_listener
  · refine runHook_plain L rfl (fun listener => ?_) fun listener f => ?_
    · dsimp only
      split
      next hattached =>
        exact down_plain (s := .complete) (r := .passedComplete) rfl (fun _ => rfl)
          (fun _ hnow => by cases hnow) hattached rfl (fun _ => rfl) rfl rfl rfl
      next => exact (passedComplete_plain L).of_detached rfl rfl fun _ => rfl
    · exact (fail_plain L f).weaken rfl id (fun _ => rfl)
        fun _ hnow _ => cancelSource_isFatal rfl (terminate_attached _) hnow

/-! ## Controls from the receiver -/

theorem onRequest_plain (n : UInt64) : (t.onRequest L n).Plain t [] [] := by
  unfold onRequest
  split
  · refine runHook_plain L rfl (fun listener => ?_) fun _ f => (fail_plain L f).of_listener
    dsimp only
    split
    next h hsource =>
      exact {
        source := rfl
        attached := id
        done := id
        ended := fun hopen _ hend => absurd hend (by simp [hopen])
        down := by intro s r hnext; cases hnext
        up := by
          intro h' c r hnext
          cases hnext
          exact ⟨hsource, rfl, rfl, rfl⟩
        hooks := by intro act hact; cases hact
        balance := fun k => rfl }
    next => exact finish_plain.of_listener
  · exact dropError_plain rfl

theorem released_plain : (t.released L).Plain t [] [] :=
  runFinally_plain L
    (fun _ _ => finish_plain.of_detached rfl rfl id)
    fun _ _ f => (fail_plain L f).of_listener

theorem onCancel_plain : (t.onCancel L).Plain t [] [] :=
  runHook_plain L rfl
    (fun _ => (cancelSource_plain (r := .released) rfl rfl rfl (released_plain L)).of_listener)
    fun _ f => (failed_plain L f).of_listener

/-! ## Calls -/

/-- Whatever a tap is called with, except a handle. -/
theorem serve_plain (self : Handle) (conditional : Bool) {input : Input α ε}
    (hinput : ∀ h, input ≠ .signal (.subscribe h)) :
    (t.serve L self conditional input).Plain t [] [] := by
  cases input with
  | signal s =>
      cases s with
      | subscribe h => exact absurd rfl (hinput h)
      | next x => exact onNext_plain L x
      | offer x => exact onOffer_plain L conditional x
      | error e => exact onError_plain L e
      | complete => exact onComplete_plain L
  | control c =>
      cases c with
      | request n => exact onRequest_plain L n
      | cancel => exact onCancel_plain L

/-- Wherever a tap resumes, except after the refusal of a handle. -/
theorem resume_plain (b : Bool) {r : Resume α ε} (hrefusal : r.isRefusal = false)
    (hexcuse : r.isExcuse = false) :
    (t.resume L r b).Plain t r.unreported?.toList [] := by
  cases r with
  | leave => exact finish_plain
  | ignored => exact finish_plain.after_other rfl rfl rfl rfl
  | refused f => cases hrefusal
  | excused f => cases hexcuse
  | failed f => exact failed_plain L f
  | spoiled f e => exact spoiled_plain L f e
  | passedError e => exact passedError_plain L e
  | passedComplete => exact passedComplete_plain L
  | offered x =>
      cases b with
      | true => exact consumed_plain L x
      | false => exact reply_plain false
  | sent x => exact consumed_plain L x
  | released => exact released_plain L

/-! ## Every turn -/

/-- The turn keeps the handle of the source and does not run the hook for one. -/
structure Turn.Settled (t : Tap σ) (turn : Turn σ α ε) : Prop where
  source : turn.tap.source = t.source
  hooks : ∀ act ∈ turn.acts, act.opens = false

theorem Turn.Plain.settled {turn : Turn σ α ε} (h : turn.Plain t unreported unsettled) :
    turn.Settled t := ⟨h.source, h.hooks⟩

theorem serve_settled (self : Handle) (conditional : Bool) (input : Input α ε) {first : Handle}
    (hsource : t.source = some first) : (t.serve L self conditional input).Settled t := by
  by_cases hinput : ∃ h, input = .signal (.subscribe h)
  · obtain ⟨h, rfl⟩ := hinput
    simp only [serve, receive, onSubscribe, hsource]
    exact ⟨rfl, by simp⟩
  · exact (serve_plain L self conditional fun h heq => hinput ⟨h, heq⟩).settled

theorem resume_settled (r : Resume α ε) (b : Bool) : (t.resume L r b).Settled t := by
  cases r with
  | refused f =>
      simp only [resume, refused, report]
      split
      · exact ⟨rfl, by simp [down, Act.opens]⟩
      · exact ⟨rfl, by simp [finish, reply, Act.opens]⟩
  | excused f => exact ⟨rfl, by simp [resume, down]⟩
  | _ => exact (resume_plain L b rfl rfl).settled

/-- A tap waits exactly for the cancellations that it asks for. -/
structure Turn.Marked (turn : Turn σ α ε) : Prop where
  down : ∀ s r, turn.next = .down s r → r.waits = false
  up : ∀ h c r, turn.next = .up h c r → r.waits = c.isCancel

theorem Turn.Plain.marked {turn : Turn σ α ε} (h : turn.Plain t unreported unsettled) :
    turn.Marked where
  down := fun s r hnext => (h.down s r hnext).2.2.2.1
  up := fun handle c r hnext => (h.up handle c r hnext).2.1

theorem onSubscribe_marked (self h : Handle) : (t.onSubscribe L self h : Turn σ α ε).Marked := by
  unfold onSubscribe
  cases t.source with
  | some first => constructor <;> simp [Resume.waits, Control.isCancel]
  | none =>
      unfold runHook
      rcases L.run t.listener .subscription with ⟨listener, _ | cause⟩
      · cases t.attached <;> constructor <;> simp [Tap.down, finish, reply, Resume.waits]
      · constructor <;> simp [Resume.waits, Control.isCancel]

theorem serve_marked (self : Handle) (conditional : Bool) (input : Input α ε) :
    (t.serve L self conditional input).Marked := by
  by_cases hinput : ∃ h, input = .signal (.subscribe h)
  · obtain ⟨h, rfl⟩ := hinput
    exact onSubscribe_marked L self h
  · exact (serve_plain L self conditional fun h heq => hinput ⟨h, heq⟩).marked

theorem resume_marked (r : Resume α ε) (b : Bool) : (t.resume L r b).Marked := by
  cases r with
  | refused f =>
      simp only [resume, refused, report]
      split <;> constructor <;> simp [Tap.down, finish, reply, Resume.waits]
  | excused f => constructor <;> simp [resume, Tap.down, Resume.waits]
  | _ => exact (resume_plain L b rfl rfl).marked

/-- A tap holds and uses only handles that it has been given, and what it hands out itself is empty
or the tap, which then has a handle, too. -/
structure Turn.Handing (t : Tap σ) (own : Handle) (given : Handle → Prop) (turn : Turn σ α ε) :
    Prop where
  source : ∀ h, turn.tap.source = some h → t.source = some h ∨ given h
  up : ∀ h c r, turn.next = .up h c r → turn.tap.source ≠ none ∧ (t.source = some h ∨ given h)
  down : ∀ h r, turn.next = .down (.subscribe h) r →
    h = .empty ∨ h = own ∧ turn.tap.source ≠ none

theorem Turn.Plain.handing {turn : Turn σ α ε} (h : turn.Plain t unreported unsettled)
    (self : Handle) (given : Handle → Prop) : turn.Handing t self given where
  source := fun handle hsource => .inl (h.source ▸ hsource)
  up := by
    intro handle c r hnext
    have hsource := (h.up handle c r hnext).1
    rw [h.source]
    exact ⟨by simp [hsource], .inl hsource⟩
  down := by
    intro handle r hnext
    cases (h.down _ r hnext).2.1

theorem onSubscribe_handing (self h : Handle) :
    (t.onSubscribe L self h : Turn σ α ε).Handing t self (· = h) := by
  unfold onSubscribe
  cases hsource : t.source with
  | some first => constructor <;> simp [hsource]
  | none =>
      unfold runHook
      rcases L.run t.listener .subscription with ⟨listener, _ | cause⟩
      · cases t.attached <;> constructor <;> simp [Tap.down, finish, reply, eq_comm]
      · constructor
        · simp [eq_comm]
        · intro handle c r hnext
          cases hnext
          simp
        · simp

theorem onSubscribe_source (self h : Handle) :
    (t.onSubscribe L self h : Turn σ α ε).tap.source ≠ none := by
  unfold onSubscribe
  cases hsource : t.source with
  | some first => simp [hsource]
  | none =>
      unfold runHook
      rcases L.run t.listener .subscription with ⟨listener, _ | cause⟩
      · cases t.attached <;> simp [Tap.down, finish, reply]
      · simp

theorem serve_handing (self : Handle) (conditional : Bool) (input : Input α ε) :
    (t.serve L self conditional input).Handing t self
      (fun h => input = .signal (.subscribe h)) := by
  by_cases hinput : ∃ h, input = .signal (.subscribe h)
  · obtain ⟨h, rfl⟩ := hinput
    have hgiven := onSubscribe_handing L (t := t) self h
    constructor
    · intro handle hsource
      rcases hgiven.source handle hsource with hold | heq
      · exact .inl hold
      · exact .inr (by rw [heq])
    · intro handle c r hnext
      obtain ⟨hsome, hused⟩ := hgiven.up handle c r hnext
      rcases hused with hold | heq
      · exact ⟨hsome, .inl hold⟩
      · exact ⟨hsome, .inr (by rw [heq])⟩
    · exact hgiven.down
  · exact (serve_plain L self conditional fun h heq => hinput ⟨h, heq⟩).handing self _

theorem resume_handing (self : Handle) (r : Resume α ε) (b : Bool) :
    (t.resume L r b).Handing t self (fun _ => False) := by
  cases r with
  | refused f =>
      simp only [resume, refused, report]
      split <;> constructor <;> simp [Tap.down, finish, reply]
  | excused f => constructor <;> simp [resume, Tap.down]
  | _ => exact (resume_plain L b rfl rfl).handing self _

end Tap

end Wiretap

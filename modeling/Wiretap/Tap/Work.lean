import Wiretap.Tap.Basic

/-!
# The work of a tap

Every signal and every control is accompanied by a hook of the listener. As long as no hook fails,
the tap passes on what it gets. A failing hook is contained: the listener is told first, and then
the fault goes to the receiver as the end of the stream, if the receiver is still attached, or is
dropped.

The order of things matters, because a neighbour that is called may call back before it returns.
So the receiver is detached before it gets its last signal, and the source is cancelled before the
listener and the receiver are told of a fault.
-/

namespace Wiretap.Tap

variable {K : Kinds} {σ α ε : Type}

/-- Return with an answer. -/
def reply (t : Tap σ) (b : Bool) : Turn σ α ε := ⟨[], t, .answer b⟩

/-- Return to a caller that waits for no answer. -/
def finish (t : Tap σ) : Turn σ α ε := t.reply true

/-- Send the receiver a signal. -/
def down (t : Tap σ) (s : Signal α (TapError ε)) (r : Resume α ε) : Turn σ α ε := ⟨[], t, .down s r⟩

/-- Drop an item. -/
def dropItem (t : Tap σ) (x : α) : Turn σ α ε := t.finish.after (.droppedItem x)

/-- Drop an error. -/
def dropError (t : Tap σ) (e : Undelivered ε) : Turn σ α ε := t.finish.after (.droppedError e)

/-- Cancel the source and resume at `r`; without a source, go on at once. -/
def cancelSource (t : Tap σ) (r : Resume α ε) (goOn : Turn σ α ε) : Turn σ α ε :=
  match t.source with
  | some h => ⟨[], t, .up h .cancel r⟩
  | none => goOn

/-- Can the receiver be asked to refuse items? It can if it is attached and knows how to. -/
def isConditional (t : Tap σ) (conditional : Bool) : Bool := t.attached && conditional

variable (L : Listener σ α ε)

/-- Run a hook and go on by its outcome. -/
def runHook (t : Tap σ) (h : Hook α ε) (ok : Tap σ → Turn σ α ε)
    (failed : Tap σ → Fault → Turn σ α ε) : Turn σ α ε :=
  let outcome := L.run t.listener h
  let t := { t with listener := outcome.1 }
  let rest := match outcome.2 with
    | none => ok t
    | some cause => failed t (h.fault cause)
  rest.after (.ran h outcome.2)

/-- Tell the listener of its fault and go on. -/
def report (t : Tap σ) (f : Fault) (goOn : Tap σ → Turn σ α ε) : Turn σ α ε :=
  (goOn { t with listener := L.notice t.listener f }).after (.reported f)

/-- End the stream with an error of the tap's own: the receiver gets it if it is attached. -/
def terminate (t : Tap σ) (e : TapError ε) : Turn σ α ε :=
  let ended := { t with attached := false, done := true, finalized := true }
  if t.attached then ended.down (.error e) .leave else ended.dropError (.tapped e)

/-- The source knows; tell the listener, then the receiver. -/
def failed (t : Tap σ) (f : Fault) : Turn σ α ε :=
  t.report L f fun t => t.terminate (.listener f)

/-- End the stream because of a fault. -/
def fail (t : Tap σ) (f : Fault) : Turn σ α ε := t.cancelSource (.failed f) (t.failed L f)

/-- A fault that the receiver cannot be told any more. -/
def dropFault (t : Tap σ) (f : Fault) (goOn : Tap σ → Turn σ α ε) : Turn σ α ε :=
  t.report L f fun t => (goOn t).after (.droppedError (.fault f))

/-- Run the last hook, unless that has been settled before. -/
def runFinally (t : Tap σ) (ending : Ending) (ok : Tap σ → Turn σ α ε)
    (failed : Tap σ → Fault → Turn σ α ε) : Turn σ α ε :=
  if t.finalized then ok t else { t with finalized := true }.runHook L (.finally ending) ok failed

/-! ## Signals from the source -/

/-- The handle has been cancelled since the hook for it failed. The receiver, if attached, gets an
empty handle first, so that its stream has a proper beginning. -/
def refused (t : Tap σ) (f : Fault) : Turn σ α ε :=
  t.report L f fun t =>
    let ended := { t with attached := false, done := true, finalized := true }
    if t.attached then ended.down (.subscribe .empty) (.excused f) else ended.finish

/-- A handle arrives. The first one counts; any other is cancelled and ignored. The receiver gets
the tap itself, `self`, as its handle. -/
def onSubscribe (self : Handle) (t : Tap σ) (h : Handle) : Turn σ α ε :=
  match t.source with
  | some _ => ⟨[], t, .up h .cancel .ignored⟩
  | none =>
    { t with source := some h }.runHook L .subscription
      (fun t => if t.attached then t.down (.subscribe self) .leave else t.finish)
      (fun t f => ⟨[], t, .up h .cancel (.refused f)⟩)

/-- An item arrives after the end. -/
def malformedNext (t : Tap σ) (x : α) : Turn σ α ε :=
  t.runHook L (.malformedNext x) (fun t => t.dropItem x)
    fun t f => t.dropFault L f fun t => t.dropItem x

/-- An item arrives. -/
def onNext (t : Tap σ) (x : α) : Turn σ α ε :=
  if t.done then t.malformedNext L x
  else
    t.runHook L (.next x)
      (fun t => if t.attached then t.down (.next x) .leave else t.dropItem x)
      (fun t f => t.fail L f)

/-- The receiver took an item that was offered to the tap: only now does the hook see it. -/
def consumed (t : Tap σ) (x : α) : Turn σ α ε :=
  t.runHook L (.next x) finish fun t f => t.fail L f

/-- An item is offered. It is handed to the receiver before any hook runs. A receiver that cannot
refuse is sent the item. -/
def onOffer (conditional : Bool) (t : Tap σ) (x : α) : Turn σ α ε :=
  if t.done then t.malformedNext L x
  else if t.attached then
    if conditional then t.down (.offer x) (.offered x) else t.down (.next x) (.sent x)
  else t.dropItem x

/-- What follows the hook after an ending: the last hook. A fault in either is dropped. -/
def wrapUp (t : Tap σ) (h : Hook α ε) (ending : Ending) : Turn σ α ε :=
  let dropped (t : Tap σ) (f : Fault) : Turn σ α ε := t.dropFault L f finish
  t.runHook L h (fun t => t.runFinally L ending finish dropped) dropped

/-- The error of the source has been passed on, or dropped. -/
def passedError (t : Tap σ) (e : ε) : Turn σ α ε := t.wrapUp L (.afterError e) .error

/-- The completion has been passed on. -/
def passedComplete (t : Tap σ) : Turn σ α ε := t.wrapUp L .afterComplete .complete

/-- The source knows of a fault over its own error; tell the listener, then the receiver. -/
def spoiled (t : Tap σ) (f : Fault) (e : ε) : Turn σ α ε :=
  t.report L f fun t => t.terminate (.multiple f e)

/-- An error arrives. -/
def onError (t : Tap σ) (e : ε) : Turn σ α ε :=
  if t.done then
    t.runHook L (.malformedError e) (fun t => t.dropError (.source e))
      fun t f => t.dropFault L f fun t => t.dropError (.source e)
  else
    { t with done := true }.runHook L (.error e)
      (fun t =>
        let detached := { t with attached := false }
        if t.attached then detached.down (.error (.source e)) (.passedError e)
        else (detached.passedError L e).after (.droppedError (.source e)))
      (fun t f => t.cancelSource (.spoiled f e) (t.spoiled L f e))

/-- The completion arrives. -/
def onComplete (t : Tap σ) : Turn σ α ε :=
  if t.done then
    t.runHook L .malformedComplete finish fun t f => t.dropFault L f finish
  else
    { t with done := true }.runHook L .complete
      (fun t =>
        let detached := { t with attached := false }
        if t.attached then detached.down .complete .passedComplete
        else detached.passedComplete L)
      (fun t f => t.fail L f)

/-- A signal arrives at a tap that hands out the handle `self` and whose receiver can refuse items
if `conditional` says so. -/
def receive (self : Handle) (conditional : Bool) (t : Tap σ) : Signal α ε → Turn σ α ε
  | .subscribe h => t.onSubscribe L self h
  | .next x => t.onNext L x
  | .offer x => t.onOffer L conditional x
  | .error e => t.onError L e
  | .complete => t.onComplete L

/-! ## Controls from the receiver -/

/-- Items are asked for. Asking for none is a violation, which is dropped and goes no further. -/
def onRequest (t : Tap σ) (n : UInt64) : Turn σ α ε :=
  if Demand.isPositive n then
    t.runHook L (.request n)
      (fun t => match t.source with
        | some h => ⟨[], t, .up h (.request n) .leave⟩
        | none => t.finish)
      (fun t f => t.fail L f)
  else t.dropError (.violation (.nonPositiveRequest n))

/-- The source has been cancelled for the receiver, which is now let go. -/
def released (t : Tap σ) : Turn σ α ε :=
  t.runFinally L .cancel (fun t => { t with attached := false }.finish) fun t f => t.fail L f

/-- The receiver cancels. If the hook fails, the source is left alone. -/
def onCancel (t : Tap σ) : Turn σ α ε :=
  t.runHook L .cancel
    (fun t => t.cancelSource .released (t.released L))
    (fun t f => t.failed L f)

/-- The receiver uses the tap as its handle. -/
def obey (t : Tap σ) : Control → Turn σ α ε
  | .request n => t.onRequest L n
  | .cancel => t.onCancel L

/-! ## Calls -/

/-- The tap is called. -/
def serve (self : Handle) (conditional : Bool) (t : Tap σ) : Input α ε → Turn σ α ε
  | .signal s => t.receive L self conditional s
  | .control c => t.obey L c

/-- A neighbour returned; go on where the tap left off. The answer counts after an offer. -/
def resume (t : Tap σ) (r : Resume α ε) (b : Bool) : Turn σ α ε :=
  match r with
  | .leave => t.finish
  | .ignored => t.finish.after .ignoredHandle
  | .refused f => t.refused L f
  | .excused f => t.down (.error (.listener f)) .leave
  | .failed f => t.failed L f
  | .spoiled f e => t.spoiled L f e
  | .passedError e => t.passedError L e
  | .passedComplete => t.passedComplete L
  | .offered x => if b then t.consumed L x else t.reply false
  | .sent x => t.consumed L x
  | .released => t.released L

end Wiretap.Tap

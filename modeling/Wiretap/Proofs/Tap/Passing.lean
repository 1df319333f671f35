import Wiretap.Proofs.Tap.Account

/-!
# What passes through a tap

Items go down through a tap and demand goes up, each in the turn in which it comes. A tap makes
neither of its own, and only an item that its receiver has refused makes it refuse one. Once an item
has come that is not passed on, no later one is either: the tap has ended by then, or lost its
receiver, or waits for a cancellation before it ends.
-/

namespace Wiretap

variable {K : Kinds} {σ α ε : Type}

/-- The item that a signal brings. -/
def Signal.item? : Signal α ε → Option α
  | .next x | .offer x => some x
  | _ => none

/-- The item that a signal offers. -/
def Signal.offered? : Signal α ε → Option α
  | .offer x => some x
  | _ => none

/-- The items in signals. -/
def Signal.items (signals : List (Signal α ε)) : List α := signals.filterMap Signal.item?

namespace Signal

@[simp] theorem items_nil : items ([] : List (Signal α ε)) = [] := rfl

@[simp] theorem items_append (first second : List (Signal α ε)) :
    items (first ++ second) = items first ++ items second := List.filterMap_append

@[simp] theorem items_cons (s : Signal α ε) (signals : List (Signal α ε)) :
    items (s :: signals) = s.item?.toList ++ items signals := Tap.filterMap_cons_toList _ _ _

@[simp] theorem item?_mapError {ε' : Type} (f : ε → ε') (s : Signal α ε) :
    (s.mapError f).item? = s.item? := by
  cases s <;> rfl

theorem items_map_mapError {ε' : Type} (f : ε → ε') (signals : List (Signal α ε)) :
    items (signals.map (·.mapError f)) = items signals := by
  induction signals with
  | nil => rfl
  | cons s signals ih => simp [ih]

theorem offered?_of_item? {s : Signal α ε} (h : s.item? = none) : s.offered? = none := by
  cases s <;> first | rfl | cases h

@[simp] theorem offered?_mapError {ε' : Type} (f : ε → ε') (s : Signal α ε) :
    (s.mapError f).offered? = s.offered? := by
  cases s <;> rfl

theorem items_isPrefix {first all : List (Signal α ε)} (h : first <+: all) :
    items first <+: items all := h.filterMap _

end Signal

namespace Tap

/-- Is the tap past the point where it passes items on? -/
def isOver (t : Tap σ) : Bool := t.done || !t.attached

/-- A turn that passes on neither items nor demand, and that refuses nothing. -/
structure Turn.Inert (turn : Turn σ α ε) : Prop where
  answer : ∀ b, turn.next = .answer b → b = true
  down : ∀ s r, turn.next = .down s r → s.item? = none ∧ r.isOffered = false
  up : ∀ h c r, turn.next = .up h c r → c = .cancel ∧ r.isOffered = false

/-- After the turn no item is passed on any more, at the latest when a cancellation returns. -/
def Turn.Ends (turn : Turn σ α ε) : Prop :=
  turn.tap.isOver = true ∨ ∃ r ∈ turn.next.resume?, r.isFatal = true

namespace Turn

variable {turn : Turn σ α ε}

theorem Inert.after (h : turn.Inert) (act : Act α ε) : (turn.after act).Inert :=
  ⟨h.answer, h.down, h.up⟩

theorem Inert.sent (h : turn.Inert) : Signal.items (Tap.sent turn.next.deeds) = [] := by
  cases hnext : turn.next with
  | down s r => simp [Next.deeds, Deed.sent?, (h.down s r hnext).1]
  | _ => rfl

end Turn

variable {t : Tap σ}

theorem finish_inert : (t.finish : Turn σ α ε).Inert where
  answer := fun b hb => by cases hb; rfl
  down := fun s r hnext => by cases hnext
  up := fun h c r hnext => by cases hnext

theorem dropItem_inert (x : α) : (t.dropItem x : Turn σ α ε).Inert := finish_inert.after _

theorem dropError_inert (e : Undelivered ε) : (t.dropError e : Turn σ α ε).Inert :=
  finish_inert.after _

theorem down_inert {s : Signal α (TapError ε)} {r : Resume α ε} (hs : s.item? = none)
    (hr : r.isOffered = false) : (t.down s r).Inert where
  answer := fun b hb => by cases hb
  down := fun s' r' hnext => by cases hnext; exact ⟨hs, hr⟩
  up := fun h c r' hnext => by cases hnext

theorem cancel_inert {h : Handle} {r : Resume α ε} (hr : r.isOffered = false) :
    (⟨[], t, .up h .cancel r⟩ : Turn σ α ε).Inert where
  answer := fun b hb => by cases hb
  down := fun s r' hnext => by cases hnext
  up := fun h' c r' hnext => by cases hnext; exact ⟨rfl, hr⟩

theorem cancelSource_inert {r : Resume α ε} {goOn : Turn σ α ε} (hr : r.isOffered = false)
    (hgoOn : goOn.Inert) : (t.cancelSource r goOn).Inert := by
  unfold cancelSource
  split
  · exact cancel_inert hr
  · exact hgoOn

theorem terminate_inert (e : TapError ε) : (t.terminate e : Turn σ α ε).Inert := by
  unfold terminate
  split
  · exact down_inert rfl rfl
  · exact dropError_inert _

variable (L : Listener σ α ε) {Ls : Context → Listener σ α ε}

theorem runHook_inert {h : Hook α ε} {ok : Tap σ → Turn σ α ε}
    {failed : Tap σ → Fault → Turn σ α ε} (hok : ∀ u, (ok u).Inert)
    (hfailed : ∀ u f, (failed u f).Inert) : (t.runHook L h ok failed).Inert := by
  unfold runHook
  rcases L.run t.listener h with ⟨listener, _ | cause⟩
  · exact (hok _).after _
  · exact (hfailed _ _).after _

theorem failed_inert (f : Fault) : (t.failed L f).Inert := (terminate_inert _).after _

theorem spoiled_inert (f : Fault) (e : ε) : (t.spoiled L f e).Inert := (terminate_inert _).after _

theorem fail_inert (f : Fault) : (t.fail L f).Inert := cancelSource_inert rfl (failed_inert L f)

theorem dropFault_inert {f : Fault} {goOn : Tap σ → Turn σ α ε} (hgoOn : ∀ u, (goOn u).Inert) :
    (t.dropFault L f goOn).Inert := ((hgoOn _).after _).after _

theorem runFinally_inert {ending : Ending} {ok : Tap σ → Turn σ α ε}
    {failed : Tap σ → Fault → Turn σ α ε} (hok : ∀ u, (ok u).Inert)
    (hfailed : ∀ u f, (failed u f).Inert) : (t.runFinally L ending ok failed).Inert := by
  unfold runFinally
  split
  · exact hok t
  · exact runHook_inert L hok hfailed

theorem wrapUp_inert {h : Hook α ε} {ending : Ending} : (t.wrapUp L h ending).Inert := by
  have hdropped : ∀ (u : Tap σ) f, (u.dropFault L f finish : Turn σ α ε).Inert :=
    fun u f => dropFault_inert L fun _ => finish_inert
  unfold wrapUp
  exact runHook_inert L (fun u => runFinally_inert L (fun _ => finish_inert) hdropped) hdropped

theorem released_inert : (t.released L).Inert :=
  runFinally_inert L (fun _ => finish_inert) fun _ f => fail_inert L f

theorem refused_inert (f : Fault) : (t.refused L f).Inert := by
  refine Turn.Inert.after ?_ _
  dsimp only
  split
  · exact down_inert rfl rfl
  · exact finish_inert

theorem consumed_inert (x : α) : (t.consumed L x).Inert :=
  runHook_inert L (fun _ => finish_inert) fun _ f => fail_inert L f

theorem malformedNext_inert (x : α) : (t.malformedNext L x).Inert :=
  runHook_inert L (fun _ => dropItem_inert x) fun _ _ => dropFault_inert L fun _ => dropItem_inert x

theorem onSubscribe_inert (self h : Handle) : (t.onSubscribe L self h).Inert := by
  unfold onSubscribe
  split
  · exact cancel_inert rfl
  · refine runHook_inert L (fun u => ?_) fun _ f => cancel_inert rfl
    split
    · exact down_inert rfl rfl
    · exact finish_inert

theorem onError_inert (e : ε) : (t.onError L e).Inert := by
  unfold onError
  split
  · exact runHook_inert L (fun _ => dropError_inert _)
      fun _ _ => dropFault_inert L fun _ => dropError_inert _
  · refine runHook_inert L (fun u => ?_) fun _ f => cancelSource_inert rfl (spoiled_inert L f e)
    dsimp only
    split
    · exact down_inert rfl rfl
    · exact (wrapUp_inert L).after _

theorem onComplete_inert : (t.onComplete L).Inert := by
  unfold onComplete
  split
  · exact runHook_inert L (fun _ => finish_inert) fun _ _ => dropFault_inert L fun _ => finish_inert
  · refine runHook_inert L (fun u => ?_) fun _ f => fail_inert L f
    dsimp only
    split
    · exact down_inert rfl rfl
    · exact wrapUp_inert L

theorem onCancel_inert : (t.onCancel L).Inert :=
  runHook_inert L (fun _ => cancelSource_inert rfl (released_inert L)) fun _ f => failed_inert L f

/-! ## What is passed on -/

/-- What a tap does in a turn with what it is called with. -/
inductive Turn.Passes (input : Input α ε) (turn : Turn σ α ε) : Prop
  /-- It passes nothing on. -/
  | inert (h : turn.Inert)
  /-- It sends its receiver the item. -/
  | item {x : α} {r : Resume α ε} (hinput : input = .signal (.next x) ∨ input = .signal (.offer x))
    (hnext : turn.next = .down (.next x) r) (hr : r.isOffered = false)
  /-- It offers its receiver the item that was offered to it. -/
  | offer {x : α} (hinput : input = .signal (.offer x))
    (hnext : turn.next = .down (.offer x) (.offered x))
  /-- It asks its source for as many items. -/
  | request {h : Handle} {n : UInt64} (hinput : input = .control (.request n))
    (hnext : turn.next = .up h (.request n) .leave)

/-- The item that a tap is called with. -/
def Input.item? : Input α ε → Option α
  | .signal s => s.item?
  | .control _ => none

theorem terminate_isOver (e : TapError ε) : (t.terminate e : Turn σ α ε).tap.isOver = true := by
  unfold terminate
  split <;> rfl

theorem fail_ends (f : Fault) : (t.fail L f).Ends := by
  unfold fail cancelSource
  split
  · exact .inr ⟨_, rfl, rfl⟩
  · exact .inl (terminate_isOver _)

theorem Turn.Ends.after {turn : Turn σ α ε} (h : turn.Ends) (act : Act α ε) :
    (turn.after act).Ends := h

theorem malformedNext_isOver (x : α) (hdone : t.done = true) :
    (t.malformedNext L x).tap.isOver = true := by
  rw [isOver, (malformedNext_plain L x).done hdone]
  rfl

/-- An item is passed on, by a tap that is not over, or it is the last one. -/
theorem onNext_passes (x : α) :
    (t.isOver = false ∧ (t.onNext L x).next = .down (.next x) .leave) ∨
      (t.onNext L x).Inert ∧ (t.onNext L x).Ends := by
  unfold onNext
  split
  next hdone => exact .inr ⟨malformedNext_inert L x, .inl (malformedNext_isOver L x hdone)⟩
  next hopen =>
    unfold runHook
    rcases L.run t.listener (.next x) with ⟨listener, _ | cause⟩
    · dsimp only
      split
      next hattached => exact .inl ⟨by simp [isOver, hopen, hattached], rfl⟩
      next hdetached =>
        refine .inr ⟨(dropItem_inert x).after _, .inl ?_⟩
        simp [isOver, dropItem, finish, reply, hdetached]
    · exact .inr ⟨(fail_inert L _).after _, (fail_ends L _).after _⟩

/-- An item that is offered is passed on, by a tap that is not over, or it is the last one. -/
theorem onOffer_passes (conditional : Bool) (x : α) :
    (t.isOver = false ∧ ((t.onOffer L conditional x).next = .down (.offer x) (.offered x) ∨
        (t.onOffer L conditional x).next = .down (.next x) (.sent x))) ∨
      (t.onOffer L conditional x).Inert ∧ (t.onOffer L conditional x).Ends := by
  unfold onOffer
  split
  next hdone => exact .inr ⟨malformedNext_inert L x, .inl (malformedNext_isOver L x hdone)⟩
  next hopen =>
    split
    next hattached =>
      refine .inl ⟨by simp [isOver, hopen, hattached], ?_⟩
      cases conditional
      · exact .inr rfl
      · exact .inl rfl
    next hdetached =>
      refine .inr ⟨dropItem_inert x, .inl ?_⟩
      simp [isOver, dropItem, finish, reply, hdetached]

theorem onRequest_passes (n : UInt64) :
    (∃ h, (t.onRequest L n).next = .up h (.request n) .leave) ∨ (t.onRequest L n).Inert := by
  unfold onRequest
  split
  · unfold runHook
    rcases L.run t.listener (.request n) with ⟨listener, _ | cause⟩
    · dsimp only
      split
      next h hsource => exact .inl ⟨h, rfl⟩
      next => exact .inr (finish_inert.after _)
    · exact .inr ((fail_inert L _).after _)
  · exact .inr (dropError_inert _)

/-- A tap is called. -/
theorem serve_passes (self : Handle) (conditional : Bool) (input : Input α ε) :
    (t.serve L self conditional input).Passes input := by
  rcases input with (h | x | x | e | _) | (n | _)
  · exact .inert (onSubscribe_inert L self h)
  · rcases onNext_passes L x with ⟨-, hnext⟩ | ⟨hinert, -⟩
    · exact .item (.inl rfl) hnext rfl
    · exact .inert hinert
  · rcases onOffer_passes L conditional x with ⟨-, hnext | hnext⟩ | ⟨hinert, -⟩
    · exact .offer rfl hnext
    · exact .item (.inr rfl) hnext rfl
    · exact .inert hinert
  · exact .inert (onError_inert L e)
  · exact .inert (onComplete_inert L)
  · rcases onRequest_passes L n with ⟨h, hnext⟩ | hinert
    · exact .request rfl hnext
    · exact .inert hinert
  · exact .inert (onCancel_inert L)

/-- A tap goes on: it refuses the item that its receiver has refused, and nothing else. -/
theorem resume_passes (r : Resume α ε) (b : Bool) :
    (t.resume L r b).Inert ∨
      ∃ x, r = .offered x ∧ b = false ∧ (t.resume L r b).next = .answer false := by
  cases r with
  | leave => exact .inl finish_inert
  | ignored => exact .inl (finish_inert.after _)
  | refused f => exact .inl (refused_inert L f)
  | excused f => exact .inl (down_inert rfl rfl)
  | failed f => exact .inl (failed_inert L f)
  | spoiled f e => exact .inl (spoiled_inert L f e)
  | passedError e => exact .inl (wrapUp_inert L)
  | passedComplete => exact .inl (wrapUp_inert L)
  | offered x =>
      cases b with
      | true => exact .inl (consumed_inert L x)
      | false => exact .inr ⟨x, rfl, rfl, rfl⟩
  | sent x => exact .inl (consumed_inert L x)
  | released => exact .inl (released_inert L)

/-- The turn offers items only if they were given to it. -/
structure Turn.OffersOnly (turn : Turn σ α ε) (given : α → Prop) : Prop where
  down : ∀ s r, turn.next = .down s r →
    (∀ y, s.offered? = some y → given y) ∧ ∀ y, r = .offered y → given y
  up : ∀ h c r, turn.next = .up h c r → ∀ y, r ≠ .offered y

namespace Turn.OffersOnly

variable {turn : Turn σ α ε} {given : α → Prop}

theorem of_answer {b : Bool} (hnext : turn.next = .answer b) : turn.OffersOnly given :=
  ⟨by simp [hnext], by simp [hnext]⟩

theorem of_down {s : Signal α (TapError ε)} {r : Resume α ε} (hnext : turn.next = .down s r)
    (hs : ∀ y, s.offered? = some y → given y) (hr : ∀ y, r = .offered y → given y) :
    turn.OffersOnly given where
  down := by
    intro s' r' hdown
    rw [hnext] at hdown
    cases hdown
    exact ⟨hs, hr⟩
  up := by simp [hnext]

theorem of_up {h : Handle} {c : Control} {r : Resume α ε} (hnext : turn.next = .up h c r)
    (hr : r.isOffered = false) : turn.OffersOnly given where
  down := by simp [hnext]
  up := by
    rintro h' c' r' hup y rfl
    rw [hnext] at hup
    cases hup
    cases hr

theorem of_inert (h : turn.Inert) : turn.OffersOnly given := by
  cases hnext : turn.next with
  | answer b => exact .of_answer hnext
  | down s r =>
      obtain ⟨hs, hr⟩ := h.down s r hnext
      refine .of_down hnext (fun y hy => ?_) fun y hy => ?_
      · rw [Signal.offered?_of_item? hs] at hy
        cases hy
      · rw [hy] at hr
        cases hr
  | up handle c r => exact .of_up hnext (h.up handle c r hnext).2

end Turn.OffersOnly

/-- A tap offers only what it is offered. -/
theorem Turn.Passes.offersOnly {input : Input α ε} {turn : Turn σ α ε} (h : turn.Passes input) :
    turn.OffersOnly fun y => input = .signal (.offer y) := by
  cases h with
  | inert hinert => exact .of_inert hinert
  | item hinput hnext hr =>
      refine .of_down hnext (fun y hy => by cases hy) fun y hy => ?_
      rw [hy] at hr
      cases hr
  | offer hinput hnext =>
      refine .of_down hnext (fun y hy => ?_) fun y hy => ?_
      · cases hy
        exact hinput
      · cases hy
        exact hinput
  | request hinput hnext => exact .of_up hnext rfl

/-- A tap that goes on offers nothing. -/
theorem resume_offersOnly (r : Resume α ε) (b : Bool) :
    (t.resume L r b).OffersOnly fun _ => False := by
  rcases resume_passes L r b with hinert | ⟨y, -, -, hnext⟩
  · exact .of_inert hinert
  · exact .of_answer hnext

theorem serve_items_none (self : Handle) (conditional : Bool) {input : Input α ε}
    (hinput : input.item? = none) :
    Signal.items (Tap.sent (t.serve L self conditional input).next.deeds) = [] := by
  cases serve_passes L (t := t) self conditional input with
  | inert h => exact h.sent
  | item hinput' => rcases hinput' with rfl | rfl <;> cases hinput
  | offer hinput' => rw [hinput'] at hinput; cases hinput
  | request _ hnext => rw [hnext]; rfl

/-- The item of a call is passed on, by a tap that is not over, or it is the last one. -/
theorem serve_items_some (self : Handle) (conditional : Bool) {input : Input α ε} {x : α}
    (hinput : input.item? = some x) :
    (t.isOver = false ∧
        Signal.items (Tap.sent (t.serve L self conditional input).next.deeds) = [x]) ∨
      Signal.items (Tap.sent (t.serve L self conditional input).next.deeds) = [] ∧
        (t.serve L self conditional input).Ends := by
  rcases input with (_ | y | y | _ | _) | _ <;> cases hinput
  · rcases onNext_passes L x with ⟨hopen, hnext⟩ | ⟨hinert, hends⟩
    · refine .inl ⟨hopen, ?_⟩
      rw [serve, receive, hnext]
      rfl
    · exact .inr ⟨hinert.sent, hends⟩
  · rcases onOffer_passes L conditional x with ⟨hopen, hnext⟩ | ⟨hinert, hends⟩
    · refine .inl ⟨hopen, ?_⟩
      rw [serve, receive]
      rcases hnext with hnext | hnext <;> rw [hnext] <;> rfl
    · exact .inr ⟨hinert.sent, hends⟩

/-! ## The order of items -/

theorem isOver_of_plain {turn : Turn σ α ε} {unreported unsettled : List Fault}
    (h : turn.Plain t unreported unsettled) (hover : t.isOver = true) : turn.tap.isOver = true := by
  simp only [isOver, Bool.or_eq_true, Bool.not_eq_true'] at hover ⊢
  refine hover.imp h.done fun hdetached => ?_
  cases hnow : turn.tap.attached with
  | true => rw [h.attached hnow] at hdetached; cases hdetached
  | false => rfl

theorem serve_isOver (self : Handle) (conditional : Bool) (input : Input α ε)
    (hover : t.isOver = true) : (t.serve L self conditional input).tap.isOver = true := by
  by_cases hinput : ∃ h, input = .signal (.subscribe h)
  · obtain ⟨h, rfl⟩ := hinput
    simp only [serve, receive, onSubscribe, runHook]
    split
    · exact hover
    · rcases L.run t.listener (.subscription : Hook α ε) with ⟨listener, _ | cause⟩
      · dsimp only
        split <;> exact hover
      · exact hover
  · exact isOver_of_plain (serve_plain L self conditional fun h heq => hinput ⟨h, heq⟩) hover

theorem resume_isOver (r : Resume α ε) (b : Bool) (hover : t.isOver = true ∨ r.isFatal = true) :
    (t.resume L r b).tap.isOver = true := by
  cases r with
  | failed f => exact terminate_isOver _
  | spoiled f e => exact terminate_isOver _
  | refused f =>
      simp only [resume, refused, report]
      split <;> rfl
  | excused f => exact hover.resolve_right Bool.false_ne_true
  | _ => exact isOver_of_plain (resume_plain L b rfl rfl) (hover.resolve_right Bool.false_ne_true)

/-- An error ends a tap at once, though its receiver may be told later. -/
theorem onError_isOver (e : ε) : (t.onError L e).tap.isOver = true := by
  cases hdone : t.done with
  | true => exact isOver_of_plain (onError_plain L e) (by simp [isOver, hdone])
  | false =>
      simp only [onError, hdone, Bool.false_eq_true, ↓reduceIte, runHook]
      rcases L.run t.listener (.error e) with ⟨listener, _ | cause⟩
      · dsimp only
        split
        next => rfl
        next =>
          rw [Turn.tap_after, Turn.tap_after]
          exact isOver_of_plain (passedError_plain L e) rfl
      · unfold cancelSource
        dsimp only
        split
        · rfl
        · exact terminate_isOver _

namespace Life

variable {l l' : Life σ α ε} {place : Nat} {self : Handle} {conditional : Bool}
  {t : Tap σ} {pending : List (Resume α ε)} {deeds : List (Deed α ε)} {turn : Turn σ α ε}

/-- No item is passed on any more, at the latest when a cancellation returns. -/
def Over (l : Life σ α ε) : Prop :=
  l.tap.isOver = true ∨ ∃ r ∈ l.pending.head?, r.isFatal = true

/-- The receiver has been sent the items that have come, without a gap from the first on, and all of
them as long as more can follow. -/
structure InOrder (l : Life σ α ε) : Prop where
  isPrefix : Signal.items (Tap.sent l.deeds) <+: Signal.items (Tap.heard l.deeds)
  complete : Signal.items (Tap.sent l.deeds) = Signal.items (Tap.heard l.deeds) ∨ l.Over

theorem over_of_ends (h : turn.Ends) : (take ⟨t, pending, deeds⟩ turn).Over := by
  rcases h with h | ⟨r, hr, hfatal⟩
  · exact .inl h
  · refine .inr ⟨r, ?_, hfatal⟩
    rw [Option.mem_def] at hr
    simp [take, hr]

/-- A tap that waits for a cancellation before it ends hears nothing but an error, which ends it. -/
theorem Over.isError {input : Input α ε} (h : Over ⟨t, pending, deeds⟩)
    (hcourteous : Courteous place ⟨t, pending, deeds⟩ input) :
    t.isOver = true ∨ input.isError = true :=
  h.imp_right fun ⟨r, hr, hfatal⟩ =>
    (hcourteous.waiting r hr (Resume.waits_of_isFatal hfatal)).2

theorem Over.serve {input : Input α ε} (h : Over ⟨t, pending, deeds⟩)
    (hcourteous : Courteous place ⟨t, pending, deeds⟩ input) :
    (t.serve L self conditional input).tap.isOver = true := by
  rcases h.isError hcourteous with hover | herror
  · exact serve_isOver L self conditional input hover
  · rcases input with (_ | _ | _ | e | _) | _
    case signal.error => exact onError_isOver L e
    all_goals cases herror

namespace InOrder

theorem of_newborn (h : l.Newborn) : l.InOrder := by
  obtain ⟨-, -, hdeeds | hdeeds⟩ := h
  all_goals exact ⟨by rw [hdeeds]; exact List.nil_prefix, .inl (by rw [hdeeds]; rfl)⟩

/-- A turn passes on the item of its call if it has one and the tap is not over, or the tap is over
after the turn. -/
theorem take (h : InOrder ⟨t, pending, deeds⟩) {rest : List (Resume α ε)} {more : List (Deed α ε)}
    (hsent : Tap.sent more = [])
    (hturn : Signal.items (Tap.sent turn.next.deeds) = Signal.items (Tap.heard more) ∧
        (Over ⟨t, pending, deeds⟩ → Signal.items (Tap.heard more) = [] ∧
          (Life.take ⟨t, rest, deeds ++ more⟩ turn).Over) ∨
      Signal.items (Tap.sent turn.next.deeds) = [] ∧
        (Life.take ⟨t, rest, deeds ++ more⟩ turn).Over) :
    (Life.take ⟨t, rest, deeds ++ more⟩ turn).InOrder := by
  have hprefix := h.isPrefix
  dsimp only at hprefix
  have hsentNow : Signal.items (Tap.sent (deeds ++ more ++ turn.deeds)) =
      Signal.items (Tap.sent deeds) ++ Signal.items (Tap.sent turn.next.deeds) := by
    simp [hsent]
  have hheardNow : Signal.items (Tap.heard (deeds ++ more ++ turn.deeds)) =
      Signal.items (Tap.heard deeds) ++ Signal.items (Tap.heard more) := by
    simp
  have hbehind : Signal.items (Tap.sent turn.next.deeds) = [] →
      (Life.take ⟨t, rest, deeds ++ more⟩ turn).Over →
      (Life.take ⟨t, rest, deeds ++ more⟩ turn).InOrder := by
    intro hnone hover
    refine ⟨?_, .inr hover⟩
    change Signal.items (Tap.sent (deeds ++ more ++ turn.deeds)) <+:
      Signal.items (Tap.heard (deeds ++ more ++ turn.deeds))
    rw [hsentNow, hheardNow, hnone, List.append_nil]
    exact hprefix.trans (List.prefix_append _ _)
  rcases hturn with ⟨hsame, hover⟩ | ⟨hnone, hover⟩
  · rcases h.complete with heq | hwas
    · have hnow : Signal.items (Tap.sent (deeds ++ more ++ turn.deeds)) =
          Signal.items (Tap.heard (deeds ++ more ++ turn.deeds)) := by
        rw [hsentNow, hheardNow, hsame]
        exact congrArg (· ++ _) heq
      exact ⟨hnow ▸ List.prefix_refl _, .inl hnow⟩
    · obtain ⟨hnone, hnow⟩ := hover hwas
      exact hbehind (hsame.trans hnone) hnow
  · exact hbehind hnone hover

theorem step (h : l.InOrder) (hstep : Step Ls self conditional (Courteous place) l l') :
    l'.InOrder := by
  cases hstep with
  | @serve t pending deeds input ambient hcourteous =>
      have hitems : Signal.items (Tap.heard [(.received input : Deed α ε)]) =
          input.item?.toList := by
        cases input <;> simp [Deed.heard?, Input.item?]
      refine h.take rfl ?_
      rw [hitems]
      cases hitem : input.item? with
      | none =>
          exact .inl ⟨serve_items_none (Ls ambient) self conditional hitem,
            fun hwas => ⟨rfl, .inl (hwas.serve (Ls ambient) hcourteous)⟩⟩
      | some x =>
          rcases serve_items_some (Ls ambient) self conditional hitem with
            ⟨hopen, hsent⟩ | ⟨hsent, hends⟩
          · refine .inl ⟨hsent, fun hwas => ?_⟩
            rcases hwas.isError hcourteous with hover | herror
            · rw [hopen] at hover
              cases hover
            · rcases input with (_ | _ | _ | e | _) | _
              case signal.error => cases hitem
              all_goals cases herror
          · exact .inr ⟨hsent, over_of_ends hends⟩
  | @resume t r pending deeds ambient b =>
      have hturn : Signal.items (Tap.sent (t.resume (Ls ambient) r b).next.deeds) = [] := by
        rcases resume_passes (Ls ambient) r b with hinert | ⟨x, -, -, hnext⟩
        · exact hinert.sent
        · rw [hnext]
          rfl
      have hover : Over ⟨t, r :: pending, deeds⟩ →
          (t.resume (Ls ambient) r b).tap.isOver = true := by
        intro hwas
        refine resume_isOver (Ls ambient) r b (hwas.imp_right ?_)
        rintro ⟨r', hr', hfatal⟩
        cases hr'
        exact hfatal
      have hnow : (Life.take ⟨t, pending, deeds ++ []⟩ (t.resume (Ls ambient) r b)).InOrder :=
        h.take rfl (.inl ⟨hturn, fun hwas => ⟨rfl, .inl (hover hwas)⟩⟩)
      simpa using hnow

end InOrder

/-- In a courteous life the receiver is sent the items that come, in order, up to the last one that
is passed on. -/
theorem Lived.inOrder (hl : Lived Ls self conditional (Courteous place) l) : l.InOrder :=
  hl.invariant (fun _ => .of_newborn) fun _ _ => .step

end Life

end Tap

end Wiretap

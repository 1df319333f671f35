import Mathlib.Data.List.TakeWhile
import Wiretap.Proofs.Tap.Settling

/-!
# Offering against sending

An item that is sent passes the hook first and the receiver afterwards, and an item that is offered
goes the other way. The receiver that would refuse some of the items of a list can be offered all of
them, or it can be sent those that it would take. As long as the hook does not fail this comes to
the same. Where it fails first, the receiver of offers has taken the item already, and the other one
never gets it.
-/

namespace Wiretap

variable {K : Kinds} {σ α ε : Type}

/-- Is the act a run of the hook for items, or was the listener told of a fault? -/
def Tap.Act.isAboutItems : Tap.Act α ε → Bool
  | .ran h _ => h.isNext
  | .reported _ => true
  | _ => false

namespace Tap.Doing

/-- What a receiver that refuses offers by `accepts` keeps of what it is sent: an item that it was
offered and took is an item to it, and one that it refused is nothing. -/
def kept? (accepts : α → Bool) : Doing α ε → Option (Signal α (TapError ε))
  | .sent (.offer x) => if accepts x then some (.next x) else none
  | .sent s => some s
  | _ => none

/-- The act, if it is about items. -/
def aboutItems? : Doing α ε → Option (Act α ε)
  | .act a => if a.isAboutItems then some a else none
  | _ => none

/-- The item that the hook for items is run with. -/
def seen? : Doing α ε → Option α
  | .act (.ran (.next x) _) => some x
  | _ => none

/-- Is the source cancelled? -/
def isCancel : Doing α ε → Bool
  | .used c => c.isCancel
  | _ => false

end Tap.Doing

namespace Tap

/-- What a receiver keeps. -/
def kept (accepts : α → Bool) (log : List (Doing α ε)) : List (Signal α (TapError ε)) :=
  log.filterMap (Doing.kept? accepts)

/-- The acts about items. -/
def aboutItems (log : List (Doing α ε)) : List (Act α ε) := log.filterMap Doing.aboutItems?

/-- The items that the hook for items is run with. -/
def seen (log : List (Doing α ε)) : List α := log.filterMap Doing.seen?

/-- How often the source is cancelled. -/
def cancels (log : List (Doing α ε)) : Nat := log.countP Doing.isCancel

section

variable (accepts : α → Bool) (d : Doing α ε) (log later : List (Doing α ε))

@[simp] theorem kept_nil : kept accepts ([] : List (Doing α ε)) = [] := rfl

@[simp] theorem kept_append :
    kept accepts (log ++ later) = kept accepts log ++ kept accepts later :=
  List.filterMap_append

@[simp] theorem kept_cons :
    kept accepts (d :: log) = (d.kept? accepts).toList ++ kept accepts log :=
  filterMap_cons_toList _ _ _

@[simp] theorem aboutItems_nil : aboutItems ([] : List (Doing α ε)) = [] := rfl

@[simp] theorem aboutItems_append :
    aboutItems (log ++ later) = aboutItems log ++ aboutItems later :=
  List.filterMap_append

@[simp] theorem aboutItems_cons : aboutItems (d :: log) = d.aboutItems?.toList ++ aboutItems log :=
  filterMap_cons_toList _ _ _

@[simp] theorem seen_nil : seen ([] : List (Doing α ε)) = [] := rfl

@[simp] theorem seen_append : seen (log ++ later) = seen log ++ seen later := List.filterMap_append

@[simp] theorem seen_cons : seen (d :: log) = d.seen?.toList ++ seen log :=
  filterMap_cons_toList _ _ _

@[simp] theorem cancels_nil : cancels ([] : List (Doing α ε)) = 0 := rfl

@[simp] theorem cancels_append : cancels (log ++ later) = cancels log + cancels later :=
  List.countP_append

@[simp] theorem cancels_cons : cancels (d :: log) = cancels log + d.isCancel.toNat := by
  cases h : d.isCancel <;> simp [cancels, h]

end

/-- The items up to and including the first one that `f` marks. -/
def upTo (f : α → Bool) (xs : List α) : List α :=
  (xs.takeWhile fun x => !f x) ++ (xs.find? f).toList

/-- What comes of offering `xs`, told by `fast`, against what comes of sending those of them that
the receiver accepts, told by `plain`, where both receivers have kept `first` at the start and the
hook for items fails as `f` says. -/
structure Agree (f accepts : α → Bool) (first : List (Signal α (TapError ε))) (xs : List α)
    (fast plain : List (Doing α ε)) (answers : List Bool) : Prop where
  /-- The receivers keep the same but for the item of the first failure. -/
  trace : ∃ ending : List (Signal α (TapError ε)),
    kept accepts fast = first ++ (upTo f (xs.filter accepts)).map .next ++ ending ∧
    kept accepts plain =
      first ++ ((xs.filter accepts).takeWhile fun x => !f x).map .next ++ ending ∧
    if (xs.filter accepts).any f then
      ∃ cause, ending = [.error (.listener ⟨.hook "do_on_next", cause⟩)]
    else ending = []
  /-- The listeners are told the same about items. -/
  hooks : aboutItems fast = aboutItems plain
  /-- The hook sees the accepted items up to its first failure. -/
  items : seen fast = upTo f (xs.filter accepts)
  /-- The source is cancelled because of a failure only, and once. -/
  cancels : Tap.cancels fast = ((xs.filter accepts).any f).toNat ∧
    Tap.cancels plain = ((xs.filter accepts).any f).toNat
  /-- Refused is what the receiver refuses before the first failure. -/
  answers : answers = xs.mapIdx fun i x =>
    accepts x || (xs.take i).any fun y => accepts y && f y

/-- The tap has its handle, which is one from outside, and its subscription is under way. -/
structure IsOpen (t : Tap σ) : Prop where
  source : ∃ id, t.source = some (.external id)
  attached : t.attached = true
  done : t.done = false

section

variable {L : Listener σ α ε} {f accepts : α → Bool} {t : Tap σ} {self : Handle}
  {conditional : Bool} {x : α}

theorem IsOpen.of_listener (h : t.IsOpen) (listener : σ) :
    ({ t with listener } : Tap σ).IsOpen := ⟨h.source, h.attached, h.done⟩

/-- What a failure of the hook for items leads to. -/
def failing (x : α) (cause : Cause) : List (Doing α ε) :=
  let fault : Fault := (Hook.next x : Hook α ε).fault cause
  [.act (.ran (.next x) (some cause)), .used .cancel, .act (.reported fault),
    .sent (.error (.listener fault))]

/-- A fault ends the subscription: the source is cancelled, the listener is told, and then the
receiver. -/
theorem IsOpen.fail (h : t.IsOpen) (fault : Fault) :
    ∃ u, Settles L accepts (t.fail L fault)
      [.used .cancel, .act (.reported fault), .sent (.error (.listener fault))] u true ∧
      u.done = true := by
  obtain ⟨id, hsource⟩ := h.source
  have hup : t.fail L fault = ⟨[], t, .up (.external id) .cancel (.failed fault)⟩ := by
    rw [Tap.fail, cancelSource, hsource]
  let told : Tap σ := { t with listener := L.notice t.listener fault }
  let ended : Tap σ := { told with attached := false, done := true, finalized := true }
  have hdown : told.terminate (.listener fault) =
      (ended.down (.error (.listener fault)) .leave : Turn σ α ε) := if_pos h.attached
  have hsent : Settles L accepts (told.terminate (.listener fault) : Turn σ α ε)
      [.sent (.error (.listener fault))] ended true := by
    rw [hdown]
    exact .down (w := ended.down (.error (.listener fault)) .leave) rfl rfl (.finish ended)
  rw [hup]
  exact ⟨ended, .up (w := ⟨[], t, .up (.external id) .cancel (.failed fault)⟩) rfl
    (hsent.after (.reported fault)), rfl⟩

theorem IsOpen.runHook_next_failed (h : t.IsOpen) (accepts : α → Bool)
    (ok : Tap σ → Turn σ α ε) {cause : Cause}
    (hsome : (L.run t.listener (.next x)).2 = some cause) :
    ∃ u, Settles L accepts (t.runHook L (.next x) ok fun t f => t.fail L f) (failing x cause) u
      true ∧ u.done = true := by
  obtain ⟨u, hu, hdone⟩ := (h.of_listener _).fail ((Hook.next x : Hook α ε).fault cause)
  exact ⟨u, .runHook_failed hsome hu, hdone⟩

/-! ## Items sent -/

theorem IsOpen.serve_next (h : t.IsOpen) :
    t.serve L self conditional (.signal (.next x)) = t.runHook L (.next x)
      (fun t => if t.attached then t.down (.next x) .leave else t.dropItem x)
      (fun t f => t.fail L f) := if_neg (by simp [h.done])

theorem IsOpen.next (h : t.IsOpen) (hnone : (L.run t.listener (.next x)).2 = none) :
    Settles L accepts (t.serve L self conditional (.signal (.next x)))
      [.act (.ran (.next x) none), .sent (.next x)]
      { t with listener := (L.run t.listener (.next x)).1 } true := by
  rw [h.serve_next]
  refine .runHook hnone ?_
  let passed : Tap σ := { t with listener := (L.run t.listener (.next x)).1 }
  have hdown : (if passed.attached then passed.down (.next x) .leave else passed.dropItem x) =
      (passed.down (.next x) .leave : Turn σ α ε) := if_pos h.attached
  change Settles L accepts
    (if passed.attached then passed.down (.next x) .leave else passed.dropItem x) _ passed true
  rw [hdown]
  exact .down (w := passed.down (.next x) .leave) rfl rfl (.finish passed)

theorem IsOpen.next_failed (h : t.IsOpen) (self : Handle) (conditional : Bool)
    (accepts : α → Bool) {cause : Cause}
    (hsome : (L.run t.listener (.next x)).2 = some cause) :
    ∃ u, Settles L accepts (t.serve L self conditional (.signal (.next x))) (failing x cause) u
      true := by
  rw [h.serve_next]
  obtain ⟨u, hu, -⟩ := h.runHook_next_failed accepts _ hsome
  exact ⟨u, hu⟩

/-! ## Items offered -/

theorem IsOpen.serve_offer (h : t.IsOpen) :
    t.serve L self true (.signal (.offer x)) = t.down (.offer x) (.offered x) := by
  have hoffer : t.serve L self true (.signal (.offer x)) =
      if t.attached then t.down (.offer x) (.offered x) else t.dropItem x :=
    if_neg (by simp [h.done])
  rw [hoffer, if_pos h.attached]

/-- An offer that is refused leaves the tap alone. -/
theorem IsOpen.offer_refused (h : t.IsOpen) (hx : accepts x = false) :
    Settles L accepts (t.serve L self true (.signal (.offer x))) [.sent (.offer x)] t false := by
  rw [h.serve_offer]
  refine .down (w := t.down (.offer x) (.offered x)) rfl rfl ?_
  rw [Signal.taken, hx]
  exact .reply t false

/-- An offer that is taken is consumed. -/
theorem IsOpen.offer_taken (h : t.IsOpen) (hx : accepts x = true) {doings : List (Doing α ε)}
    {u : Tap σ} {b : Bool} (hconsumed : Settles L accepts (t.consumed L x) doings u b) :
    Settles L accepts (t.serve L self true (.signal (.offer x))) (.sent (.offer x) :: doings) u
      b := by
  rw [h.serve_offer]
  refine .down (w := t.down (.offer x) (.offered x)) rfl rfl ?_
  rw [Signal.taken, hx]
  exact hconsumed

/-- After the end an offered item is malformed. -/
theorem serve_offer_done (self : Handle) (conditional : Bool) (accepts : α → Bool) (x : α)
    (hL : L.FailsOn f) (hdone : t.done = true) :
    ∃ u, Settles L accepts (t.serve L self conditional (.signal (.offer x)))
      [.act (.ran (.malformedNext x) none), .act (.droppedItem x)] u true ∧ u.done = true := by
  have hserve : t.serve L self conditional (.signal (.offer x)) = t.malformedNext L x :=
    if_pos hdone
  rw [hserve]
  refine ⟨_, .runHook (hL.others _ _ rfl) ((Settles.finish _).after _), hdone⟩

/-! ## The beginning -/

/-- Nothing is done that is about items or ends the subscription, and the receiver keeps this. -/
structure Preliminary (log : List (Doing α ε)) (first : List (Signal α (TapError ε))) : Prop where
  kept : ∀ accepts, kept accepts log = first
  hooks : aboutItems log = []
  items : seen log = []
  cancels : cancels log = 0

theorem Preliminary.append {log later : List (Doing α ε)} {first second}
    (h : Preliminary log first) (hlater : Preliminary later second) :
    Preliminary (log ++ later) (first ++ second) where
  kept accepts := by rw [kept_append, h.kept, hlater.kept]
  hooks := by rw [aboutItems_append, h.hooks, hlater.hooks, List.append_nil]
  items := by rw [seen_append, h.items, hlater.items, List.append_nil]
  cancels := by rw [cancels_append, h.cancels, hlater.cancels]

theorem setUp_of_failsOn (hL : L.FailsOn f) (listener : σ) (context : Context) :
    ∃ listener' augmented, setUp L listener context =
      ([.ran .first none, .augmented none], .ok (.start listener' augmented)) := by
  have hnone := hL.others listener .first rfl
  obtain ⟨augmented, haugmented⟩ := hL.augments (L.run listener .first).1 context
  refine ⟨(L.augment (L.run listener .first).1 context).1, augmented, ?_⟩
  simp only [setUp, hnone, haugmented]

/-- The tap gets its handle and gives itself to its receiver. -/
theorem start_subscribe (self : Handle) (hL : L.FailsOn f) (listener : σ) (context : Context)
    (id : Nat) :
    ∃ u, u.IsOpen ∧ ∀ conditional, (Tap.start listener context).serve L self conditional
        (.signal (.subscribe (.external id))) =
      ⟨[.ran .subscription none], u, .down (.subscribe self) .leave⟩ := by
  let got : Tap σ := { Tap.start listener context with source := some (.external id) }
  have hnone := hL.others got.listener .subscription rfl
  refine ⟨{ got with listener := (L.run got.listener .subscription).1 }, ⟨⟨id, rfl⟩, rfl, rfl⟩, ?_⟩
  intro conditional
  have hserve : (Tap.start listener context).serve L self conditional
      (.signal (.subscribe (.external id))) = got.runHook L .subscription
        (fun t => if t.attached then t.down (.subscribe self) .leave else t.finish)
        (fun t f => ⟨[], t, .up (.external id) .cancel (.refused f)⟩) := rfl
  rw [hserve]
  simp only [runHook, hnone]
  rfl

/-- A request is passed on, unless it asks for nothing. -/
theorem IsOpen.request (self : Handle) (hL : L.FailsOn f) (h : t.IsOpen) (n : UInt64) :
    ∃ log u, u.IsOpen ∧ Preliminary log [] ∧ ∀ conditional accepts,
      Settles L accepts (t.serve L self conditional (.control (.request n))) log u true := by
  by_cases hn : Demand.isPositive n = true
  · have hnone := hL.others t.listener (.request n) rfl
    let asked : Tap σ := { t with listener := (L.run t.listener (.request n)).1 }
    refine ⟨[.act (.ran (.request n) none), .used (.request n)], asked, h.of_listener _,
      ⟨fun _ => rfl, rfl, rfl, rfl⟩, fun conditional accepts => ?_⟩
    have hserve : t.serve L self conditional (.control (.request n)) = _ := if_pos hn
    rw [hserve]
    refine .runHook hnone ?_
    obtain ⟨id, hsource⟩ := h.source
    rcases t with ⟨listener, context, attached, source, done, finalized⟩
    obtain rfl : source = some (.external id) := hsource
    exact .up (w := ⟨[], asked, .up (.external id) (.request n) .leave⟩) rfl (.finish asked)
  · refine ⟨[.act (.droppedError (.violation (.nonPositiveRequest n)))], t, h,
      ⟨fun _ => rfl, rfl, rfl, rfl⟩, fun conditional accepts => ?_⟩
    have hserve : t.serve L self conditional (.control (.request n)) =
        t.dropError (.violation (.nonPositiveRequest n)) := if_neg hn
    rw [hserve]
    exact (Settles.finish t).after _

/-- Requests are passed on one after the other. -/
theorem IsOpen.requests (self : Handle) (hL : L.FailsOn f) (h : t.IsOpen) (demands : List UInt64) :
    ∃ log answers u, u.IsOpen ∧ Preliminary log [] ∧ ∀ conditional accepts,
      Serves L self conditional accepts t (demands.map fun n => .control (.request n)) log answers
        u := by
  induction demands generalizing t with
  | nil => exact ⟨[], [], t, h, ⟨fun _ => rfl, rfl, rfl, rfl⟩, fun _ _ => .nil⟩
  | cons n demands ih =>
      obtain ⟨log, u, hu, hlog, hsettles⟩ := h.request self hL n
      obtain ⟨later, answers, v, hv, hlater, hserves⟩ := ih hu
      refine ⟨_, true :: answers, v, hv, hlog.append hlater, fun conditional accepts => ?_⟩
      exact .cons (hsettles conditional accepts) (hserves conditional accepts)

end

/-! ## Lists of items -/

section

variable {L : Listener σ α ε} {f accepts : α → Bool} {t : Tap σ}

theorem upTo_cons_of_neg {x : α} (hx : f x = false) (xs : List α) :
    upTo f (x :: xs) = x :: upTo f xs := by simp [upTo, hx]

theorem upTo_cons_of_pos {x : α} (hx : f x = true) (xs : List α) : upTo f (x :: xs) = [x] := by
  simp [upTo, hx]

/-- After the end every offer is answered, and nothing else happens. -/
theorem serves_done (self : Handle) (accepts : α → Bool) (hL : L.FailsOn f) (hdone : t.done = true)
    (xs : List α) :
    ∃ log u, Serves L self true accepts t (xs.map fun x => .signal (.offer x)) log
      (List.replicate xs.length true) u ∧ kept accepts log = [] ∧ aboutItems log = [] ∧
      seen log = [] ∧ cancels log = 0 := by
  induction xs generalizing t with
  | nil => exact ⟨[], t, .nil, rfl, rfl, rfl, rfl⟩
  | cons x xs ih =>
      obtain ⟨u, hu, hudone⟩ := serve_offer_done self true accepts x hL hdone
      obtain ⟨log, v, hlog, hkept, habout, hseen, hcancels⟩ := ih hudone
      exact ⟨_, v, .cons hu hlog, hkept, habout, hseen, hcancels⟩

namespace Agree

variable {x : α} {xs : List α} {fast plain after : List (Doing α ε)} {answers : List Bool}

theorem nil : Agree f accepts [] [] ([] : List (Doing α ε)) [] [] :=
  ⟨⟨[], rfl, rfl, rfl⟩, rfl, rfl, ⟨rfl, rfl⟩, rfl⟩

theorem answers_cons (h : answers = xs.mapIdx fun i y =>
      accepts y || (xs.take i).any fun z => accepts z && f z)
    (hx : (accepts x && f x) = false) :
    accepts x :: answers = (x :: xs).mapIdx fun i y =>
      accepts y || ((x :: xs).take i).any fun z => accepts z && f z := by
  simp [List.mapIdx_cons, h, hx]

/-- An offer is refused. -/
theorem refused (h : Agree f accepts [] xs fast plain answers) (hx : accepts x = false) :
    Agree f accepts [] (x :: xs) (.sent (.offer x) :: fast) plain (false :: answers) := by
  have hfilter : (x :: xs).filter accepts = xs.filter accepts := by simp [hx]
  obtain ⟨ending, hfast, hplain, hending⟩ := h.trace
  refine ⟨⟨ending, ?_, ?_, ?_⟩, ?_, ?_, ?_, ?_⟩
  · rw [hfilter, ← hfast]
    simp [Doing.kept?, hx]
  · rwa [hfilter]
  · rwa [hfilter]
  · exact h.hooks
  · rw [hfilter]
    exact h.items
  · rw [hfilter]
    exact h.cancels
  · rw [← hx]
    exact answers_cons h.answers (by rw [hx, Bool.false_and])

/-- An item is taken, and the hook does not fail. -/
theorem taken (h : Agree f accepts [] xs fast plain answers) (hx : accepts x = true)
    (hf : f x = false) :
    Agree f accepts [] (x :: xs) (.sent (.offer x) :: .act (.ran (.next x) none) :: fast)
      (.act (.ran (.next x) none) :: .sent (.next x) :: plain) (true :: answers) := by
  have hfilter : (x :: xs).filter accepts = x :: xs.filter accepts := by simp [hx]
  obtain ⟨ending, hfast, hplain, hending⟩ := h.trace
  refine ⟨⟨ending, ?_, ?_, ?_⟩, ?_, ?_, ?_, ?_⟩
  · rw [hfilter, upTo_cons_of_neg hf]
    simpa [Doing.kept?, hx] using hfast
  · rw [hfilter]
    simpa [Doing.kept?, hf] using hplain
  · rw [hfilter]
    simpa [hf] using hending
  · simpa [Doing.aboutItems?, Act.isAboutItems, Hook.isNext] using h.hooks
  · rw [hfilter, upTo_cons_of_neg hf, ← h.items]
    rfl
  · rw [hfilter, List.any_cons, hf, Bool.false_or]
    exact h.cancels
  · rw [← hx]
    exact answers_cons h.answers (by rw [hf, Bool.and_false])

/-- An item is taken, and the hook fails. -/
theorem failed (hx : accepts x = true) (hf : f x = true) (cause : Cause)
    (hkept : kept accepts after = []) (habout : aboutItems after = []) (hseen : seen after = [])
    (hcancels : Tap.cancels after = 0) :
    Agree f accepts [] (x :: xs) (.sent (.offer x) :: failing x cause ++ after)
      (failing x cause) (true :: List.replicate xs.length true) := by
  have hfilter : (x :: xs).filter accepts = x :: xs.filter accepts := by simp [hx]
  refine ⟨⟨[.error (.listener ⟨.hook "do_on_next", cause⟩)], ?_, ?_, ?_⟩, ?_, ?_, ?_, ?_⟩
  · rw [hfilter, upTo_cons_of_pos hf]
    simp [failing, Doing.kept?, hx, hkept, Hook.fault, Hook.name]
  · rw [hfilter]
    simp [failing, Doing.kept?, hf, Hook.fault, Hook.name]
  · rw [hfilter]
    simp [hf]
  · simp [Doing.aboutItems?, habout]
  · rw [hfilter, upTo_cons_of_pos hf]
    simp [failing, Doing.seen?, hseen]
  · rw [hfilter]
    simp [failing, Doing.isCancel, Control.isCancel, hcancels, hf]
  · have hrest : xs.mapIdx (fun i y =>
        accepts y || ((x :: xs).take (i + 1)).any fun z => accepts z && f z) =
          List.replicate xs.length true :=
      List.mapIdx_eq_replicate_iff.mpr fun i hi => by simp [hx, hf]
    rw [List.mapIdx_cons, hrest, hx, Bool.true_or]

/-- What both have in common at the start does not matter. -/
theorem prepend {log : List (Doing α ε)} {first : List (Signal α (TapError ε))}
    (h : Agree f accepts [] xs fast plain answers) (hlog : Preliminary log first) :
    Agree f accepts first xs (log ++ fast) (log ++ plain) answers := by
  obtain ⟨ending, hfast, hplain, hending⟩ := h.trace
  refine ⟨⟨ending, ?_, ?_, hending⟩, ?_, ?_, ?_, h.answers⟩
  · rw [kept_append, hlog.kept, hfast, List.nil_append, List.append_assoc]
  · rw [kept_append, hlog.kept, hplain, List.nil_append, List.append_assoc]
  · rw [aboutItems_append, aboutItems_append, h.hooks]
  · rw [seen_append, hlog.items, h.items, List.nil_append]
  · rw [cancels_append, cancels_append, hlog.cancels, Nat.zero_add, Nat.zero_add]
    exact h.cancels

end Agree

/-- Offering all items comes to what sending the accepted ones comes to. -/
theorem IsOpen.serves_agree (self : Handle) (accepts : α → Bool) (hL : L.FailsOn f) (h : t.IsOpen)
    (xs : List α) :
    ∃ fast answers u plain sent v,
      Serves L self true accepts t (xs.map fun x => .signal (.offer x)) fast answers u ∧
      Serves L self false accepts t
        ((upTo f (xs.filter accepts)).map fun x => .signal (.next x)) plain sent v ∧
      Agree f accepts [] xs fast plain answers := by
  induction xs generalizing t with
  | nil => exact ⟨[], [], t, [], [], t, .nil, .nil, .nil⟩
  | cons x xs ih =>
      cases hx : accepts x with
      | false =>
          obtain ⟨fast, answers, u, plain, sent, v, hfast, hplain, hagree⟩ := ih h
          have hfilter : (x :: xs).filter accepts = xs.filter accepts := by simp [hx]
          refine ⟨_, _, u, plain, sent, v, .cons (h.offer_refused hx) hfast, ?_,
            hagree.refused hx⟩
          rwa [hfilter]
      | true =>
          have hfilter : (x :: xs).filter accepts = x :: xs.filter accepts := by simp [hx]
          rw [hfilter]
          cases hf : f x with
          | false =>
              have hnone := hL.next_eq_none hf t.listener
              obtain ⟨fast, answers, u, plain, sent, v, hfast, hplain, hagree⟩ :=
                ih (h.of_listener (L.run t.listener (.next x)).1)
              have hconsumed : Settles L accepts (t.consumed L x) _ _ true :=
                .runHook hnone (.finish _)
              rw [upTo_cons_of_neg hf]
              exact ⟨_, _, u, _, _, v, .cons (h.offer_taken hx hconsumed) hfast,
                .cons (h.next hnone) hplain, hagree.taken hx hf⟩
          | true =>
              obtain ⟨cause, hsome⟩ := hL.next_eq_some hf t.listener
              obtain ⟨w, hconsumed, hdone⟩ := h.runHook_next_failed accepts finish hsome
              obtain ⟨after, u, hafter, hkept, habout, hseen, hcancels⟩ :=
                serves_done self accepts hL hdone xs
              obtain ⟨v, hv⟩ := h.next_failed self false accepts hsome
              rw [upTo_cons_of_pos hf]
              refine ⟨_, _, u, _, _, v, .cons (h.offer_taken hx hconsumed) hafter,
                .cons hv .nil, ?_⟩
              rw [List.append_nil]
              exact .failed hx hf cause hkept habout hseen hcancels

end

end Tap

end Wiretap

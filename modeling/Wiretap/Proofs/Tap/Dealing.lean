import Wiretap.Proofs.Tap.Calls

/-!
# What becomes of an item or an error

A call to a tap that brings an item or an error deals with it in this call and in no other. An item
is sent to the receiver once or dropped once, unless the hook for it failed before it could be sent;
an error is sent or dropped once, on its own or together with a fault. No other call sends or drops
anything that came from the source. While a call is open the point where the tap will resume says
whether this has been done.
-/

namespace Wiretap

variable {K : Kinds} {σ α ε : Type}

namespace Tap

/-- Was an item sent or dropped? -/
def Doing.isItem : Doing α ε → Bool
  | .sent (.next _) | .sent (.offer _) | .act (.droppedItem _) => true
  | _ => false

/-- The error of the source that was sent or dropped, on its own or in an error of the tap. -/
def Doing.payload? : Doing α ε → Option ε
  | .sent (.error e) => e.source?
  | .act (.droppedError (.source e)) => some e
  | .act (.droppedError (.tapped e)) => e.source?
  | _ => none

/-- Was something sent or dropped that came from the source? -/
def Doing.carries (d : Doing α ε) : Bool := d.isItem || d.payload?.isSome

/-- Was a neighbour called? -/
def Doing.isCall : Doing α ε → Bool
  | .sent _ | .used _ => true
  | .act _ => false

theorem countP_isCall_acts (acts : List (Act α ε)) :
    (acts.map (.act : Act α ε → Doing α ε)).countP Doing.isCall = 0 := by
  simp [List.countP_eq_zero, Doing.isCall]

namespace OpenCall

/-- The items sent and dropped in the call. -/
def items (call : OpenCall α ε) : List (Doing α ε) := call.doings.filter Doing.isItem

/-- The errors of the source sent and dropped in the call. -/
def payloads (call : OpenCall α ε) : List (Doing α ε) :=
  call.doings.filter fun d => d.payload?.isSome

/-- How often the tap has called a neighbour in the call. -/
def length (call : OpenCall α ε) : Nat := call.doings.countP Doing.isCall

/-- The call deals with what it was made for, when the receiver's verdicts on what it was offered
are these and the tap returns this answer. -/
def Accounts (call : OpenCall α ε) (verdicts : List Bool) (answer : Bool) : Prop :=
  match call.input with
  | .signal (.next x) => call.payloads = [] ∧
      (call.items = [.sent (.next x)] ∨ call.items = [.act (.droppedItem x)] ∨
        call.items = [] ∧ ∃ cause, .act (.ran (.next x) (some cause)) ∈ call.doings)
  | .signal (.offer x) => call.payloads = [] ∧
      (call.items = [.sent (.offer x)] ∧ verdicts = [answer] ∨
        call.items = [.sent (.next x)] ∧ answer = true ∨
        call.items = [.act (.droppedItem x)] ∧ answer = true)
  | .signal (.error e) => call.items = [] ∧
      (call.payloads = [.sent (.error (.source e))] ∨
        (∃ f, call.payloads = [.sent (.error (.multiple f e))]) ∨
        call.payloads = [.act (.droppedError (.source e))] ∨
        ∃ f, call.payloads = [.act (.droppedError (.tapped (.multiple f e)))])
  | _ => call.items = [] ∧ call.payloads = []

/-- How far the call has dealt with what it was made for when the tap will resume at this point. -/
def Deals (call : OpenCall α ε) (verdicts : List Bool) : Resume α ε → Prop
  | .offered x => call.input = .signal (.offer x) ∧ call.items = [.sent (.offer x)] ∧
      call.payloads = []
  | .sent x => call.input = .signal (.offer x) ∧ call.items = [.sent (.next x)] ∧
      call.payloads = []
  | .spoiled _ e => call.input = .signal (.error e) ∧ call.items = [] ∧ call.payloads = []
  | _ => call.Accounts verdicts true

variable {call : OpenCall α ε} {more : List (Doing α ε)} {verdicts : List Bool} {answer : Bool}

theorem items_did : (call.did more).items = call.items ++ more.filter Doing.isItem :=
  List.filter_append ..

theorem payloads_did :
    (call.did more).payloads = call.payloads ++ more.filter fun d => d.payload?.isSome :=
  List.filter_append ..

theorem length_did : (call.did more).length = call.length + more.countP Doing.isCall :=
  List.countP_append

theorem items_did_of_carries (call : OpenCall α ε) (h : ∀ d ∈ more, d.carries = false) :
    (call.did more).items = call.items := by
  have hnone : more.filter Doing.isItem = [] := by
    refine List.filter_eq_nil_iff.mpr fun d hd => ?_
    have hcarries := h d hd
    simp only [Doing.carries, Bool.or_eq_false_iff] at hcarries
    simp [hcarries.1]
  rw [items_did, hnone, List.append_nil]

theorem payloads_did_of_carries (call : OpenCall α ε) (h : ∀ d ∈ more, d.carries = false) :
    (call.did more).payloads = call.payloads := by
  have hnone : (more.filter fun d => d.payload?.isSome) = [] := by
    refine List.filter_eq_nil_iff.mpr fun d hd => ?_
    have hcarries := h d hd
    simp only [Doing.carries, Bool.or_eq_false_iff] at hcarries
    simp [hcarries.2]
  rw [payloads_did, hnone, List.append_nil]

/-- What has been dealt with stays so if nothing more is sent or dropped. -/
theorem Accounts.did (h : call.Accounts verdicts answer) (hmore : ∀ d ∈ more, d.carries = false) :
    (call.did more).Accounts verdicts answer := by
  have hitems := items_did_of_carries call hmore
  have hpayloads := payloads_did_of_carries call hmore
  unfold Accounts at h ⊢
  rw [hitems, hpayloads]
  rcases hinput : call.input with (_ | x | _ | _ | _) | _
  case signal.next =>
    have hdid : (call.did more).input = .signal (.next x) := hinput
    simp only [hinput] at h
    simp only [hdid]
    refine ⟨h.1, h.2.imp_right (Or.imp_right ?_)⟩
    rintro ⟨hnone, cause, hfailed⟩
    exact ⟨hnone, cause, List.mem_append_left _ hfailed⟩
  all_goals
    have hdid : (call.did more).input = _ := hinput
    simp only [hinput] at h
    simp only [hdid]
    exact h

end OpenCall

/-- Has the call that the tap will go on with been dealt with? -/
def Resume.isDealt : Resume α ε → Bool
  | .offered _ | .sent _ | .spoiled _ _ => false
  | _ => true

theorem Resume.isOffered_of_isDealt {r : Resume α ε} (h : r.isDealt = true) :
    r.isOffered = false := by
  cases r with
  | offered x => cases h
  | _ => rfl

/-- How often the tap may still call a neighbour when it resumes. -/
def Resume.rank : Resume α ε → Nat
  | .refused _ | .offered _ | .sent _ | .released => 2
  | .excused _ | .failed _ | .spoiled _ _ => 1
  | _ => 0

/-- A call that has been dealt with, or that had nothing to deal with, may go on. -/
theorem OpenCall.Accounts.deals {call : OpenCall α ε} {verdicts : List Bool} {r : Resume α ε}
    (h : call.Accounts verdicts true) (hr : r.isDealt = true) : call.Deals verdicts r := by
  cases r with
  | offered | sent | spoiled => cases hr
  | _ => exact h

/-- A turn that sends and drops nothing that came from the source. -/
structure Turn.Barren (turn : Turn σ α ε) : Prop where
  doings : ∀ d ∈ turn.doings, d.carries = false
  answer : ∀ b, turn.next = .answer b → b = true
  resume : ∀ r ∈ turn.next.resume?, r.isDealt = true

/-- A turn in this call, on whose offers the receiver has given these verdicts, accounts for what
the call was made for, or leaves it as the point where the tap will resume requires. -/
structure Turn.Trades (call : OpenCall α ε) (verdicts : List Bool) (turn : Turn σ α ε) :
    Prop where
  returns : ∀ b, turn.next = .answer b → (call.did turn.doings).Accounts verdicts b
  deals : ∀ r ∈ turn.next.resume?, (call.did turn.doings).Deals verdicts r
  /-- The tap waits for a verdict if it has made an offer, and only then. -/
  offers : ∀ s r, turn.next = .down s r →
    (∃ x, s = .offer x ∧ r = .offered x ∧ verdicts = []) ∨
      s.isOffer = false ∧ r.isOffered = false
  /-- What is asked of the source is no offer. -/
  asks : ∀ h c r, turn.next = .up h c r → r.isOffered = false

namespace Turn

variable {turn : Turn σ α ε} {call : OpenCall α ε} {verdicts : List Bool}

namespace Barren

theorem after {act : Act α ε} (h : turn.Barren) (hact : (.act act : Doing α ε).carries = false) :
    (turn.after act).Barren where
  doings := by
    intro d hd
    rcases List.mem_cons.mp hd with rfl | hd
    · exact hact
    · exact h.doings d hd
  answer := h.answer
  resume := h.resume

/-- A call that has been dealt with, or that had nothing to deal with. -/
theorem trades (h : turn.Barren) (hcall : call.Accounts verdicts true) :
    turn.Trades call verdicts where
  returns := by
    intro b hb
    rw [h.answer b hb]
    exact hcall.did h.doings
  deals := fun r hr => (hcall.did h.doings).deals (h.resume r hr)
  offers := by
    intro s r hnext
    refine .inr ⟨?_, Resume.isOffered_of_isDealt (h.resume r (by simp [hnext, Next.resume?]))⟩
    have hsent := h.doings (.sent s) (by simp [Turn.doings, hnext, Next.doings])
    cases s with
    | offer x => cases hsent
    | _ => rfl
  asks := fun h' c r hnext =>
    Resume.isOffered_of_isDealt (h.resume r (by simp [hnext, Next.resume?]))

end Barren

/-- An act before the turn. -/
theorem Trades.after {act : Act α ε} (h : turn.Trades (call.did [.act act]) verdicts) :
    (turn.after act).Trades call verdicts where
  returns := by
    intro b hb
    have hreturns := h.returns b hb
    rwa [OpenCall.did_did] at hreturns
  deals := by
    intro r hr
    have hdeals := h.deals r hr
    rwa [OpenCall.did_did] at hdeals
  offers := h.offers
  asks := h.asks

end Turn

variable {t : Tap σ}

/-! ## Turns that move nothing -/

theorem finish_barren : (t.finish : Turn σ α ε).Barren where
  doings := fun d hd => by cases hd
  answer := fun b hb => by cases hb; rfl
  resume := fun r hr => by cases hr

theorem down_barren {s : Signal α (TapError ε)} {r : Resume α ε}
    (hs : (.sent s : Doing α ε).carries = false) (hr : r.isDealt = true) :
    (t.down s r).Barren where
  doings := by simpa [down, Turn.doings, Next.doings] using hs
  answer := fun b hb => by cases hb
  resume := by simpa [down, Next.resume?] using hr

theorem up_barren {h : Handle} {c : Control} {r : Resume α ε} (hr : r.isDealt = true) :
    (⟨[], t, .up h c r⟩ : Turn σ α ε).Barren where
  doings := by simp [Turn.doings, Next.doings, Doing.carries, Doing.isItem, Doing.payload?]
  answer := fun b hb => by cases hb
  resume := by simpa [Next.resume?] using hr

theorem terminate_barren (f : Fault) : (t.terminate (.listener f) : Turn σ α ε).Barren := by
  unfold terminate
  split
  · exact down_barren rfl rfl
  · exact finish_barren.after rfl

theorem cancelSource_barren {r : Resume α ε} {goOn : Turn σ α ε} (hr : r.isDealt = true)
    (hgoOn : goOn.Barren) : (t.cancelSource r goOn).Barren := by
  unfold cancelSource
  split
  · exact up_barren hr
  · exact hgoOn

variable (L : Listener σ α ε) {Ls : Context → Listener σ α ε}

theorem runHook_barren {h : Hook α ε} {ok : Tap σ → Turn σ α ε}
    {failed : Tap σ → Fault → Turn σ α ε} (hok : ∀ u, (ok u).Barren)
    (hfailed : ∀ u f, (failed u f).Barren) : (t.runHook L h ok failed).Barren := by
  unfold runHook
  rcases L.run t.listener h with ⟨listener, _ | cause⟩
  · exact (hok _).after rfl
  · exact (hfailed _ _).after rfl

theorem dropFault_barren {f : Fault} {goOn : Tap σ → Turn σ α ε} (hgoOn : ∀ u, (goOn u).Barren) :
    (t.dropFault L f goOn).Barren := ((hgoOn _).after rfl).after rfl

theorem failed_barren (f : Fault) : (t.failed L f).Barren := (terminate_barren f).after rfl

theorem fail_barren (f : Fault) : (t.fail L f).Barren := cancelSource_barren rfl (failed_barren L f)

theorem runFinally_barren {ending : Ending} {ok : Tap σ → Turn σ α ε}
    {failed : Tap σ → Fault → Turn σ α ε} (hok : ∀ u, (ok u).Barren)
    (hfailed : ∀ u f, (failed u f).Barren) : (t.runFinally L ending ok failed).Barren := by
  unfold runFinally
  split
  · exact hok t
  · exact runHook_barren L hok hfailed

theorem wrapUp_barren {h : Hook α ε} {ending : Ending} : (t.wrapUp L h ending).Barren := by
  have hdropped : ∀ (u : Tap σ) f, (u.dropFault L f finish : Turn σ α ε).Barren :=
    fun u f => dropFault_barren L fun _ => finish_barren
  unfold wrapUp
  exact runHook_barren L (fun u => runFinally_barren L (fun _ => finish_barren) hdropped) hdropped

theorem consumed_barren (x : α) : (t.consumed L x).Barren :=
  runHook_barren L (fun _ => finish_barren) fun _ f => fail_barren L f

theorem released_barren : (t.released L).Barren :=
  runFinally_barren L (fun _ => finish_barren) fun _ f => fail_barren L f

theorem refused_barren (f : Fault) : (t.refused L f).Barren := by
  refine Turn.Barren.after ?_ rfl
  dsimp only
  split
  · exact down_barren rfl rfl
  · exact finish_barren

theorem onSubscribe_barren (self h : Handle) : (t.onSubscribe L self h).Barren := by
  unfold onSubscribe
  split
  · exact up_barren rfl
  · refine runHook_barren L (fun u => ?_) fun _ f => up_barren rfl
    split
    · exact down_barren rfl rfl
    · exact finish_barren

theorem onComplete_barren : (t.onComplete L).Barren := by
  unfold onComplete
  split
  · exact runHook_barren L (fun _ => finish_barren)
      fun _ _ => dropFault_barren L fun _ => finish_barren
  · refine runHook_barren L (fun u => ?_) fun _ f => fail_barren L f
    dsimp only
    split
    · exact down_barren rfl rfl
    · exact wrapUp_barren L

theorem onRequest_barren (n : UInt64) : (t.onRequest L n).Barren := by
  unfold onRequest
  split
  · refine runHook_barren L (fun u => ?_) fun _ f => fail_barren L f
    split
    · exact up_barren rfl
    · exact finish_barren
  · exact finish_barren.after rfl

theorem onCancel_barren : (t.onCancel L).Barren :=
  runHook_barren L (fun _ => cancelSource_barren rfl (released_barren L))
    fun _ f => failed_barren L f

/-! ## Turns that move something -/

section

variable {call : OpenCall α ε} {verdicts : List Bool}

/-- The tap sends the receiver a signal that is no offer. -/
theorem down_trades {s : Signal α (TapError ε)} {r : Resume α ε} (hs : s.isOffer = false)
    (hr : r.isOffered = false) (hdeals : (call.did [.sent s]).Deals verdicts r) :
    (t.down s r).Trades call verdicts where
  returns := fun b hb => by cases hb
  deals := by
    intro r' hr'
    obtain rfl : r' = r := by simpa [down, Next.resume?] using hr'.symm
    exact hdeals
  offers := by
    intro s' r' hnext
    cases hnext
    exact .inr ⟨hs, hr⟩
  asks := fun h c r' hnext => by cases hnext

/-- After a hook, which the call may account for. -/
theorem runHook_trades {h : Hook α ε} {ok : Tap σ → Turn σ α ε}
    {failed : Tap σ → Fault → Turn σ α ε}
    (hok : ∀ listener,
      (ok { t with listener := listener }).Trades (call.did [.act (.ran h none)]) verdicts)
    (hfailed : ∀ listener cause,
      (failed { t with listener := listener } (h.fault cause)).Trades
        (call.did [.act (.ran h (some cause))]) verdicts) :
    (t.runHook L h ok failed).Trades call verdicts := by
  unfold runHook
  rcases L.run t.listener h with ⟨listener, _ | cause⟩
  · exact (hok listener).after
  · exact (hfailed listener cause).after

/-- The last act of a call accounts for it. -/
theorem act_trades {act : Act α ε} (hcall : (call.did [.act act]).Accounts verdicts true) :
    ((t.finish : Turn σ α ε).after act).Trades call verdicts :=
  (finish_barren.trades hcall).after

/-- After other acts an item is dropped. -/
theorem accounts_droppedItem {input : Input α ε} {x : α} (acts : List (Doing α ε))
    (hinput : input = .signal (.next x) ∨ input = .signal (.offer x))
    (hacts : ∀ d ∈ acts, d.carries = false) :
    (OpenCall.did ⟨input, []⟩ (acts ++ [.act (.droppedItem x)])).Accounts verdicts true := by
  rw [← OpenCall.did_did]
  have hitems := OpenCall.items_did_of_carries ⟨input, []⟩ hacts
  have hpayloads := OpenCall.payloads_did_of_carries ⟨input, []⟩ hacts
  unfold OpenCall.Accounts
  rw [OpenCall.items_did, OpenCall.payloads_did, hitems, hpayloads]
  rcases hinput with rfl | rfl
  · exact ⟨rfl, .inr (.inl rfl)⟩
  · exact ⟨rfl, .inr (.inr ⟨rfl, rfl⟩)⟩

theorem malformedNext_trades {input : Input α ε} {x : α}
    (hinput : input = .signal (.next x) ∨ input = .signal (.offer x)) :
    (t.malformedNext L x).Trades ⟨input, []⟩ verdicts := by
  refine runHook_trades L (fun listener => act_trades ?_)
    fun listener cause => (act_trades ?_).after.after
  · rw [OpenCall.did_did]
    exact accounts_droppedItem [.act (.ran (.malformedNext x) none)] hinput
      (by simp [Doing.carries, Doing.isItem, Doing.payload?])
  · rw [OpenCall.did_did, OpenCall.did_did, OpenCall.did_did]
    exact accounts_droppedItem [.act (.ran (.malformedNext x) (some cause)),
      .act (.reported ((Hook.malformedNext x).fault cause)),
      .act (.droppedError (.fault ((Hook.malformedNext x).fault cause)))] hinput
      (by simp [Doing.carries, Doing.isItem, Doing.payload?])

theorem onNext_trades (x : α) : (t.onNext L x).Trades ⟨.signal (.next x), []⟩ verdicts := by
  unfold onNext
  split
  · exact malformedNext_trades L (.inl rfl)
  · refine runHook_trades L (fun listener => ?_) fun listener cause => ?_
    · split
      · exact down_trades rfl rfl ⟨rfl, .inl rfl⟩
      · exact act_trades ⟨rfl, .inr (.inl rfl)⟩
    · exact (fail_barren L _).trades ⟨rfl, .inr (.inr ⟨rfl, cause, List.mem_singleton.mpr rfl⟩)⟩

theorem onOffer_trades (conditional : Bool) (x : α) :
    (t.onOffer L conditional x).Trades ⟨.signal (.offer x), []⟩ [] := by
  unfold onOffer
  split
  · exact malformedNext_trades L (.inr rfl)
  · split
    · split
      · exact {
          returns := fun b hb => by cases hb
          deals := by
            intro r hr
            obtain rfl : r = .offered x := by simpa [down, Next.resume?] using hr.symm
            exact ⟨rfl, rfl, rfl⟩
          offers := by
            intro s r hnext
            cases hnext
            exact .inl ⟨x, rfl, rfl, rfl⟩
          asks := fun h c r hnext => by cases hnext }
      · exact down_trades rfl rfl ⟨rfl, rfl, rfl⟩
    · exact act_trades ⟨rfl, .inr (.inr ⟨rfl, rfl⟩)⟩

/-- What the tap does last in a call that brought an error accounts for the error. -/
theorem accounts_error {e : ε} {d : Doing α ε} (hinput : call.input = .signal (.error e))
    (hitems : call.items = []) (hpayloads : call.payloads = [])
    (hd : d = .sent (.error (.source e)) ∨ (∃ f, d = .sent (.error (.multiple f e))) ∨
      d = .act (.droppedError (.source e)) ∨
      ∃ f, d = .act (.droppedError (.tapped (.multiple f e)))) :
    (call.did [d]).Accounts verdicts true := by
  have hdid : (call.did [d]).input = .signal (.error e) := hinput
  unfold OpenCall.Accounts
  rw [hdid, OpenCall.items_did, OpenCall.payloads_did, hitems, hpayloads]
  rcases hd with rfl | ⟨f, rfl⟩ | rfl | ⟨f, rfl⟩
  · exact ⟨rfl, .inl rfl⟩
  · exact ⟨rfl, .inr (.inl ⟨f, rfl⟩)⟩
  · exact ⟨rfl, .inr (.inr (.inl rfl))⟩
  · exact ⟨rfl, .inr (.inr (.inr ⟨f, rfl⟩))⟩

/-- The tap ends the stream with its own fault and the error that it was called with. -/
theorem spoiled_trades {f : Fault} {e : ε} (hcall : call.Deals verdicts (.spoiled f e)) :
    (t.spoiled L f e).Trades call verdicts := by
  obtain ⟨hinput, hitems, hpayloads⟩ := hcall
  have hreported : ∀ d ∈ ([.act (.reported f)] : List (Doing α ε)), d.carries = false := by
    simp [Doing.carries, Doing.isItem, Doing.payload?]
  have hlast : ∀ d : Doing α ε, d = .sent (.error (.multiple f e)) ∨
      d = .act (.droppedError (.tapped (.multiple f e))) →
      ((call.did [.act (.reported f)]).did [d]).Accounts verdicts true := by
    intro d hd
    apply accounts_error
    · exact hinput
    · exact (OpenCall.items_did_of_carries call hreported).trans hitems
    · exact (OpenCall.payloads_did_of_carries call hreported).trans hpayloads
    · exact .inr (hd.imp (fun h => ⟨f, h⟩) fun h => .inr ⟨f, h⟩)
  unfold spoiled report terminate
  refine Turn.Trades.after ?_
  dsimp only
  split
  · exact down_trades rfl rfl (hlast _ (.inl rfl))
  · exact act_trades (hlast _ (.inr rfl))

theorem onError_trades (e : ε) : (t.onError L e).Trades ⟨.signal (.error e), []⟩ verdicts := by
  unfold onError
  split
  · refine runHook_trades L (fun listener => act_trades ?_)
      fun listener cause => (act_trades ?_).after.after
    · exact accounts_error rfl rfl rfl (.inr (.inr (.inl rfl)))
    · exact accounts_error rfl rfl rfl (.inr (.inr (.inl rfl)))
  · refine runHook_trades L (fun listener => ?_) fun listener cause => ?_
    · dsimp only
      split
      · refine down_trades rfl rfl (OpenCall.Accounts.deals ?_ rfl)
        exact accounts_error rfl rfl rfl (.inl rfl)
      · refine ((wrapUp_barren L).trades ?_).after
        exact accounts_error rfl rfl rfl (.inr (.inr (.inl rfl)))
    · unfold cancelSource
      split
      · exact {
          returns := fun b hb => by cases hb
          deals := by
            intro r hr
            obtain rfl : r = .spoiled ((Hook.error e).fault cause) e := by
              simpa [Next.resume?] using hr.symm
            exact ⟨rfl, rfl, rfl⟩
          offers := fun s r hnext => by cases hnext
          asks := by
            intro h c r hnext
            cases hnext
            rfl }
      · exact spoiled_trades L ⟨rfl, rfl, rfl⟩

/-- A call to a tap. -/
theorem serve_trades (self : Handle) (conditional : Bool) (input : Input α ε) :
    (t.serve L self conditional input).Trades ⟨input, []⟩ [] := by
  rcases input with (h | x | x | e | _) | (n | _)
  · exact (onSubscribe_barren L self h).trades ⟨rfl, rfl⟩
  · exact onNext_trades L x
  · exact onOffer_trades L conditional x
  · exact onError_trades L e
  · exact (onComplete_barren L).trades ⟨rfl, rfl⟩
  · exact (onRequest_barren L n).trades ⟨rfl, rfl⟩
  · exact (onCancel_barren L).trades ⟨rfl, rfl⟩

/-- The return to a tap in an open call. If an item was offered, the answer is the verdict. -/
theorem resume_trades {r : Resume α ε} {b : Bool} (hcall : call.Deals verdicts r)
    (hverdict : r.isOffered = true → verdicts = [b]) :
    (t.resume L r b).Trades call verdicts := by
  cases r with
  | leave => exact finish_barren.trades hcall
  | ignored => exact (finish_barren.after rfl).trades hcall
  | refused f => exact (refused_barren L f).trades hcall
  | excused f => exact (down_barren rfl rfl).trades hcall
  | failed f => exact (failed_barren L f).trades hcall
  | spoiled f e => exact spoiled_trades L hcall
  | passedError e => exact (wrapUp_barren L).trades hcall
  | passedComplete => exact (wrapUp_barren L).trades hcall
  | released => exact (released_barren L).trades hcall
  | sent x =>
      obtain ⟨hinput, hitems, hpayloads⟩ := hcall
      refine (consumed_barren L x).trades ?_
      unfold OpenCall.Accounts
      rw [hinput]
      exact ⟨hpayloads, .inr (.inl ⟨hitems, rfl⟩)⟩
  | offered x =>
      obtain ⟨hinput, hitems, hpayloads⟩ := hcall
      have haccounts : call.Accounts verdicts b := by
        unfold OpenCall.Accounts
        rw [hinput]
        exact ⟨hpayloads, .inl ⟨hitems, hverdict rfl⟩⟩
      cases b with
      | true => exact (consumed_barren L x).trades haccounts
      | false => exact {
          returns := by
            intro b hb
            cases hb
            exact haccounts.did fun d hd => by cases hd
          deals := fun r hr => by cases hr
          offers := fun s r hnext => by cases hnext
          asks := fun h c r hnext => by cases hnext }

end

/-! ## Where an error comes from -/

namespace OpenCall

variable {call : OpenCall α ε} {verdicts : List Bool} {d : Doing α ε} {e : ε}

/-- Only a call that brought an error moves the error, and it moves no other. -/
theorem Accounts.input_of_payload {answer : Bool} (h : call.Accounts verdicts answer)
    (hd : d ∈ call.doings) (he : d.payload? = some e) : call.input = .signal (.error e) := by
  have hmem : d ∈ call.payloads := List.mem_filter.mpr ⟨hd, by simp [he]⟩
  unfold Accounts at h
  split at h
  · rw [h.1] at hmem
    cases hmem
  · rw [h.1] at hmem
    cases hmem
  next e' hinput =>
    obtain ⟨-, hpayloads | ⟨f, hpayloads⟩ | hpayloads | ⟨f, hpayloads⟩⟩ := h
    all_goals
      rw [hpayloads, List.mem_singleton] at hmem
      subst hmem
      cases he
      exact hinput
  · rw [h.2] at hmem
    cases hmem

theorem Deals.input_of_payload {r : Resume α ε} (h : call.Deals verdicts r)
    (hd : d ∈ call.doings) (he : d.payload? = some e) : call.input = .signal (.error e) := by
  have hmem : d ∈ call.payloads := List.mem_filter.mpr ⟨hd, by simp [he]⟩
  cases r with
  | offered x =>
      rw [h.2.2] at hmem
      cases hmem
  | sent x =>
      rw [h.2.2] at hmem
      cases hmem
  | spoiled f e' =>
      rw [h.2.2] at hmem
      cases hmem
  | _ => exact Accounts.input_of_payload h hd he

end OpenCall

/-- A turn passes on no error but that which its call brought. -/
theorem Turn.Trades.input_of_error {turn : Turn σ α ε} {call : OpenCall α ε} {verdicts : List Bool}
    (h : turn.Trades call verdicts) {err : TapError ε} {e : ε}
    (hsent : .sent (.error err) ∈ turn.deeds) (he : err.source? = some e) :
    call.input = .signal (.error e) := by
  have hnext : ∃ r, turn.next = .down (.error err) r := by
    rcases List.mem_append.mp hsent with hact | hnext
    · obtain ⟨act, -, heq⟩ := List.mem_map.mp hact
      cases heq
    · cases hturn : turn.next <;> simp [hturn, Next.deeds] at hnext
      exact ⟨_, by rw [hnext]⟩
  obtain ⟨r, hnext⟩ := hnext
  refine (h.deals r (by simp [hnext, Next.resume?])).input_of_payload
    (d := .sent (.error err)) ?_ he
  exact List.mem_append_right _ (by simp [Turn.doings, hnext, Next.doings])

/-- Some call fits a tap that will resume at this point, and it brought an error only if the point
says so. -/
theorem Resume.fitting (r : Resume α ε) (b : Bool) :
    ∃ (call : OpenCall α ε) (verdicts : List Bool), call.Deals verdicts r ∧
      (r.isOffered = true → verdicts = [b]) ∧
      ∀ e, call.input = .signal (.error e) → ∃ f, r = .spoiled f e := by
  cases r with
  | offered x =>
      exact ⟨⟨.signal (.offer x), [.sent (.offer x)]⟩, [b], ⟨rfl, rfl, rfl⟩, fun _ => rfl, nofun⟩
  | sent x =>
      exact ⟨⟨.signal (.offer x), [.sent (.next x)]⟩, [], ⟨rfl, rfl, rfl⟩, nofun, nofun⟩
  | spoiled f e =>
      refine ⟨⟨.signal (.error e), []⟩, [], ⟨rfl, rfl, rfl⟩, nofun, fun e' he => ?_⟩
      cases he
      exact ⟨f, rfl⟩
  | _ => exact ⟨⟨.control .cancel, []⟩, [], ⟨rfl, rfl⟩, nofun, nofun⟩

namespace Life

/-- The errors that a tap has passed on, or will, are errors that it has received. -/
structure Honest (l : Life σ α ε) : Prop where
  sent : ∀ err e, .sent (.error err) ∈ l.deeds → err.source? = some e →
    .received (.signal (.error e)) ∈ l.deeds
  spoiled : ∀ f e, .spoiled f e ∈ l.pending → .received (.signal (.error e)) ∈ l.deeds

variable {t : Tap σ} {pending : List (Resume α ε)} {deeds : List (Deed α ε)}

theorem Honest.take {turn : Turn σ α ε} {call : OpenCall α ε} {verdicts : List Bool}
    (h : Honest ⟨t, pending, deeds⟩) (hturn : turn.Trades call verdicts)
    (hcall : ∀ e, call.input = .signal (.error e) → .received (.signal (.error e)) ∈ deeds) :
    (Life.take ⟨t, pending, deeds⟩ turn).Honest where
  sent := by
    intro err e hsent he
    refine List.mem_append_left _ ?_
    rcases List.mem_append.mp hsent with hold | hnew
    · exact h.sent err e hold he
    · exact hcall e (hturn.input_of_error hnew he)
  spoiled := by
    intro f e hpending
    refine List.mem_append_left _ ?_
    rcases List.mem_append.mp hpending with hnew | hold
    · have hdeals := hturn.deals _ (Option.mem_toList.mp hnew)
      exact hcall e hdeals.1
    · exact h.spoiled f e hold

/-- What a tap passes on came from its source. -/
theorem Lived.honest {self : Handle} {conditional : Bool} {manners : Manners σ α ε}
    {l : Life σ α ε} (hl : Lived Ls self conditional manners l) : l.Honest := by
  refine hl.invariant ?_ ?_
  · rintro first ⟨-, hpending, hdeeds | hdeeds⟩ <;>
      exact ⟨by simp [hdeeds], by simp [hpending]⟩
  · intro now next hnow hstep
    cases hstep with
    | @serve t pending deeds input ambient hmanners =>
        have hreceived : Honest ⟨t, pending, deeds ++ [.received input]⟩ := by
          refine ⟨fun err e hsent he => ?_, fun f e hr => ?_⟩
          · rw [List.mem_append, List.mem_singleton] at hsent
            refine List.mem_append_left _ (hnow.sent err e (hsent.resolve_right ?_) he)
            simp
          · exact List.mem_append_left _ (hnow.spoiled f e hr)
        refine hreceived.take (serve_trades (Ls ambient) self conditional input) fun e he => ?_
        have hinput : input = .signal (.error e) := he
        simp [hinput]
    | @resume t r pending deeds ambient b =>
        have hrest : Honest ⟨t, pending, deeds⟩ :=
          ⟨hnow.sent, fun f e hr => hnow.spoiled f e (List.mem_cons_of_mem _ hr)⟩
        obtain ⟨call, verdicts, hdeals, hverdict, hinput⟩ := Resume.fitting r b
        refine hrest.take (resume_trades (Ls ambient) hdeals hverdict) fun e he => ?_
        obtain ⟨f, rfl⟩ := hinput e he
        exact hnow.spoiled f e List.mem_cons_self

end Life

/-! ## How long a call takes -/

/-- After the turn the tap calls a neighbour fewer than `n` times more, if it calls one now. -/
def Turn.Short (n : Nat) (turn : Turn σ α ε) : Prop := ∀ r ∈ turn.next.resume?, r.rank < n

theorem Turn.Short.of_answer {turn : Turn σ α ε} {b : Bool} (n : Nat) (h : turn.next = .answer b) :
    turn.Short n := by simp [Turn.Short, h, Next.resume?]

theorem Turn.Short.of_resume {turn : Turn σ α ε} {r : Resume α ε} {n : Nat}
    (h : turn.next.resume? = some r) (hr : r.rank < n) : turn.Short n := by
  simpa [Turn.Short, h] using hr

theorem runHook_short {h : Hook α ε} {ok : Tap σ → Turn σ α ε}
    {failed : Tap σ → Fault → Turn σ α ε} {n : Nat} (hok : ∀ u, (ok u).Short n)
    (hfailed : ∀ u f, (failed u f).Short n) : (t.runHook L h ok failed).Short n := by
  unfold runHook
  rcases L.run t.listener h with ⟨listener, _ | cause⟩
  · exact hok _
  · exact hfailed _ _

theorem runFinally_short {ending : Ending} {ok : Tap σ → Turn σ α ε}
    {failed : Tap σ → Fault → Turn σ α ε} {n : Nat} (hok : ∀ u, (ok u).Short n)
    (hfailed : ∀ u f, (failed u f).Short n) : (t.runFinally L ending ok failed).Short n := by
  unfold runFinally
  split
  · exact hok t
  · exact runHook_short L hok hfailed

theorem cancelSource_short {r : Resume α ε} {goOn : Turn σ α ε} {n : Nat} (hr : r.rank < n)
    (hgoOn : goOn.Short n) : (t.cancelSource r goOn).Short n := by
  unfold cancelSource
  split
  · exact .of_resume rfl hr
  · exact hgoOn

theorem terminate_short {e : TapError ε} {n : Nat} (hn : 0 < n) :
    (t.terminate e : Turn σ α ε).Short n := by
  unfold terminate
  split
  · exact .of_resume rfl hn
  · exact .of_answer n rfl

theorem fail_short {f : Fault} {n : Nat} (hn : 1 < n) : (t.fail L f).Short n :=
  cancelSource_short hn (terminate_short (Nat.zero_lt_of_lt hn))

theorem wrapUp_short {h : Hook α ε} {ending : Ending} (n : Nat) :
    (t.wrapUp L h ending).Short n := by
  unfold wrapUp
  exact runHook_short L
    (fun u => runFinally_short L (fun _ => .of_answer n rfl) fun _ _ => .of_answer n rfl)
    fun _ _ => .of_answer n rfl

theorem released_short {n : Nat} (hn : 1 < n) : (t.released L).Short n :=
  runFinally_short L (fun _ => .of_answer n rfl) fun _ _ => fail_short L hn

/-- A call to a tap leads to three calls of neighbours at most. -/
theorem serve_short (self : Handle) (conditional : Bool) (input : Input α ε) :
    (t.serve L self conditional input).Short 3 := by
  have hmalformed : ∀ x : α, (t.malformedNext L x).Short 3 := fun x =>
    runHook_short L (fun _ => .of_answer 3 rfl) fun _ _ => .of_answer 3 rfl
  rcases input with (h | x | x | e | _) | (n | _)
  · simp only [serve, receive, onSubscribe]
    split
    · exact .of_resume rfl (by simp [Resume.rank])
    · refine runHook_short L (fun u => ?_) fun _ _ => .of_resume rfl (by simp [Resume.rank])
      split
      · exact .of_resume rfl (by simp [Resume.rank])
      · exact .of_answer 3 rfl
  · simp only [serve, receive, onNext]
    split
    · exact hmalformed x
    · refine runHook_short L (fun u => ?_) fun u f => fail_short L (by decide)
      split
      · exact .of_resume rfl (by simp [Resume.rank])
      · exact .of_answer 3 rfl
  · simp only [serve, receive, onOffer]
    split
    · exact hmalformed x
    · split
      · split <;> exact .of_resume rfl (by simp [Resume.rank])
      · exact .of_answer 3 rfl
  · simp only [serve, receive, onError]
    split
    · exact runHook_short L (fun _ => .of_answer 3 rfl) fun _ _ => .of_answer 3 rfl
    · refine runHook_short L (fun u => ?_) fun u f =>
        cancelSource_short (by simp [Resume.rank]) (terminate_short (by decide))
      split
      · exact .of_resume rfl (by simp [Resume.rank])
      · exact wrapUp_short L 3
  · simp only [serve, receive, onComplete]
    split
    · exact runHook_short L (fun _ => .of_answer 3 rfl) fun _ _ => .of_answer 3 rfl
    · refine runHook_short L (fun u => ?_) fun u f => fail_short L (by decide)
      split
      · exact .of_resume rfl (by simp [Resume.rank])
      · exact wrapUp_short L 3
  · simp only [serve, obey, onRequest]
    split
    · refine runHook_short L (fun u => ?_) fun u f => fail_short L (by decide)
      split
      · exact .of_resume rfl (by simp [Resume.rank])
      · exact .of_answer 3 rfl
    · exact .of_answer 3 rfl
  · exact runHook_short L
      (fun u => cancelSource_short (by simp [Resume.rank]) (released_short L (by decide)))
      fun u f => terminate_short (by decide)

/-- With every return the tap comes nearer to its answer. -/
theorem resume_short (r : Resume α ε) (b : Bool) : (t.resume L r b).Short r.rank := by
  have hconsumed : ∀ x : α, (t.consumed L x).Short 2 := fun x =>
    runHook_short L (fun _ => .of_answer 2 rfl) fun _ f => fail_short L (by decide)
  cases r with
  | leave => exact .of_answer 0 rfl
  | ignored => exact .of_answer 0 rfl
  | refused f =>
      simp only [resume, refused, report]
      split
      · exact .of_resume rfl (by simp [Resume.rank])
      · exact .of_answer 2 rfl
  | excused f => exact .of_resume rfl (by simp [Resume.rank])
  | failed f => exact terminate_short (by simp [Resume.rank])
  | spoiled f e => exact terminate_short (by simp [Resume.rank])
  | passedError e => exact wrapUp_short L 0
  | passedComplete => exact wrapUp_short L 0
  | released => exact released_short L (by simp [Resume.rank])
  | sent x => exact hconsumed x
  | offered x =>
      cases b with
      | true => exact hconsumed x
      | false => exact .of_answer 2 rfl

end Tap

end Wiretap

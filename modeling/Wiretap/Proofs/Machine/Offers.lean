import Wiretap.Proofs.Machine.Callbacks
import Wiretap.Proofs.Machine.Dialogue
import Wiretap.Proofs.Machine.Feeding
import Wiretap.Proofs.Machine.Lives
import Wiretap.Proofs.Tap.Passing

/-!
# An item that is out

While the loop of an emission waits for an item, the item goes down the line, and what becomes of it
is told on the same way back. Whoever offers the item farther down has just been offered it. So if
the loop hears that its item was refused, the client has refused it: no tap refuses an item on its
own, and nobody else answers in the client's place.
-/

namespace Wiretap

variable {K : Kinds} {σ α ε : Type} {P : Plan σ α ε} {S U : State σ α ε} {line : Nat} {x : α}
  {m : UInt64} {q : α → Bool} {events : List (Event α ε)} {rest stack : List (Frame α ε)}

/-- The line that a frame works for. -/
def Frame.line? : Frame α ε → Option Nat
  | .tap line .. | .joining line .. | .refusing line .. | .ending line _ | .emitting line ..
  | .completing line => some line
  | .outside _ => none

/-- The item that a call offers, and on which line. -/
def Call.offer? : Call α ε → Option (Nat × α)
  | .tap line _ s => s.offered?.map (line, ·)
  | .client line s => s.offered?.map (line, ·)
  | _ => none

/-- The item that was offered to whoever waits in the frame, and on which line. -/
def Frame.offer? : Frame α ε → Option (Nat × α)
  | .tap line _ _ (.offered x) => some (line, x)
  | .outside (.client line s) => s.offered?.map (line, ·)
  | _ => none

/-- The line that the innermost frame works for. -/
def innermost (stack : List (Frame α ε)) : Option Nat := stack.head?.bind Frame.line?

/-- What is offered is offered from within the same line, and on `line` it is `x`. -/
def Offerable (line : Nat) (x : α) (stack : List (Frame α ε)) (offer : Option (Nat × α)) :
    Prop :=
  ∀ l y, offer = some (l, y) → innermost stack = some l ∧ (l = line → y = x)

/-- The loop of the emission of `line` waits for its item `x`, with the count `m`. Meanwhile nothing
else is offered on the line. -/
inductive Out (line : Nat) (x : α) (m : UInt64) : List (Frame α ε) → Prop
  | here {last : Bool} {lower : List (Frame α ε)} (hlower : Unrounded line lower) :
    Out line x m (.emitting line m last :: lower)
  | above {f : Frame α ε} {rest : List (Frame α ε)} (hrest : Out line x m rest)
    (hround : f.isRound line = false) (hoffer : Offerable line x rest f.offer?) :
    Out line x m (f :: rest)

/-- The item `x` is out on a line, and nothing else is about to be offered on the line. -/
structure State.OffersAlone (line : Nat) (x : α) (m : UInt64) (S : State σ α ε) : Prop where
  out : Out line x m S.stack
  called : ∀ c, S.focus = .call c → Offerable line x S.stack c.offer?

/-- An item is out on a line. If a refusal comes back on the line, then `q` rules the item out. -/
structure State.HasOut (q : α → Bool) (line : Nat) (x : α) (m : UInt64) (S : State σ α ε) : Prop
    extends S.OffersAlone line x m where
  returned : S.focus = .back false → innermost S.stack = some line → S.isConditional line = true →
    q x = false

theorem offerable_none : Offerable line x stack (none : Option (Nat × α)) := by
  intro l y h
  cases h

@[simp] theorem offer?_signal (position : Nat) (s : Signal α (TapError ε)) :
    (P.signal line position s).offer? = s.offered?.map (line, ·) := by
  unfold Plan.signal
  split <;> simp [Call.offer?]

@[simp] theorem offer?_sourceSignal (s : Signal α ε) :
    (P.sourceSignal line s).offer? = s.offered?.map (line, ·) := by
  unfold Plan.sourceSignal
  split <;> simp [Call.offer?]

theorem offerable_signal {l position : Nat} {s : Signal α (TapError ε)} (hs : s.item? = none) :
    Offerable line x stack (P.signal l position s).offer? := by
  rw [offer?_signal, Signal.offered?_of_item? hs]
  exact offerable_none

theorem offerable_sourceSignal {l : Nat} {s : Signal α ε} (hs : s.item? = none) :
    Offerable line x stack (P.sourceSignal l s).offer? := by
  rw [offer?_sourceSignal, Signal.offered?_of_item? hs]
  exact offerable_none

/-- Whatever is offered from within a line other than this one may be. -/
theorem offerable_other {l : Nat} {f : Frame α ε} (hf : f.line? = some l) (hother : l ≠ line)
    (offered : Option α) : Offerable line x (f :: rest) (offered.map (l, ·)) := by
  intro l' y h
  obtain ⟨y', -, heq⟩ := Option.map_eq_some_iff.mp h
  obtain ⟨rfl, rfl⟩ := Prod.mk.inj heq
  exact ⟨hf, fun heq => absurd heq hother⟩

namespace Out

theorem uncover {f : Frame α ε} (h : Out line x m (f :: rest)) (hround : f.isRound line = false) :
    Out line x m rest ∧ Offerable line x rest f.offer? := by
  cases h with
  | here => simp [Frame.isRound] at hround
  | above hrest _ hoffer => exact ⟨hrest, hoffer⟩

theorem at_round {n : UInt64} {last : Bool} (h : Out line x m (.emitting line n last :: rest)) :
    n = m ∧ Unrounded line rest := by
  cases h with
  | here hlower => exact ⟨rfl, hlower⟩
  | above _ hround => simp [Frame.isRound] at hround

end Out

/-- While the loop of another line goes on, the item stays out. -/
theorem Out.of_emitting {l : Nat} (h : Out line x m S.stack) (hemitting : S.Emitting l rest)
    (hother : l ≠ line) : Out line x m rest := by
  rcases hemitting with ⟨n, -, hstack⟩ | ⟨b, n, last, -, hstack⟩
  · exact hstack ▸ h
  · rw [hstack] at h
    exact (h.uncover (by simp [Frame.isRound, hother])).1

/-- Only an offer to a client can be refused outside. -/
theorem Callback.refused_of_answer {callback : Callback α ε} {b : Bool}
    (h : callback.answer b = false) :
    ∃ l y, callback = .client l (.offer y) ∧ b = false := by
  cases callback with
  | client l s =>
      cases s with
      | offer y => exact ⟨l, y, rfl, h⟩
      | _ => cases h
  | _ => cases h

namespace State

/-! ## Refusals -/

theorem settle_back {l place : Nat} {guard : Guard} {turn : Tap.Turn σ α ε} {b : Bool}
    (h : (settle P S l place guard turn).1.focus = .back b) :
    turn.next = .answer b ∧ (settle P S l place guard turn).1.stack = S.stack := by
  unfold settle at h ⊢
  cases hnext : turn.next with
  | answer b' =>
      rw [hnext] at h
      cases h
      exact ⟨rfl, rfl⟩
  | down s r =>
      rw [hnext] at h
      cases h
  | up handle c r =>
      rw [hnext] at h
      cases h

theorem callTap_ne_refused (l place : Nat) (input : Tap.Input α ε) :
    (callTap P S l place input).1.focus ≠ .back false := by
  intro h
  unfold callTap at h
  split at h
  next p t hplan htap =>
    obtain ⟨hanswer, -⟩ := settle_back h
    cases t.serve_passes (p.listener _) (.tap place) (S.isConditional l) input with
    | inert hinert => cases hinert.answer false hanswer
    | item _ hnext => rw [hnext] at hanswer; cases hanswer
    | offer _ hnext => rw [hnext] at hanswer; cases hanswer
    | request _ hnext => rw [hnext] at hanswer; cases hanswer
  next => cases h

theorem setUpTap_ne_refused (l place : Nat) (context : Context) :
    (setUpTap P S l place context).1.focus ≠ .back false := by
  unfold setUpTap
  split
  · simp [back]
  · dsimp only
    split
    · simp [refuse, callFrom]
    · split <;> simp [refuse, callFrom]

theorem joinSource_ne_refused (l : Nat) : (joinSource P S l).1.focus ≠ .back false := by
  unfold joinSource
  split
  · simp [endStream, callFrom]
  · simp [endStream, callFrom]
  · simp [callOutside]
  · split <;> simp [endStream, callFrom, call]

theorem controlEmission_ne_refused (l : Nat) (c : Control) :
    (controlEmission S l c).1.focus ≠ .back false := by
  unfold controlEmission
  split
  · split
    · dsimp only
      split <;> simp [call, back]
    · simp [back]
  · simp [back]
  · simp [back]

theorem completeEmission_ne_refused (l : Nat) (e : Emission α) :
    (completeEmission P S l e).focus ≠ .back false := by
  unfold completeEmission
  split <;> simp [callFrom, back]

theorem emit_ne_refused (l : Nat) (n : UInt64) : (emit P S l n).1.focus ≠ .back false := by
  unfold emit
  split
  · split
    · simp [back]
    · dsimp only
      split <;> simp [call, back]
    · split
      · exact completeEmission_ne_refused l _
      · simp [callFrom]
  · simp [back]

theorem resumeEmission_ne_refused (l : Nat) (n : UInt64) (last b : Bool) :
    (resumeEmission P S l n last b).focus ≠ .back false := by
  unfold resumeEmission
  dsimp only
  split
  · exact completeEmission_ne_refused l _
  · simp [back]
  · simp [call]

/-- A call does not come back refused at once. -/
theorem make_ne_refused (c : Call α ε) : (make P S c).1.focus ≠ .back false := by
  cases c with
  | join l position context =>
      cases position with
      | zero => exact joinSource_ne_refused l
      | succ place => exact setUpTap_ne_refused l place context
  | tap l place s => exact callTap_ne_refused l place _
  | client l s => simp [make, callOutside]
  | control l position h c =>
      cases h with
      | empty => simp [make, control, back]
      | emission => exact controlEmission_ne_refused l c
      | tap place => exact callTap_ne_refused l place _
      | external id => simp [make, control, callOutside]
  | emit l n => exact emit_ne_refused l n

theorem resumeTap_refused {l place : Nat} {guard : Guard} {r : Tap.Resume α ε} {b : Bool}
    (h : (resumeTap P S l place guard r b).1.focus = .back false) :
    ∃ y, r = .offered y ∧ b = false ∧ (resumeTap P S l place guard r b).1.stack = S.stack := by
  unfold resumeTap at h ⊢
  split at h
  next p t hplan htap =>
    obtain ⟨hanswer, hrest⟩ := settle_back h
    rcases t.resume_passes (p.listener _) r b with hinert | ⟨y, rfl, rfl, -⟩
    · cases hinert.answer false hanswer
    · exact ⟨y, rfl, rfl, hrest⟩
  next => cases h

theorem resume_refused {b : Bool} {f : Frame α ε} (h : (resume P S b f).1.focus = .back false) :
    ∃ l place guard y, b = false ∧ f = .tap l place guard (.offered y) ∧
      (resume P S b f).1.stack = S.stack := by
  cases f with
  | tap l place guard r =>
      obtain ⟨y, rfl, rfl, hrest⟩ := resumeTap_refused h
      exact ⟨l, place, guard, y, rfl, rfl, hrest⟩
  | emitting l n last => exact absurd h (resumeEmission_ne_refused l n last b)
  | _ => cases h

/-- A refusal comes back only from a tap that has heard the refusal of what it was offered. -/
theorem step?_refused (hstep : S.step? P = some (U, events)) (hback : U.focus = .back false) :
    ∃ l place guard y, S.focus = .back false ∧
      S.stack = .tap l place guard (.offered y) :: U.stack := by
  unfold step? at hstep
  split at hstep
  · cases hstep
  next call hfocus =>
    obtain ⟨rfl, -⟩ := Prod.mk.inj (Option.some.inj hstep)
    exact absurd hback (make_ne_refused call)
  next b hfocus =>
    split at hstep
    next hstack =>
      cases hstep
      cases hback
    next f rest hstack =>
      obtain ⟨rfl, -⟩ := Prod.mk.inj (Option.some.inj hstep)
      obtain ⟨l, place, guard, y, rfl, rfl, hrest⟩ := resume_refused hback
      exact ⟨l, place, guard, y, hfocus, hstack.trans (congrArg _ hrest.symm)⟩

/-- A source without items ends the stream without one. -/
theorem step?_ending {l : Nat} {e : Option ε} {b : Bool} (hstep : S.step? P = some (U, events))
    (hfocus : S.focus = .back b) (hstack : S.stack = .ending l e :: rest) :
    ∃ s : Signal α ε, U.focus = .call (P.sourceSignal l s) ∧ s.item? = none := by
  simp only [step?, hfocus, hstack, resume, Option.some.injEq, Prod.mk.injEq] at hstep
  obtain ⟨rfl, -⟩ := hstep
  refine ⟨_, rfl, ?_⟩
  cases e <;> rfl

/-! ## While the item is out -/

theorem isDriven_of_signal {l : Nat} {s : Signal α ε} (h : S.move? P (.signal l s) = some U) :
    P.isDriven = true := by
  unfold move? at h
  cases hfocus : S.focus with
  | outside b =>
      rw [hfocus] at h
      dsimp only at h
      split at h
      next hdriven => exact hdriven
      next => cases h
  | call c => simp [hfocus] at h
  | back b => simp [hfocus] at h

theorem offer?_tap {l place : Nat} {guard : Guard} {r : Tap.Resume α ε} {offer : Nat × α}
    (h : (.tap l place guard r : Frame α ε).offer? = some offer) :
    r = .offered offer.2 ∧ l = offer.1 := by
  cases r with
  | offered y =>
      cases h
      exact ⟨rfl, rfl⟩
  | _ => cases h

namespace OffersAlone

theorem of_call {c : Call α ε} (hout : Out line x m U.stack) (hnext : U.focus = .call c)
    (hc : Offerable line x U.stack c.offer?) : U.OffersAlone line x m where
  out := hout
  called := by
    intro c' hcall
    rw [hnext] at hcall
    cases hcall
    exact hc

theorem of_back {b : Bool} (hout : Out line x m U.stack) (hnext : U.focus = .back b) :
    U.OffersAlone line x m := ⟨hout, by simp [hnext]⟩

theorem of_outside {b : Bool} (hout : Out line x m U.stack) (hnext : U.focus = .outside b) :
    U.OffersAlone line x m := ⟨hout, by simp [hnext]⟩

theorem cover (h : S.OffersAlone line x m) {f : Frame α ε} (hstack : U.stack = f :: S.stack)
    (hround : f.isRound line = false) (hoffer : Offerable line x S.stack f.offer?) :
    Out line x m U.stack := hstack ▸ .above h.out hround hoffer

theorem uncover (h : S.OffersAlone line x m) {f : Frame α ε} (hstack : S.stack = f :: rest)
    (hround : f.isRound line = false) : Out line x m rest ∧ Offerable line x rest f.offer? := by
  have hout := h.out
  rw [hstack] at hout
  exact hout.uncover hround

/-- Whatever a turn offers may be offered, if that holds of what the tap was given. -/
theorem turned {l place : Nat} {turn : Tap.Turn σ α ε} {given : α → Prop}
    (hrest : Out line x m rest) (hturned : Turned P S rest l place turn U)
    (hoffers : turn.OffersOnly given)
    (hgiven : ∀ y, given y → innermost rest = some l ∧ (l = line → y = x)) :
    U.OffersAlone line x m := by
  have hnext := hturned.next
  cases hturn : turn.next with
  | answer b =>
      rw [hturn] at hnext
      exact .of_back (hnext.1 ▸ hrest) hnext.2
  | down s r =>
      rw [hturn] at hnext
      obtain ⟨⟨guard, hstack⟩, hfocus⟩ := hnext
      obtain ⟨hsent, hwaiting⟩ := hoffers.down s r hturn
      refine .of_call (hstack ▸ .above hrest rfl fun l' y hoffer => ?_) hfocus ?_
      · obtain ⟨hr, rfl⟩ := offer?_tap hoffer
        exact hgiven y (hwaiting y hr)
      · rw [hstack, offer?_signal]
        intro l' y hoffer
        obtain ⟨y', hy', heq⟩ := Option.map_eq_some_iff.mp hoffer
        cases heq
        exact ⟨rfl, (hgiven y (hsent y hy')).2⟩
  | up h c r =>
      rw [hturn] at hnext
      obtain ⟨⟨guard, hstack⟩, hfocus⟩ := hnext
      refine .of_call (hstack ▸ .above hrest rfl fun l' y hoffer => ?_) hfocus offerable_none
      exact absurd (offer?_tap hoffer).1 (hoffers.up h c r hturn y)

/-- What the loop of another line hands out is offered on that line. -/
theorem emit {l : Nat} {f : Frame α ε} {s : Signal α ε} (h : S.OffersAlone line x m)
    (hemitting : S.Emitting l rest) (hother : l ≠ line)
    (hframe : (∃ n last, f = .emitting l n last) ∨ f = .completing l)
    (hstack : U.stack = f :: rest) (hnext : U.focus = .call (P.sourceSignal l s)) :
    U.OffersAlone line x m := by
  have hf : f.line? = some l ∧ f.isRound line = false ∧ f.offer? = none := by
    rcases hframe with ⟨n, last, rfl⟩ | rfl
    · exact ⟨rfl, by simp [Frame.isRound, hother], rfl⟩
    · exact ⟨rfl, rfl, rfl⟩
  have hrest := h.out.of_emitting hemitting hother
  refine .of_call (hstack ▸ .above hrest hf.2.1 (hf.2.2 ▸ offerable_none)) hnext ?_
  rw [hstack, offer?_sourceSignal]
  exact offerable_other hf.1 hother _

/-- A step that does not concern the emission leaves its item out, and offers nothing else. -/
theorem aside (h : S.OffersAlone line x m) (hstep : S.step? P = some (U, events))
    (haside : ∀ rest, ¬S.Emitting line rest) : U.OffersAlone line x m := by
  have hother : ∀ {l : Nat} {rest : List (Frame α ε)}, S.Emitting l rest → l ≠ line := by
    rintro l rest hemitting rfl
    exact haside rest hemitting
  cases step?_stepped hstep with
  | @serve c l place input p t hfocus hinput hplan htap hturned =>
      refine .turned h.out hturned (Tap.serve_passes (p.listener _) _ _ input).offersOnly ?_
      rintro y rfl
      refine h.called c hfocus l y ?_
      rcases c with _ | _ | _ | ⟨_, _, _ | _ | _ | _, _⟩ | _ <;> cases hinput
      rfl
  | resume hfocus hstack hplan htap hturned =>
      exact .turned (h.uncover hstack rfl).1 hturned (Tap.resume_offersOnly _ _ _)
        fun _ hnone => hnone.elim
  | setUp hfocus hplan hlines hstack hnext =>
      exact .of_call (h.cover hstack rfl offerable_none) hnext offerable_none
  | refuse hfocus hplan hlines hstack hnext =>
      exact .of_call (h.cover hstack rfl offerable_none) hnext (offerable_signal rfl)
  | explain hfocus hstack hlines hrest hnext =>
      exact .of_call (hrest ▸ (h.uncover hstack rfl).1) hnext (offerable_signal rfl)
  | hear hfocus hlines hstack hnext =>
      exact .of_outside (h.cover hstack rfl (h.called _ hfocus)) hnext
  | callOut hfocus hcall hlines hstack hnext =>
      refine .of_outside (h.cover hstack rfl ?_) hnext
      rcases hcall with ⟨-, -, -, -, -, rfl⟩ | ⟨-, -, -, rfl⟩ <;> exact offerable_none
  | endStream hfocus hlines hstack hnext =>
      exact .of_call (h.cover hstack rfl offerable_none) hnext (offerable_sourceSignal rfl)
  | ended hfocus hstack hlines hrest hnext =>
      obtain ⟨s, hsent, hs⟩ := step?_ending hstep hfocus hstack
      exact .of_call (hrest ▸ (h.uncover hstack rfl).1) hsent (offerable_sourceSignal hs)
  | startEmission hfocus hlines hstack hnext =>
      exact .of_call (hstack ▸ h.out) hnext (offerable_sourceSignal rfl)
  | emit hemitting hlines hframe hstack hnext =>
      exact h.emit hemitting (hother hemitting) hframe hstack hnext
  | loop hemitting hlines hstack hnext =>
      refine .of_call (hstack ▸ ?_) hnext offerable_none
      rcases hemitting with hemitting | ⟨position, k, hfocus, hsame⟩
      · exact h.out.of_emitting hemitting (hother hemitting)
      · exact hsame ▸ h.out
  | idle hfocus hcall hclient hlines hstack hnext => exact .of_back (hstack ▸ h.out) hnext
  | @pop b b' f rest hfocus hstack hframe hlines hrest hnext =>
      refine .of_back (hrest ▸ (h.uncover hstack ?_).1) hnext
      cases f with
      | emitting l n last => simpa [Frame.isRound] using hother (.inr ⟨b, n, last, hfocus, hstack⟩)
      | _ => rfl
  | handOver hfocus hstack hlines hsame hnext => exact .of_outside (hsame ▸ h.out) hnext

end OffersAlone

namespace HasOut

/-- A step that does not concern the emission leaves its item out. -/
theorem aside (h : S.HasOut q line x m) (hstep : S.step? P = some (U, events))
    (haside : ∀ rest, ¬S.Emitting line rest) : U.HasOut q line x m where
  toOffersAlone := h.toOffersAlone.aside hstep haside
  returned := by
    intro hback hinner hconditional
    -- The refusal passes a tap, which has offered the item on the line of whoever is before it.
    obtain ⟨l, place, guard, y, hfocus, hstack⟩ := step?_refused hstep hback
    obtain ⟨hl, -⟩ := (h.uncover hstack rfl).2 l y rfl
    rw [hinner, Option.some.injEq] at hl
    subst hl
    rw [step_isConditional (step?_stepped hstep)] at hconditional
    exact h.returned hfocus (by rw [hstack]; rfl) hconditional

/-- The loop hands out an item. -/
theorem of_handOut {conditional last : Bool} (hlower : Unrounded line S.stack)
    (hstack : U.stack = .emitting line m last :: S.stack)
    (hnext : U.focus = .call (P.sourceSignal line (.handOut conditional x))) :
    U.HasOut q line x m where
  toOffersAlone := by
    refine .of_call (hstack ▸ .here hlower) hnext ?_
    rw [hstack, offer?_sourceSignal]
    intro l y hoffer
    obtain ⟨y', hy', heq⟩ := Option.map_eq_some_iff.mp hoffer
    cases heq
    refine ⟨rfl, fun _ => ?_⟩
    cases conditional <;> cases hy'
    rfl
  returned := by simp [hnext]

/-- The same calls wait, and nothing is offered or refused. -/
theorem keep (h : S.HasOut q line x m) (hstack : U.stack = S.stack)
    (hcalled : ∀ c, U.focus = .call c → c.offer? = none) (hback : U.focus ≠ .back false) :
    U.HasOut q line x m where
  out := hstack ▸ h.out
  called := by
    intro c hcall
    rw [hcalled c hcall]
    exact offerable_none
  returned := fun hfalse => absurd hfalse hback

/-- A client answers. If it is that of the line and conditional, its answer to an offer is what `q`
says. -/
theorem answer {b : Bool} (h : S.HasOut q line x m) (hmove : S.move? P (.answer b) = some U)
    (hjudges : S.isConditional line = true → ∀ y,
      S.callbacks.head? = some (.client line (.offer y)) → b = q y) : U.HasOut q line x m := by
  obtain ⟨-, callback, rest, hstack, rfl⟩ := move?_answer_eq_some hmove
  obtain ⟨hrest, hoffer⟩ := h.uncover hstack rfl
  refine ⟨.of_back hrest rfl, fun hback hinner hconditional => ?_⟩
  obtain ⟨l, y, rfl, rfl⟩ := Callback.refused_of_answer (Focus.back.inj hback)
  obtain ⟨hl, hy⟩ := hoffer l y rfl
  obtain rfl : l = line := Option.some.inj (hl.symm.trans hinner)
  rw [← hy rfl]
  exact (hjudges hconditional y (by simp [callbacks, hstack, Frame.callback?])).symm

/-- The item stays out whatever the outside does. -/
theorem move {mv : Move α ε} (h : S.HasOut q line x m) (hdriven : P.isDriven = false)
    (hmove : S.move? P mv = some U)
    (hjudges : S.isConditional line = true → ∀ b y, mv = .answer b →
      S.callbacks.head? = some (.client line (.offer y)) → b = q y) : U.HasOut q line x m := by
  cases State.move?_moved hmove with
  | answer =>
      exact h.answer hmove fun hconditional y hcallback => hjudges hconditional _ y rfl hcallback
  | signal => exact absurd (isDriven_of_signal hmove) (by simp [hdriven])
  | subscribe hturn hlines hstack hnext =>
      exact h.keep hstack (by simp [hnext, Call.offer?]) (by simp [hnext])
  | control hturn hreceived hlines hstack hnext =>
      exact h.keep hstack (by simp [hnext, Call.offer?]) (by simp [hnext])
  | direct hturn hlines hstack hnext =>
      exact h.keep hstack (by simp [hnext, Call.offer?]) (by simp [hnext])

end HasOut

end State

end Wiretap

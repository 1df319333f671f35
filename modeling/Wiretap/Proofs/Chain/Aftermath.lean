import Wiretap.Proofs.Machine.Calling
import Wiretap.Proofs.Machine.Follow
import Wiretap.Proofs.Tap.Aftermath
import Wiretap.Scenario.Kinds

/-!
# The aftermath of a subscription

Once the subscription of a tap has ended, whatever it was that ended it, the source may still go on.
All of that stays inside the tap: its hooks for malformed signals run and what comes is dropped, but
nobody around the tap is called, and neither the handle nor the receiver nor any flag changes.
-/

namespace Wiretap

section

variable {K : Kinds} {σ α ε : Type} {P : Plan σ α ε}

/-- Is it something that happens inside the tap at a place? Signals that it sends, the use of its
handle and calls of the outside are not. -/
def Event.isInside (line place : Nat) : Event α ε → Bool
  | .received l p _ | .acted l p _ _ | .returned l p _ | .entered l p _ | .left l p _ =>
    l = line ∧ p = place
  | _ => false

namespace State

variable {S U : State σ α ε} {line : Nat}

/-- A signal after the end reaches the first tap of a line. -/
theorem step?_malformed {p : TapPlan σ α ε} {t : Tap σ} {s : Signal α ε} {events : List (Event α ε)}
    (hplan : P.taps[0]? = some p) (htap : S.tap? line 0 = some t) (hdone : t.done = true)
    (hs : s.isSubscribe = false) (hfocus : S.focus = .call (P.sourceSignal line s))
    (hstep : S.step? P = some (U, events)) :
    ∃ listener failure, U.lines = (S.setTap line 0 { t with listener }).lines ∧
      U.stack = S.stack ∧ U.focus = .back true ∧
      deeds line 0 events = Tap.malformedCall s failure ∧
      ∀ e ∈ events, e.isInside line 0 = true := by
  have hdepth : 0 < P.depth := (List.getElem?_eq_some_iff.mp hplan).1
  obtain ⟨listener, failure, hserve⟩ := Tap.serve_malformed
    (p.listener (p.scope.install t.context S.ambient).1) (.tap 0) (S.isConditional line) hs hdone
  rw [step?, hfocus, Plan.sourceSignal, if_pos hdepth] at hstep
  simp only [make, callTap, hplan, htap, hserve, settle, Option.some.injEq] at hstep
  cases hstep
  refine ⟨listener, failure, rfl, rfl, rfl, ?_, ?_⟩
  · have hacts := (shows_acted line 0 (p.scope.install t.context S.ambient).1
      (Tap.malformedActs failure s)).here
    simp only [deeds_cons, deeds_append, hacts, setTap, modifyLine]
    simp [Event.deed?, Tap.malformedCall]
  · intro e he
    simp only [List.mem_cons, List.mem_append, List.mem_map, List.not_mem_nil, or_false] at he
    rcases he with rfl | rfl | ⟨act, -, rfl⟩ | rfl | rfl <;> simp [Event.isInside]

/-- With the signals `taken` nothing has happened but inside the first tap of a line, which has
changed nothing but its listener. -/
structure Absorbs (S : State σ α ε) (line : Nat) (t : Tap σ) (taken : List (Signal α ε))
    (events : List (Event α ε)) (U : State σ α ε) : Prop where
  calls : ∃ failures : List (Option Cause), failures.length = taken.length ∧
    deeds line 0 events = (taken.zip failures).flatMap fun c => Tap.malformedCall c.1 c.2
  inside : ∀ e ∈ events, e.isInside line 0 = true
  tap : ∃ listener, U.tap? line 0 = some { t with listener }
  others : ∀ l p, ¬(l = line ∧ p = 0) → U.tap? l p = S.tap? l p

namespace Absorbs

variable {t : Tap σ} {taken : List (Signal α ε)} {before events : List (Event α ε)}
  {T : State σ α ε}

theorem nothing (htap : S.tap? line 0 = some t) : S.Absorbs line t [] [] S where
  calls := ⟨[], rfl, rfl⟩
  inside := nofun
  tap := ⟨t.listener, htap⟩
  others _ _ _ := rfl

theorem keep (h : S.Absorbs line t taken before T) (hlines : U.lines = T.lines) :
    S.Absorbs line t taken before U where
  calls := h.calls
  inside := h.inside
  tap := by simpa only [tap?_eq hlines] using h.tap
  others := by simpa only [tap?_eq hlines] using h.others

/-- One more signal. -/
theorem call (h : S.Absorbs line t taken before T) {p : TapPlan σ α ε} {s : Signal α ε}
    (hplan : P.taps[0]? = some p) (hdone : t.done = true) (hs : s.isSubscribe = false)
    (hfocus : T.focus = .call (P.sourceSignal line s)) (hstep : T.step? P = some (U, events)) :
    S.Absorbs line t (taken ++ [s]) (before ++ events) U ∧
      U.stack = T.stack ∧ U.focus = .back true := by
  obtain ⟨failures, hlength, hcalls⟩ := h.calls
  obtain ⟨listener, htap⟩ := h.tap
  obtain ⟨listener', failure, hlines, hstack, hnext, hdeeds, hinside⟩ :=
    step?_malformed hplan htap hdone hs hfocus hstep
  refine ⟨?_, hstack, hnext⟩
  constructor
  · refine ⟨failures ++ [failure], by simp [hlength], ?_⟩
    rw [deeds_append, hcalls, hdeeds, List.zip_append hlength.symm]
    simp
  · intro e he
    exact (List.mem_append.mp he).elim (h.inside e) (hinside e)
  · exact ⟨listener', (tap?_eq hlines line 0).trans
      (setTap_tap?_self (hasPlace_of_tap? (by rw [htap]; rfl)) _)⟩
  · intro l q hother
    rw [tap?_eq hlines, setTap_tap?_other hother, h.others l q hother]

end Absorbs

end State

/-- The source, driven by hand, tells a line whose first tap is done. -/
def Move.IsMalformed (line : Nat) (m : Move α ε) : Prop :=
  ∃ s : Signal α ε, m = .signal line s ∧ s.isSubscribe = false

namespace Run

variable {S U : State σ α ε} {history tail : List (Entry α ε)} {line : Nat} {p : TapPlan σ α ε}
  {t : Tap σ}

/-- Between two signals nothing is going on, or the answer to the last one is passed on. -/
theorem absorbs (hrun : Run P S tail U) (hplan : P.taps[0]? = some p) (hidle : S.isIdle = true)
    (htap : S.tap? line 0 = some t) (hdone : t.done = true)
    (hmoves : ∀ m ∈ moves tail, m.IsMalformed line) :
    U.stack = [] ∧ ∃ taken, S.Absorbs line t taken (happened tail) U ∧
      (moves tail = taken.map (.signal line) ∧ (∀ c, U.focus ≠ .call c) ∨
        ∃ s : Signal α ε, s.isSubscribe = false ∧
          moves tail = (taken ++ [s]).map (.signal line) ∧
          U.focus = .call (P.sourceSignal line s)) := by
  induction hrun with
  | refl =>
      obtain ⟨hstack, b, hfocus⟩ := State.isIdle_iff.mp hidle
      exact ⟨hstack, [], .nothing htap, .inl ⟨rfl, by simp [hfocus]⟩⟩
  | @step tail T U events _ hstep ih =>
      rw [moves_append, moves_map_event, List.append_nil] at hmoves ⊢
      rw [happened_append, happened_map_event]
      obtain ⟨hstack, taken, habsorbs, ⟨htaken, hnone⟩ | ⟨s, hs, htaken, hfocus⟩⟩ := ih hmoves
      · -- The answer goes to the outside, since nobody else waits for it.
        unfold State.step? at hstep
        split at hstep
        · cases hstep
        next c hfocus => exact absurd hfocus (hnone c)
        next b hfocus =>
          rw [hstack] at hstep
          cases hstep
          refine ⟨rfl, taken, ?_, .inl ⟨htaken, by simp⟩⟩
          rw [List.append_nil]
          exact habsorbs.keep rfl
      · obtain ⟨habsorbs, hsame, hnext⟩ := habsorbs.call hplan hdone hs hfocus hstep
        exact ⟨hsame.trans hstack, taken ++ [s], habsorbs, .inl ⟨htaken, by simp [hnext]⟩⟩
  | @move tail T U m _ hmove ih =>
      rw [moves_append, moves_move] at hmoves ⊢
      rw [happened_append, happened_move, List.append_nil]
      obtain ⟨s, rfl, hs⟩ := hmoves m (by simp)
      obtain ⟨hstack, taken, habsorbs, hcases⟩ := ih fun m hm => hmoves m (by simp [hm])
      have hmoved := State.move?_moved hmove
      cases hmoved with
      | signal hturn hlines hsame hnext =>
          rcases hcases with ⟨htaken, -⟩ | ⟨s', -, -, hfocus⟩
          · exact ⟨hsame.trans hstack, taken, habsorbs.keep hlines,
              .inr ⟨s, hs, by simp [htaken], hnext⟩⟩
          · rw [hturn] at hfocus
            cases hfocus

/-- Signals that the source sends one after the other all come to their return. -/
theorem exists_absorbing (hplan : P.taps[0]? = some p) (hdriven : P.isDriven = true)
    (hidle : S.isIdle = true) (htap : S.tap? line 0 = some t) (hdone : t.done = true)
    (signals : List (Signal α ε)) (hsignals : ∀ s ∈ signals, s.isSubscribe = false) :
    ∃ tail U, Run P S tail U ∧ moves tail = signals.map (.signal line) ∧ U.isIdle = true := by
  induction signals generalizing S t with
  | nil => exact ⟨[], S, .refl, rfl, hidle⟩
  | cons s signals ih =>
      obtain ⟨hstack, b, hfocus⟩ := State.isIdle_iff.mp hidle
      have hs : s.isSubscribe = false := hsignals s (by simp)
      -- The signal is sent, the tap takes its turn, and the answer goes to the outside.
      have hmove : S.move? P (.signal line s) = some (S.call (P.sourceSignal line s)) := by
        simp [State.move?, hfocus, hdriven]
      obtain ⟨⟨T, events⟩, hstep⟩ : ∃ outcome, (S.call (P.sourceSignal line s)).step? P =
          some outcome := ⟨_, rfl⟩
      obtain ⟨habsorbs, hsame, hnext⟩ := (State.Absorbs.nothing (S :=
        S.call (P.sourceSignal line s)) htap).call hplan hdone hs rfl hstep
      have hback : T.step? P = some ({ T with focus := .outside true }, []) := by
        have hempty : T.stack = [] := hsame.trans hstack
        simp [State.step?, hnext, hempty]
      have hrun := ((Run.refl.move hmove).step hstep).step hback
      rw [List.map_nil, List.append_nil] at hrun
      obtain ⟨listener, htap'⟩ := habsorbs.tap
      obtain ⟨tail, U, hlater, hmoves, hidle'⟩ := ih (S := { T with focus := .outside true })
        (t := { t with listener }) (State.isIdle_iff.mpr ⟨hsame.trans hstack, true, rfl⟩) htap'
        hdone fun s' hs' => hsignals s' (by simp [hs'])
      refine ⟨_, U, hrun.trans hlater, ?_, hidle'⟩
      rw [moves_append, moves_append, moves_append, moves_map_event, hmoves]
      rfl

/-- Whatever a tap has been through: once it is done and no call is in progress, the source may send
it any signals but handles, and all of them come to their return. Every call runs the hook for this
signal, drops the fault of that hook, if it fails, drops what the signal carries and answers. Beyond
that nothing happens anywhere, and nothing changes but the state of the listener. -/
theorem malformed_contained (hplan : P.taps[0]? = some p) (hdriven : P.isDriven = true)
    (hidle : S.isIdle = true) (htap : S.tap? line 0 = some t) (hdone : t.done = true)
    (signals : List (Signal α ε)) (hsignals : ∀ s ∈ signals, s.isSubscribe = false) :
    (∃ tail U, Run P S tail U ∧ moves tail = signals.map (.signal line) ∧ U.isIdle = true) ∧
    ∀ tail U, Run P S tail U → moves tail = signals.map (.signal line) → U.isIdle = true →
      (∃ failures : List (Option Cause), failures.length = signals.length ∧
        deeds line 0 (happened tail) =
          (signals.zip failures).flatMap fun c => Tap.malformedCall c.1 c.2) ∧
      (∀ e ∈ happened tail, e.isInside line 0 = true) ∧
      (∃ listener, U.tap? line 0 = some { t with listener }) ∧
      ∀ l q, ¬(l = line ∧ q = 0) → U.tap? l q = S.tap? l q := by
  refine ⟨exists_absorbing hplan hdriven hidle htap hdone signals hsignals, ?_⟩
  intro tail U hrun hmoves hidle'
  have hmalformed : ∀ m ∈ moves tail, m.IsMalformed line := by
    intro m hm
    rw [hmoves] at hm
    obtain ⟨s, hs, rfl⟩ := List.mem_map.mp hm
    exact ⟨s, rfl, hsignals s hs⟩
  obtain ⟨-, taken, habsorbs, hcases⟩ := hrun.absorbs hplan hidle htap hdone hmalformed
  obtain ⟨-, b, hfocus⟩ := State.isIdle_iff.mp hidle'
  rcases hcases with ⟨htaken, -⟩ | ⟨s, -, -, hcall⟩
  · have hinjective : Function.Injective (Move.signal (α := α) (ε := ε) line) := by
      intro s s' heq
      cases heq
      rfl
    obtain rfl : signals = taken := hinjective.list_map (hmoves.symm.trans htaken)
    exact ⟨habsorbs.calls, habsorbs.inside, habsorbs.tap, habsorbs.others⟩
  · rw [hcall] at hfocus
    cases hfocus

end Run

end

open scoped Scenario

/-- After a completion come an item, an offer, an error and another completion, and the hook for
malformed items fails. -/
theorem Run.malformed_contained_brittle :
    let P := Plan.brittle [["do_on_malformed_on_next"]]
    ∃ history S, Play P (.startTap P .plain () .empty .empty) history S ∧ ∃ tail U,
      Run P S tail U ∧ moves tail = ([.next 1, .offer 2, .error 3, .complete].map (.signal 0)) ∧
      U.isIdle = true ∧ (∀ e ∈ happened tail, e.isInside 0 0 = true) ∧
      ∃ failures : List (Option Cause), failures.length = 4 ∧
        deeds 0 0 (happened tail) = ([.next 1, .offer 2, .error 3, .complete].zip failures).flatMap
          fun c => Tap.malformedCall c.1 c.2 := by
  let P := Plan.brittle [["do_on_malformed_on_next"]]
  obtain ⟨history, S, hplay, hidle, hdone⟩ := Play.of_follow (P := P)
    (S := .startTap P .plain () .empty .empty) 20
    [.signal 0 (.subscribe (.external 0)), .answer true, .signal 0 .complete, .answer true]
    (fun _ U => U.isIdle = true ∧ (U.tap? 0 0).any (·.done) = true) (by decide +kernel)
  obtain ⟨t, htap, hdone⟩ := (Option.any_eq_true _ _).mp hdone
  have hmalformed := malformed_contained (P := P) rfl rfl hidle htap hdone
    [.next 1, .offer 2, .error 3, .complete] (by decide)
  obtain ⟨⟨tail, U, hrun, hmoves, hidle'⟩, hevery⟩ := hmalformed
  obtain ⟨⟨failures, hlength, hdeeds⟩, hinside, -, -⟩ := hevery tail U hrun hmoves hidle'
  exact ⟨history, S, hplay, tail, U, hrun, hmoves, hidle', hinside, failures, hlength, hdeeds⟩

end Wiretap

import Wiretap.Proofs.Machine.Dialogue
import Wiretap.Proofs.Machine.Lives
import Wiretap.Proofs.Machine.Minutes

/-!
# Deliveries in progress

On a line with one tap the deliveries that have not returned are the callbacks of the client that
wait on the stack. The tap waits right behind a callback in which the client hears an ending, with
the hook after it still to come. So the minutes of any run are in order, and nothing is left open in
them once everything has returned.
-/

namespace Wiretap

variable {K : Kinds} {σ α ε : Type}

/-- Does a delivery to the client of a line wait here, or the tap before it for what comes after an
ending? -/
def Frame.delivers (line : Nat) : Frame α ε → Bool
  | .outside (.client l _) => decide (l = line)
  | .tap l p _ r => decide (l = line ∧ p = 0) && r.isPassed
  | _ => false

/-- The calls that wait, and the minutes that have been taken of them. -/
inductive Deliveries (line : Nat) : List (Frame α ε) → List (Note α ε) → Prop
  | nil {notes : List (Note α ε)} (hclosed : Closed notes) : Deliveries line [] notes
  /-- The client hears a signal that does not end the stream of the source. -/
  | client {s : Signal α (TapError ε)} {rest : List (Frame α ε)} {before during : List (Note α ε)}
    (hrest : Deliveries line rest before) (hduring : Closed during) :
    Deliveries line (.outside (.client line s) :: rest) (before ++ .heard s :: during)
  /-- The client hears an ending, and the tap will go on with the hook after it. -/
  | farewell {w : Farewell ε} {guard : Guard} {rest : List (Frame α ε)}
    {before during : List (Note α ε)} (hrest : Deliveries line rest before)
    (hduring : Closed during) :
    Deliveries line (.outside (.client line w.signal) :: .tap line 0 guard w.resume :: rest)
      (before ++ .did (.ran w.hook none) :: .heard w.signal :: during)
  /-- Something else waits. -/
  | other {f : Frame α ε} {rest : List (Frame α ε)} {notes : List (Note α ε)}
    (hf : f.delivers line = false) (hrest : Deliveries line rest notes) :
    Deliveries line (f :: rest) notes

namespace Deliveries

variable {line : Nat} {f : Frame α ε} {stack rest : List (Frame α ε)}
  {notes later : List (Note α ε)}

/-- What has returned does not matter. -/
theorem append (h : Deliveries line stack notes) (hlater : Closed later) :
    Deliveries line stack (notes ++ later) := by
  induction h with
  | nil hclosed => exact .nil (hclosed.append hlater)
  | client hrest hduring _ =>
      rw [List.append_assoc, List.cons_append]
      exact .client hrest (hduring.append hlater)
  | farewell hrest hduring _ =>
      rw [List.append_assoc, List.cons_append, List.cons_append]
      exact .farewell hrest (hduring.append hlater)
  | other hf _ ih => exact .other hf ih

theorem pop (h : Deliveries line (f :: rest) notes) (hf : f.delivers line = false) :
    Deliveries line rest notes := by
  cases h with
  | client => simp [Frame.delivers] at hf
  | farewell => simp [Frame.delivers] at hf
  | other _ hrest => exact hrest

end Deliveries

/-- Setting up a tap has nothing to do with an ending. -/
theorem Tap.SetUpFails.free {f : Fault} {shown : List (Tap.Deed α ε)}
    (h : Tap.SetUpFails f shown) : ∀ act ∈ shown.filterMap Tap.Deed.act?, act.isFree = true := by
  intro act hact
  cases h <;> simp only [List.filterMap_cons, Tap.Deed.act?, List.filterMap_nil, List.mem_cons,
    List.not_mem_nil, or_false] at hact
  · rcases hact with rfl | rfl <;> rfl
  · rcases hact with rfl | rfl | rfl <;> rfl

/-- A turn stops for an ending only when it has just announced and sent it. -/
theorem Tap.Turn.Orderly.passes {t : Tap σ} {turn : Tap.Turn σ α ε} {due : Option (Farewell ε)}
    (h : turn.Orderly t due) {r : Tap.Resume α ε} (hnext : turn.next.resume? = some r)
    (hr : r.isPassed = true) :
    ∃ w : Farewell ε, turn.next = .down w.signal w.resume ∧ turn.acts = [.ran w.hook none] := by
  have hnot : r.isPassed = false → ∃ w : Farewell ε, turn.next = .down w.signal w.resume ∧
      turn.acts = [.ran w.hook none] := by
    rw [hr]
    exact nofun
  cases h with
  | free h => exact hnot (h.resume r hnext)
  | announced _ _ hr' _ hdown =>
      rw [hdown] at hnext
      cases hnext
      exact hnot hr'
  | passed w _ hacts hdown => exact ⟨w, hdown, hacts⟩
  | dropped _ _ _ _ hanswer => simp [hanswer, Tap.Next.resume?] at hnext
  | spoiled _ _ _ hturn hfree =>
      rw [hturn] at hnext
      exact hnot (hfree.resume r hnext)
  | wrapped _ _ hanswer => simp [hanswer, Tap.Next.resume?] at hnext

namespace State

variable {P : Plan σ α ε} {S U : State σ α ε} {line : Nat} {notes : List (Note α ε)}
  {events : List (Event α ε)}

/-- Where the deliveries to the client of a line are at a moment. -/
inductive Conveys (S : State σ α ε) (line : Nat) (notes : List (Note α ε)) : Prop
  /-- No ending is on its way. -/
  | calm (h : Deliveries line S.stack notes)
  /-- An ending is on its way to the client. -/
  | leaving (w : Farewell ε) {guard : Guard} {rest : List (Frame α ε)} {before : List (Note α ε)}
    (hstack : S.stack = .tap line 0 guard w.resume :: rest)
    (hfocus : S.focus = .call (.client line w.signal))
    (hnotes : notes = before ++ [.did (.ran w.hook none)]) (hrest : Deliveries line rest before)
  /-- The client has returned from hearing an ending. -/
  | returned (w : Farewell ε) {guard : Guard} {rest : List (Frame α ε)} {b : Bool}
    {before during : List (Note α ε)} (hstack : S.stack = .tap line 0 guard w.resume :: rest)
    (hfocus : S.focus = .back b) (hnotes : notes =
      before ++ .did (.ran w.hook none) :: .heard w.signal :: (during ++ [.over w.signal]))
    (hrest : Deliveries line rest before) (hduring : Closed during)

namespace Conveys

variable {f : Frame α ε} {rest stack : List (Frame α ε)}

theorem of_outside {b : Bool} (h : S.Conveys line notes) (hfocus : S.focus = .outside b) :
    Deliveries line S.stack notes := by
  cases h with
  | calm h => exact h
  | leaving w hstack hfocus' => cases hfocus.symm.trans hfocus'
  | returned w hstack hfocus' => cases hfocus.symm.trans hfocus'

theorem of_call {c : Call α ε} (h : S.Conveys line notes) (hfocus : S.focus = .call c)
    (hc : ∀ s, c ≠ .client line s) : Deliveries line S.stack notes := by
  cases h with
  | calm h => exact h
  | leaving w hstack hfocus' =>
      cases hfocus.symm.trans hfocus'
      exact absurd rfl (hc w.signal)
  | returned w hstack hfocus' => cases hfocus.symm.trans hfocus'

theorem of_top (h : S.Conveys line notes) (hstack : S.stack = f :: rest)
    (hf : f.delivers line = false) : Deliveries line rest notes := by
  cases h with
  | calm h => exact (hstack ▸ h).pop hf
  | leaving w hstack' =>
      cases hstack.symm.trans hstack'
      simp [Frame.delivers] at hf
  | returned w hstack' =>
      cases hstack.symm.trans hstack'
      simp [Frame.delivers] at hf

/-- The tap of the line goes on. -/
theorem resume {b : Bool} {guard : Guard} {r : Tap.Resume α ε} (h : S.Conveys line notes)
    (hfocus : S.focus = .back b) (hstack : S.stack = .tap line 0 guard r :: rest) :
    Deliveries line rest notes ∧ ∀ w ∈ r.farewell?, w.Gone notes := by
  cases h with
  | calm h =>
      rw [hstack] at h
      cases h with
      | other hf hrest =>
          have hr : r.farewell? = none := by
            simpa [Frame.delivers, Tap.Resume.isPassed_eq] using hf
          exact ⟨hrest, by simp [hr]⟩
  | leaving w hstack' hfocus' => cases hfocus.symm.trans hfocus'
  | @returned w guard' rest' b' before during hstack' hfocus' hnotes hrest hduring =>
      cases hstack.symm.trans hstack'
      have hr : (w.resume : Tap.Resume α ε).farewell? = some w :=
        Tap.Resume.farewell?_eq_some.mpr rfl
      refine ⟨?_, fun w' hw' => ?_⟩
      · rw [hnotes]
        exact hrest.append (.did _ (.one _ hduring))
      · obtain rfl : w = w' := by simpa [hr] using hw'
        exact .inr ⟨before, during, hduring, hnotes⟩

theorem push (h : Deliveries line stack notes) (hstack : U.stack = f :: stack)
    (hf : f.delivers line = false) : U.Conveys line notes := .calm (hstack ▸ .other hf h)

theorem same (h : Deliveries line stack notes) (hstack : U.stack = stack) :
    U.Conveys line notes := .calm (hstack ▸ h)

/-- The tap of the line has taken a turn. -/
theorem turned (hdepth : P.depth = 1) {t : Tap σ} {turn : Tap.Turn σ α ε}
    {due : Option (Farewell ε)} (h : Deliveries line rest notes) (hturn : turn.Orderly t due)
    (hturned : Turned P S rest line 0 turn U) :
    U.Conveys line (notes ++ turn.acts.map .did) := by
  have hmore := h.append (Closed.acts turn.acts)
  have hnext := hturned.next
  rcases hturned.stack with ⟨-, hstack⟩ | ⟨guard, r, hresume, hstack⟩
  · exact same hmore hstack
  · cases hr : r.isPassed with
    | false => exact push hmore hstack (by simp [Frame.delivers, hr])
    | true =>
        obtain ⟨w, hdown, hacts⟩ := hturn.passes hresume hr
        rw [hdown] at hnext hresume
        cases hresume
        refine .leaving w hstack ?_ (by rw [hacts]; rfl) h
        rw [hnext.2, Plan.signal, if_neg (by omega)]

/-- A client hears a signal. -/
theorem hear {l : Nat} {s : Signal α (TapError ε)} (h : S.Conveys line notes)
    (hfocus : S.focus = .call (.client l s))
    (hstack : U.stack = .outside (.client l s) :: S.stack) :
    U.Conveys line (notes ++ if l = line then [.heard s] else []) := by
  by_cases hhere : l = line
  · subst hhere
    rw [if_pos rfl]
    cases h with
    | calm h => exact .calm (hstack ▸ .client h .nil)
    | leaving w hwaits hfocus' hnotes hrest =>
        cases hfocus.symm.trans hfocus'
        refine .calm ?_
        rw [hstack, hwaits, hnotes, List.append_assoc]
        exact .farewell hrest .nil
    | returned w hstack' hfocus' => cases hfocus.symm.trans hfocus'
  · rw [if_neg hhere, List.append_nil]
    refine push (h.of_call hfocus fun s' heq => ?_) hstack (by simp [Frame.delivers, hhere])
    cases heq
    exact hhere rfl

/-- A callback is over. -/
theorem answer {callback : Callback α ε} {b : Bool}
    (h : Deliveries line (.outside callback :: rest) notes) (hstack : U.stack = rest)
    (hfocus : U.focus = .back b) :
    U.Conveys line (notes ++ (callback.note? line).toList) := by
  cases h with
  | @client s rest before during hrest hduring =>
      refine same ?_ hstack
      simp only [Callback.note?, if_pos, Option.toList_some, List.append_assoc, List.cons_append]
      exact hrest.append (.one s hduring)
  | @farewell w guard rest before during hrest hduring =>
      refine .returned w hstack hfocus ?_ hrest hduring
      simp [Callback.note?]
  | other hf hrest =>
      have hnone : callback.note? line = none := by
        cases callback with
        | client l s => simpa [Frame.delivers, Callback.note?] using hf
        | _ => rfl
      rw [hnone, Option.toList_none, List.append_nil]
      exact same hrest hstack

theorem emitting {l : Nat} (h : S.Conveys line notes) (hemitting : S.Emitting l rest) :
    Deliveries line rest notes := by
  rcases hemitting with ⟨n, hfocus, rfl⟩ | ⟨b, n, last, hfocus, hstack⟩
  · exact h.of_call hfocus (by simp)
  · exact h.of_top hstack rfl

end Conveys

/-- What is known of the minutes of a line at a moment of a run. -/
structure Minuted (S : State σ α ε) (line : Nat) (notes : List (Note α ε)) : Prop where
  inOrder : InOrder notes
  /-- A hook for an ending only runs when the end has come. -/
  ended : ∀ n ∈ notes, n.isFarewell = true → ∃ t, S.tap? line 0 = some t ∧ t.done = true
  /-- The hooks after an ending that are still to come are those that the tap waits for. -/
  balance : notes.countP Note.isGranted =
    notes.countP Note.isAfter + (S.pending line 0).countP Tap.Resume.isPassed
  delivers : S.Conveys line notes
  /-- A signal that the client is about to hear has been announced. -/
  due : ∀ s, S.focus = .call (.client line s) → (Note.heard s).Follows notes

namespace Minuted

theorem countP_did (p : Note α ε → Bool) (q : Tap.Act α ε → Bool) (h : ∀ act, p (.did act) = q act)
    (acts : List (Tap.Act α ε)) : (acts.map .did).countP p = acts.countP q := by
  rw [List.countP_map]
  exact congrArg (List.countP · acts) (funext h)

/-- Nothing has happened to the tap of the line. -/
theorem rest (h : S.Minuted line notes) (htap : U.tap? line 0 = S.tap? line 0)
    (hpending : U.pending line 0 = S.pending line 0) (hdelivers : U.Conveys line notes)
    (hdue : ∀ s, U.focus = .call (.client line s) → s.announcement? = none) :
    U.Minuted line notes where
  inOrder := h.inOrder
  ended := htap ▸ h.ended
  balance := hpending ▸ h.balance
  delivers := hdelivers
  due := by
    intro s hfocus hook hs
    rw [hdue s hfocus] at hs
    cases hs

/-- Some free acts of a tap that is not there yet. -/
theorem setUp {acts : List (Tap.Act α ε)} (h : S.Minuted line notes)
    (hacts : ∀ act ∈ acts, act.isFree = true) (hvacant : S.tap? line 0 = none)
    (hpending : U.pending line 0 = S.pending line 0)
    (hdelivers : U.Conveys line (notes ++ acts.map .did))
    (hdue : ∀ s, U.focus = .call (.client line s) → s.announcement? = none) :
    U.Minuted line (notes ++ acts.map .did) where
  inOrder := h.inOrder.free hacts
  ended := by
    intro n hn hfarewell
    rcases List.mem_append.mp hn with hold | hnew
    · obtain ⟨t, htap, -⟩ := h.ended n hold hfarewell
      rw [hvacant] at htap
      cases htap
    · obtain ⟨act, hact, rfl⟩ := List.mem_map.mp hnew
      cases (Tap.Act.isFarewell_of_isFree (hacts act hact)).symm.trans hfarewell
  balance := by
    rw [List.countP_append, List.countP_append, countP_did _ Tap.Act.isGranted fun _ => rfl,
      countP_did _ Tap.Act.isAfter fun _ => rfl, Tap.countP_isGranted_free hacts,
      Tap.countP_isAfter_free hacts, hpending]
    exact h.balance
  delivers := hdelivers
  due := by
    intro s hfocus hook hs
    rw [hdue s hfocus] at hs
    cases hs

/-- The tap of the line has taken a turn. -/
theorem turned (hdepth : P.depth = 1) {t : Tap σ} {turn : Tap.Turn σ α ε}
    {due : Option (Farewell ε)} {stack : List (Frame α ε)} (h : S.Minuted line notes)
    (htap : S.tap? line 0 = some t) (hstack : Deliveries line stack notes)
    (hpending : (S.pending line 0).countP Tap.Resume.isPassed =
      (stack.filterMap (Frame.resume? line 0)).countP Tap.Resume.isPassed + due.isSome.toNat)
    (hturn : turn.Orderly t due) (hgone : ∀ w ∈ due, w.Gone notes)
    (hturned : Turned P S stack line 0 turn U) :
    U.Minuted line (notes ++ turn.acts.map .did) where
  inOrder := by
    refine h.inOrder.turn hturn (fun hopen n hn => ?_) hgone
    by_contra hfarewell
    obtain ⟨t', htap', hdone⟩ := h.ended n hn (by simpa using hfarewell)
    rw [htap] at htap'
    cases htap'
    rw [hopen] at hdone
    cases hdone
  ended := by
    have hnow : U.tap? line 0 = some turn.tap := by
      rw [tap?_eq hturned.lines]
      exact setTap_tap?_self (hasPlace_of_tap? (by rw [htap]; rfl)) turn.tap
    intro n hn hfarewell
    refine ⟨turn.tap, hnow, ?_⟩
    rcases List.mem_append.mp hn with hold | hnew
    · obtain ⟨t', htap', hdone⟩ := h.ended n hold hfarewell
      rw [htap] at htap'
      cases htap'
      exact hturn.done hdone
    · obtain ⟨act, hact, rfl⟩ := List.mem_map.mp hnew
      exact hturn.ended hact hfarewell
  balance := by
    have hold := h.balance
    have hnew := hturn.balance
    rw [List.countP_append, List.countP_append, countP_did _ Tap.Act.isGranted fun _ => rfl,
      countP_did _ Tap.Act.isAfter fun _ => rfl, turned_pending hturned, List.countP_append]
    omega
  delivers := .turned hdepth hstack hturn hturned
  due := by
    intro s hfocus hook hs
    rcases hnext : turn.next with b | ⟨s', r⟩ | ⟨handle, c, r⟩
    · have hU := hturned.next
      rw [hnext] at hU
      cases hU.2.symm.trans hfocus
    · have hU := hturned.next
      rw [hnext] at hU
      have hcall := hU.2.symm.trans hfocus
      rw [Plan.signal, if_neg (by omega)] at hcall
      cases hcall
      obtain ⟨before, hacts⟩ := hturn.announces hnext hs
      exact ⟨notes ++ before.map .did, by rw [hacts]; simp⟩
    · have hU := hturned.next
      rw [hnext] at hU
      cases hU.2.symm.trans hfocus

theorem pending_countP {guard : Guard} {r : Tap.Resume α ε} {rest : List (Frame α ε)}
    (hstack : S.stack = .tap line 0 guard r :: rest) :
    (S.pending line 0).countP Tap.Resume.isPassed =
      (rest.filterMap (Frame.resume? line 0)).countP Tap.Resume.isPassed +
        r.farewell?.isSome.toNat := by
  rw [pending, hstack, List.filterMap_cons_some (b := r) (by simp [Frame.resume?]),
    ← Tap.Resume.isPassed_eq]
  cases hr : r.isPassed <;> simp [hr]

/-- The tap of another line has taken a turn. -/
theorem turned_other (h : S.Minuted line notes) (hdepth : P.depth = 1) {l : Nat}
    {rest : List (Frame α ε)} {turn : Tap.Turn σ α ε} (hother : l ≠ line)
    (hrest : Deliveries line rest notes)
    (hpending : rest.filterMap (Frame.resume? line 0) = S.pending line 0)
    (hturned : Turned P S rest l 0 turn U) : U.Minuted line notes := by
  have hne : ¬(line = l ∧ 0 = 0) := fun heq => hother heq.1.symm
  refine h.rest ?_ ((turned_pending_other hne hturned).trans hpending) ?_ fun s hnow => ?_
  · rw [tap?_eq hturned.lines, setTap_tap?_other hne]
  · rcases hturned.stack with ⟨-, hstack⟩ | ⟨guard, r, -, hstack⟩
    · exact .same hrest hstack
    · exact .push hrest hstack (by simp [Frame.delivers, hother])
  · rcases hturned.focus with ⟨b, hnext⟩ | ⟨s', hnext⟩ | ⟨handle, c, hnext⟩
    · cases hnext.symm.trans hnow
    · rw [Plan.signal, if_neg (by omega)] at hnext
      cases hnext.symm.trans hnow
      exact absurd rfl hother
    · cases hnext.symm.trans hnow

/-- Nothing has happened to any tap, and no client hears a signal that has to be announced. -/
theorem quiet (h : S.Minuted line notes) (hlines : U.lines.map Line.bare = S.lines.map Line.bare)
    (hpending : U.pending line 0 = S.pending line 0) (hdelivers : U.Conveys line notes)
    (hdue : ∀ s, U.focus = .call (.client line s) → s.announcement? = none)
    (hquiet : Quiet events) : U.Minuted line (notes ++ events.filterMap (Event.note? line)) := by
  rw [notes_of_unheard (hquiet.heardBy line), hquiet.deeds line 0]
  simpa using h.rest (tap?_of_bare hlines line 0) hpending hdelivers hdue

/-- Something has happened to the tap of another line only. -/
theorem elsewhere {l p : Nat} {shown : List (Tap.Deed α ε)} (hshows : Shows l p shown events)
    (hother : ¬(line = l ∧ 0 = p)) (h : U.Minuted line notes) :
    U.Minuted line (notes ++ events.filterMap (Event.note? line)) := by
  rw [notes_of_unheard (hshows.clients line), hshows.elsewhere line 0 hother]
  simpa using h

/-- The client begins or stops to hear something. -/
theorem snoc {n : Note α ε} (h : S.Minuted line notes) (hn : ∀ act, n ≠ .did act)
    (hfollows : n.Follows notes) (htap : U.tap? line 0 = S.tap? line 0)
    (hpending : U.pending line 0 = S.pending line 0) (hdelivers : U.Conveys line (notes ++ [n]))
    (hcalls : ∀ s, U.focus ≠ .call (.client line s)) : U.Minuted line (notes ++ [n]) where
  inOrder := h.inOrder.snoc hfollows
  ended := by
    intro n' hn' hfarewell
    rw [htap]
    rcases List.mem_append.mp hn' with hold | hnew
    · exact h.ended n' hold hfarewell
    · rw [List.mem_singleton.mp hnew] at hfarewell
      cases n with
      | did act => exact absurd rfl (hn act)
      | _ => cases hfarewell
  balance := by
    rw [List.countP_append, List.countP_append, hpending]
    cases n with
    | did act => exact absurd rfl (hn act)
    | _ => exact h.balance
  delivers := hdelivers
  due s hfocus := absurd hfocus (hcalls s)

/-- A client hears a signal. -/
theorem hear {l : Nat} {s : Signal α (TapError ε)} (h : S.Minuted line notes)
    (hfocus : S.focus = .call (.client l s))
    (hlines : U.lines = S.lines.modify l (·.receive s))
    (hstack : U.stack = .outside (.client l s) :: S.stack) (hnext : U.focus = .outside true) :
    U.Minuted line (notes ++ if l = line then [.heard s] else []) := by
  have hpending : U.pending line 0 = S.pending line 0 := pending_cons hstack rfl
  have hdelivers := h.delivers.hear hfocus hstack
  by_cases hhere : l = line
  · subst hhere
    rw [if_pos rfl] at hdelivers ⊢
    exact h.snoc (by simp) (h.due s hfocus) (receive_tap? hlines l 0) hpending hdelivers
      (by simp [hnext])
  · rw [if_neg hhere, List.append_nil] at hdelivers ⊢
    exact h.rest (receive_tap? hlines line 0) hpending hdelivers (by simp [hnext])

/-- A step of the machine, in which the tap of the line is not called with an offer. -/
theorem step (hdepth : P.depth = 1) (hassembled : S.Assembled P) (h : S.Minuted line notes)
    (hstep : Stepped P S U events)
    (hplain : ∀ x, .received (.signal (.offer x)) ∉ deeds line 0 events) :
    U.Minuted line (notes ++ events.filterMap (Event.note? line)) := by
  -- From the source a signal goes to the tap, so the client does not hear it yet.
  have hsource : ∀ {l : Nat} {s : Signal α ε}, U.focus = .call (P.sourceSignal l s) →
      ∀ s', U.focus = .call (.client line s') → s'.announcement? = none := by
    intro l s hnext s' hfocus
    rw [Plan.sourceSignal, if_pos (by omega)] at hnext
    cases hnext.symm.trans hfocus
  have hplace : ∀ {place : Nat} {p : TapPlan σ α ε}, P.taps[place]? = some p → place = 0 := by
    intro place p hplan
    have hlt := (List.getElem?_eq_some_iff.mp hplan).1
    have hlength : P.taps.length = 1 := hdepth
    omega
  cases hstep with
  | @serve c l place input p t hfocus hinput hplan htap hturned hshows =>
      obtain rfl := hplace hplan
      have hstack : Deliveries line S.stack notes := by
        refine h.delivers.of_call hfocus fun s heq => ?_
        rw [heq] at hinput
        cases hinput
      by_cases hhere : l = line
      · subst hhere
        rw [notes_of_unheard (hshows.clients l), hshows.here, List.filterMap_cons,
          Tap.Turn.filterMap_act?]
        refine h.turned hdepth htap hstack (by simp [pending])
          (Tap.serve_orderly (p.listener _) 0 _ fun x heq => hplain x ?_) (by simp) hturned
        rw [hshows.here, heq]
        exact List.mem_cons_self
      · exact elsewhere hshows (fun heq => hhere heq.1.symm)
          (h.turned_other hdepth hhere hstack rfl hturned)
  | @resume b l place guard r rest p t hfocus hstack hplan htap hturned hshows =>
      obtain rfl := hplace hplan
      by_cases hhere : l = line
      · subst hhere
        obtain ⟨hrest, hgone⟩ := h.delivers.resume hfocus hstack
        rw [notes_of_unheard (hshows.clients l), hshows.here, Tap.Turn.filterMap_act?]
        exact h.turned hdepth htap hrest (pending_countP hstack)
          (Tap.resume_orderly (p.listener _) r b) hgone hturned
      · have hne : ¬(line = l ∧ 0 = 0) := fun heq => hhere heq.1.symm
        refine elsewhere hshows hne (h.turned_other hdepth hhere ?_ ?_ hturned)
        · exact h.delivers.of_top hstack (by simp [Frame.delivers, hhere])
        · exact (pending_cons hstack (resume?_other hne guard r)).symm
  | @setUp l place context p listener augmented guard hfocus hplan hlines hstack hnext hshows =>
      obtain rfl := hplace hplan
      have hbelow := h.delivers.of_call hfocus (by simp)
      have hpending : U.pending line 0 = S.pending line 0 := pending_cons hstack rfl
      have hdue : ∀ s, U.focus = .call (.client line s) → s.announcement? = none := by
        simp [hnext]
      by_cases hhere : l = line
      · subst hhere
        rw [notes_of_unheard (hshows.clients l), hshows.here]
        have hfree : ∀ act ∈ ([.ran .first none, .augmented none] : List (Tap.Act α ε)),
            act.isFree = true := by simp [Tap.Act.isFree, Hook.isClosing]
        exact h.setUp hfree ((hassembled.joining _ _ _ hfocus).before 0 Nat.zero_lt_one) hpending
          (.push (hbelow.append (.acts _)) hstack rfl) hdue
      · have hne : ¬(line = l ∧ 0 = 0) := fun heq => hhere heq.1.symm
        refine elsewhere hshows hne (h.rest ?_ hpending (.push hbelow hstack rfl) hdue)
        rw [tap?_eq hlines, setTap_tap?_other hne]
  | @refuse l place context p f shown hfocus hplan hlines hstack hnext hfails hshows =>
      obtain rfl := hplace hplan
      have hbelow := h.delivers.of_call hfocus (by simp)
      have hpending : U.pending line 0 = S.pending line 0 := pending_cons hstack rfl
      have hdue : ∀ s, U.focus = .call (.client line s) → s.announcement? = none := by
        intro s hnow
        rw [Plan.signal, if_neg (by omega)] at hnext
        cases hnext.symm.trans hnow
        rfl
      by_cases hhere : l = line
      · subst hhere
        rw [notes_of_unheard (hshows.clients l), hshows.here]
        refine h.setUp ?_ ((hassembled.joining _ _ _ hfocus).before 0 Nat.zero_lt_one) hpending
          (.push (hbelow.append (.acts _)) hstack rfl) hdue
        simpa [Tap.Deed.act?] using hfails.free
      · exact elsewhere hshows (fun heq => hhere heq.1.symm)
          (h.rest (tap?_eq hlines line 0) hpending (.push hbelow hstack rfl) hdue)
  | @hear l s hfocus hlines hstack hnext hevents' =>
      have hnotes : events.filterMap (Event.note? line) = if l = line then [.heard s] else [] := by
        rw [hevents']
        by_cases hhere : l = line <;> simp [Event.note?, hhere]
      rw [hnotes]
      exact h.hear hfocus hlines hstack hnext
  | @explain b l position f rest hfocus hstack hlines hrest hnext hquiet =>
      refine h.quiet (by rw [hlines]) ?_ (.same (h.delivers.of_top hstack rfl) hrest) ?_ hquiet
      · rw [pending, hrest, pending_cons hstack rfl]
      · intro s hnow
        obtain ⟨-, place, rfl, -⟩ := hassembled.refusing l position f (hstack ▸ List.mem_cons_self)
        rw [Plan.signal, if_neg (by omega)] at hnext
        cases hnext.symm.trans hnow
        rfl
  | @callOut c callback hfocus hcall hlines hstack hnext hquiet =>
      refine h.quiet (by rw [hlines]) (pending_cons hstack rfl) ?_ (by simp [hnext]) hquiet
      rcases hcall with ⟨l, position, id, control, rfl, rfl⟩ | ⟨l, context, rfl, rfl⟩
      · exact .push (h.delivers.of_call hfocus (by simp)) hstack rfl
      · exact .push (h.delivers.of_call hfocus (by simp)) hstack rfl
  | endStream hfocus hlines hstack hnext hquiet =>
      exact h.quiet (by rw [hlines]) (pending_cons hstack rfl)
        (.push (h.delivers.of_call hfocus (by simp)) hstack rfl) (hsource hnext) hquiet
  | ended hfocus hstack hlines hrest hnext hs hquiet =>
      refine h.quiet (by rw [hlines]) ?_ (.same (h.delivers.of_top hstack rfl) hrest)
        (hsource hnext) hquiet
      rw [pending, hrest, pending_cons hstack rfl]
  | startEmission hfocus hlines hstack hnext hquiet =>
      exact h.quiet hlines (pending_eq hstack line 0)
        (.same (h.delivers.of_call hfocus (by simp)) hstack) (hsource hnext) hquiet
  | @emit l rest f s hemitting hlines hframe hstack hnext hs hquiet =>
      have hf : f.resume? line 0 = none ∧ f.delivers line = false := by
        rcases hframe with ⟨n, last, rfl⟩ | rfl <;> exact ⟨rfl, rfl⟩
      exact h.quiet hlines ((pending_cons hstack hf.1).trans (emitting_pending hemitting))
        (.push (h.delivers.emitting hemitting) hstack hf.2) (hsource hnext) hquiet
  | @loop l rest n hemitting hlines hstack hnext hquiet =>
      have hrest : Deliveries line rest notes ∧
          rest.filterMap (Frame.resume? line 0) = S.pending line 0 := by
        rcases hemitting with hemitting | ⟨position, k, hfocus, rfl⟩
        · exact ⟨h.delivers.emitting hemitting, emitting_pending hemitting⟩
        · exact ⟨h.delivers.of_call hfocus (by simp), rfl⟩
      refine h.quiet hlines ?_ (.same hrest.1 hstack) (by simp [hnext]) hquiet
      rw [pending, hstack, hrest.2]
  | idle hfocus hcall hclient hlines hstack hnext hquiet =>
      exact h.quiet hlines (pending_eq hstack line 0)
        (.same (h.delivers.of_call hfocus fun s => hclient line s) hstack) (by simp [hnext]) hquiet
  | @pop b b' f rest hfocus hstack hframe hlines hrest hnext hquiet =>
      have hforeign := foreign_of_pop hassembled hstack hframe
      have hf : f.delivers line = false := by
        rcases hframe with hpassive | ⟨l, place, guard, r, rfl, -⟩
        · cases f <;> first | rfl | cases hpassive
        · cases hforeign
      refine h.quiet hlines ?_ (.same (h.delivers.of_top hstack hf) hrest) (by simp [hnext]) hquiet
      rw [pending, hrest, pending_cons hstack (resume?_foreign hforeign)]
  | handOver hfocus hstack hlines hsame hnext hquiet =>
      refine h.quiet (by rw [hlines]) (pending_eq hsame line 0) ?_ (by simp [hnext]) hquiet
      cases h.delivers with
      | calm hcalm => exact .same hcalm hsame
      | leaving w hwaits hfocus' => cases hfocus.symm.trans hfocus'
      | returned w hwaits =>
          rcases hstack with hnil | ⟨c, rest, hcons⟩
          · cases hwaits.symm.trans hnil
          · cases hwaits.symm.trans hcons

/-- A move of the outside. -/
theorem move (hdepth : P.depth = 1) (h : S.Minuted line notes) {m : Move α ε}
    (hmove : Moved P S U m) (hanswer : ∀ b, m ≠ .answer b) : U.Minuted line notes := by
  have hsame : ∀ {b : Bool}, S.focus = .outside b → U.stack = S.stack → U.Conveys line notes :=
    fun hturn hstack => .same (h.delivers.of_outside hturn) hstack
  cases hmove with
  | subscribe hturn hlines hstack hnext =>
      exact h.rest ((tap?_eq hlines line 0).trans (addLine_tap? _ line 0))
        (pending_eq hstack line 0) (hsame hturn hstack) (by simp [hnext])
  | signal hturn hlines hstack hnext =>
      refine h.rest (tap?_eq hlines line 0) (pending_eq hstack line 0) (hsame hturn hstack)
        fun s hnow => ?_
      rw [Plan.sourceSignal, if_pos (by omega)] at hnext
      cases hnext.symm.trans hnow
  | control hturn hreceived hlines hstack hnext =>
      exact h.rest (tap?_eq hlines line 0) (pending_eq hstack line 0) (hsame hturn hstack)
        (by simp [hnext])
  | direct hturn hlines hstack hnext =>
      exact h.rest (tap?_eq hlines line 0) (pending_eq hstack line 0) (hsame hturn hstack)
        (by simp [hnext])
  | answer => exact absurd rfl (hanswer _)

/-- A callback is over. -/
theorem answer {b : Bool} {callback : Callback α ε} {rest : List (Frame α ε)}
    (h : S.Minuted line notes) (hdeliveries : Deliveries line S.stack notes)
    (hstack : S.stack = .outside callback :: rest) :
    State.Minuted (({ S with stack := rest } : State σ α ε).back b) line
      (notes ++ (callback.note? line).toList) := by
  have hover : ∀ n ∈ callback.note? line, ∃ s, n = .over s := by
    intro n hn
    cases callback with
    | client l s =>
        obtain ⟨-, rfl⟩ : l = line ∧ Note.over s = n := by simpa [Callback.note?] using hn
        exact ⟨s, rfl⟩
    | _ => cases hn
  have hpending : State.pending (({ S with stack := rest } : State σ α ε).back b) line 0 =
      S.pending line 0 := by
    rw [pending, pending, hstack]
    rfl
  have hdelivers : State.Conveys (({ S with stack := rest } : State σ α ε).back b) line
      (notes ++ (callback.note? line).toList) := .answer (hstack ▸ hdeliveries) rfl rfl
  cases hnote : callback.note? line with
  | none =>
      rw [hnote, Option.toList_none, List.append_nil] at hdelivers
      rw [Option.toList_none, List.append_nil]
      exact h.rest rfl hpending hdelivers (by simp [back])
  | some n =>
      obtain ⟨s, rfl⟩ := hover n hnote
      rw [hnote] at hdelivers
      exact h.snoc (by simp) trivial rfl hpending hdelivers (by simp [back])

end Minuted

/-- The minutes of a line agree with the state. -/
structure Recorded (S : State σ α ε) (history : List (Entry α ε)) (line : Nat) : Prop where
  callbacks : (minutes line history).callbacks = S.callbacks
  minuted : S.Minuted line (minutes line history).notes

namespace Recorded

variable {history : List (Entry α ε)}

theorem start (P : Plan σ α ε) (ambient : Context) (line : Nat) :
    (State.start P ambient).Recorded [] line where
  callbacks := rfl
  minuted := {
    inOrder := .nil
    ended := nofun
    balance := rfl
    delivers := .calm (.nil .nil)
    due := by simp [State.start] }

theorem step (hdepth : P.depth = 1) (hassembled : S.Assembled P) (h : S.Recorded history line)
    (hstep : S.step? P = some (U, events))
    (hplain : ∀ x, .received (.signal (.offer x)) ∉ deeds line 0 events) :
    U.Recorded (history ++ events.map .event) line where
  callbacks := by
    rw [minutes_events, h.callbacks]
    rcases step?_rings hstep with ⟨hcalled, hcallbacks⟩ | ⟨c, hrings, -⟩
    · have hnone : called events = [] := hcalled
      have hsame : U.callbacks = S.callbacks := hcallbacks
      rw [hnone, hsame]
      rfl
    · have hone : called events = [(c, S.ambient)] := hrings.called
      have hstack : U.stack = .outside c :: S.stack := hrings.stack
      rw [hone, State.callbacks, State.callbacks, hstack]
      rfl
  minuted := by
    rw [minutes_events]
    exact h.minuted.step hdepth hassembled (step?_stepped hstep) hplain

theorem move (hdepth : P.depth = 1) (h : S.Recorded history line) {m : Move α ε}
    (hmove : S.move? P m = some U) : U.Recorded (history ++ [.move m]) line := by
  by_cases hm : ∃ b, m = .answer b
  · obtain ⟨b, rfl⟩ := hm
    obtain ⟨⟨b', hturn⟩, callback, rest, hstack, rfl⟩ := move?_answer_eq_some hmove
    have hpopped : S.callbacks = callback ::
        (({ S with stack := rest } : State σ α ε).back (callback.answer b)).callbacks := by
      rw [State.callbacks, hstack]
      rfl
    have hminuted := h.minuted.answer (b := callback.answer b)
      (h.minuted.delivers.of_outside hturn) hstack
    constructor
    · rw [minutes_append, List.foldl_cons, List.foldl_nil, Minutes.after, h.callbacks, hpopped]
      rfl
    · rwa [minutes_append, List.foldl_cons, List.foldl_nil, Minutes.after, h.callbacks, hpopped]
  · have hanswer : ∀ b, m ≠ .answer b := fun b heq => hm ⟨b, heq⟩
    have hsame : minutes line (history ++ [.move m]) = minutes line history := by
      rw [minutes_append, List.foldl_cons, List.foldl_nil]
      cases m with
      | answer b => exact absurd rfl (hanswer b)
      | _ => rfl
    have hmoved := move?_moved hmove
    have hcallbacks : U.callbacks = S.callbacks := by
      rw [State.callbacks, State.callbacks]
      cases hmoved with
      | answer => exact absurd rfl (hanswer _)
      | subscribe _ _ hstack => rw [hstack]
      | signal _ _ hstack => rw [hstack]
      | control _ _ _ hstack => rw [hstack]
      | direct _ _ hstack => rw [hstack]
    constructor
    · rw [hsame, hcallbacks, h.callbacks]
    · rw [hsame]
      exact h.minuted.move hdepth hmoved hanswer

theorem run (hdepth : P.depth = 1) (hassembled : S.Assembled P) (h : S.Recorded [] line)
    (hrun : Run P S history U)
    (hplain : ∀ x, .received (.signal (.offer x)) ∉ deeds line 0 (happened history)) :
    U.Recorded history line := by
  induction hrun with
  | refl => exact h
  | step hrun hstep ih =>
      simp only [happened_append, happened_map_event, deeds_append, List.mem_append, not_or]
        at hplain
      exact (ih fun x => (hplain x).1).step hdepth (hassembled.run hrun) hstep
        fun x => (hplain x).2
  | move hrun hmove ih =>
      simp only [happened_append, happened_move, List.append_nil] at hplain
      exact (ih hplain).move hdepth hmove

end Recorded

end State

end Wiretap

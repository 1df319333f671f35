import Wiretap.Proofs.Chain.Release
import Wiretap.Proofs.Machine.Rations
import Wiretap.Scenario.Kinds

/-!
# Backpressure survives faults

Whatever fails along a line of taps on a list, the client gets the items of the list in order, each
once, from the first one on without a gap, and it takes no more of them than it has asked for.
-/

namespace Wiretap

section

variable {K : Kinds} {σ α ε : Type} {P : Plan σ α ε} {S U : State σ α ε} {line place : Nat}
  {ambient : Context} {history : List (Entry α ε)} {events : List (Event α ε)} {p q : α → Bool}
  {all : List α}

/-! ## What the client says -/

/-- The number of items that the client of a line asks for in an entry. -/
def Entry.asked? (line : Nat) : Entry α ε → Option UInt64
  | .move m => m.asked? line
  | .event _ => none

/-- The numbers of items that the client of a line asks for. -/
def asked (line : Nat) (history : List (Entry α ε)) : List UInt64 :=
  history.filterMap (Entry.asked? line)

/-- The callbacks in progress after one more entry, the innermost one first. -/
def Entry.attend (callbacks : List (Callback α ε)) : Entry α ε → List (Callback α ε)
  | .event e => (e.called?.map Prod.fst).toList ++ callbacks
  | .move (.answer _) => callbacks.tail
  | .move _ => callbacks

/-- The callbacks in progress after a history. -/
def inProgress (history : List (Entry α ε)) : List (Callback α ε) :=
  history.foldl Entry.attend []

/-- If the client of a line answers an offer, does it take the item just if it satisfies `p`? -/
def Move.judges (line : Nat) (p : α → Bool) (callbacks : List (Callback α ε)) :
    Move α ε → Bool
  | .answer b =>
    match callbacks.head? with
    | some (.client l (.offer x)) => l != line || b == p x
    | _ => true
  | _ => true

/-- Does the client of a line take those of the items it is offered that satisfy `p`, and no others?
The history goes on from some callbacks in progress. -/
def selects (line : Nat) (p : α → Bool) :
    List (Callback α ε) → List (Entry α ε) → Bool
  | _, [] => true
  | callbacks, .event e :: later => selects line p (Entry.attend callbacks (.event e)) later
  | callbacks, .move m :: later =>
    m.judges line p callbacks && selects line p (Entry.attend callbacks (.move m)) later

/-- Those of some items that the client of a line takes, if it can refuse items and takes those that
satisfy `p`. -/
def State.selection (S : State σ α ε) (line : Nat) (p : α → Bool) (items : List α) : List α :=
  if S.isConditional line then items.filter p else items

/-- What a client takes is what satisfies some predicate, the one that it goes by if it can refuse
items. -/
theorem State.selection_eq (S : State σ α ε) (line : Nat) (p : α → Bool) :
    ∃ q, (∀ items, S.selection line p items = items.filter q) ∧
      (S.isConditional line = true → q = p) := by
  cases hconditional : S.isConditional line with
  | true => exact ⟨p, fun items => if_pos hconditional, fun _ => rfl⟩
  | false =>
      refine ⟨fun _ => true, fun items => ?_, fun h => by cases h⟩
      simp [selection, hconditional]

@[simp] theorem asked_append (first second : List (Entry α ε)) :
    asked line (first ++ second) = asked line first ++ asked line second :=
  List.filterMap_append

@[simp] theorem asked_events (events : List (Event α ε)) :
    asked line (events.map (.event : Event α ε → Entry α ε)) = [] := by
  simp [asked, Entry.asked?]

@[simp] theorem asked_move (m : Move α ε) :
    asked line [(.move m : Entry α ε)] = (m.asked? line).toList := by
  rw [asked, Tap.filterMap_cons_toList, List.filterMap_nil, List.append_nil]
  rfl

theorem selects_append (callbacks : List (Callback α ε)) (first second : List (Entry α ε)) :
    selects line p callbacks (first ++ second) =
      (selects line p callbacks first &&
        selects line p (first.foldl Entry.attend callbacks) second) := by
  induction first generalizing callbacks with
  | nil => rfl
  | cons entry first ih =>
      cases entry with
      | event e => exact ih _
      | move m =>
          rw [List.cons_append, selects, selects, ih, Bool.and_assoc]
          rfl

theorem attend_events (callbacks : List (Callback α ε)) (events : List (Event α ε)) :
    (events.map .event).foldl Entry.attend callbacks =
      ((called events).map Prod.fst).reverse ++ callbacks := by
  induction events generalizing callbacks with
  | nil => rfl
  | cons e events ih =>
      rw [List.map_cons, List.foldl_cons, ih, called_cons]
      cases hcalled : e.called? <;> simp [Entry.attend, hcalled]

/-- A history tells which callbacks are in progress. -/
theorem Play.attends (hplay : Play P S history U) :
    history.foldl Entry.attend S.callbacks = U.callbacks := by
  induction hplay with
  | refl => rfl
  | step hplay hstep ih =>
      rw [List.foldl_append, ih, attend_events]
      rcases State.step?_rings hstep with ⟨hcalled, hcallbacks⟩ | ⟨c, hrings, -⟩
      · dsimp only at hcalled hcallbacks
        rw [hcalled, hcallbacks]
        rfl
      · have hcalled := hrings.called
        have hstack := hrings.stack
        dsimp only at hcalled hstack
        simp [hcalled, State.callbacks, hstack, Frame.callback?]
  | @move history T U m hplay hallows hmove ih =>
      rw [List.foldl_append, ih]
      cases State.move?_moved hmove with
      | subscribe hturn hlines hstack => rw [State.callbacks, State.callbacks, hstack]; rfl
      | signal hturn hlines hstack => rw [State.callbacks, State.callbacks, hstack]; rfl
      | control hturn hreceived hlines hstack => rw [State.callbacks, State.callbacks, hstack]; rfl
      | direct hturn hlines hstack => rw [State.callbacks, State.callbacks, hstack]; rfl
      | answer hturn hstack hlines hrest =>
          rw [State.callbacks, State.callbacks, hstack, hrest]
          rfl

theorem Play.inProgress_eq (hplay : Play P (.start P ambient) history U) :
    inProgress history = U.callbacks := hplay.attends

theorem Move.eq_of_judges {callbacks : List (Callback α ε)} {b : Bool} {x : α}
    (h : (.answer b : Move α ε).judges line p callbacks = true)
    (hcallback : callbacks.head? = some (.client line (.offer x))) : b = p x := by
  simpa [Move.judges, hcallback] using h

/-! ## What comes down a line -/

theorem supplied_first (hpositive : 0 < P.depth) :
    supplied P line events = Signal.items (Tap.heard (deeds line 0 events)) := by
  rw [supplied, arrivals, if_pos hpositive, List.filterMap_map]
  rfl

theorem supplied_client (hnone : P.depth = 0) :
    supplied P line events = Signal.items (heardBy line events) := by
  rw [supplied, arrivals, if_neg (by omega), List.filterMap_map]
  rfl

namespace State.Civil

/-- The receiver of a tap is given the items that the tap hears, in order and without a gap, or none
if the tap could not be set up. -/
theorem items_given (h : S.Civil P events) (line place : Nat) :
    Signal.items (Tap.given (deeds line place events)) <+:
      Signal.items (Tap.heard (deeds line place events)) := by
  rcases h.peopled.fate line place with ⟨-, -, hdeeds⟩ | ⟨-, -, -, hfails, hdeeds⟩ |
    ⟨-, -, hlived⟩
  · exact hdeeds ▸ List.prefix_refl _
  · rw [hdeeds]
    cases hfails <;> exact List.nil_prefix
  · rw [hlived.given_eq]
    exact hlived.inOrder.isPrefix

/-- What a receiver is given goes back to what the line was supplied with. -/
theorem items_supplied (h : S.Civil P events) (hplace : place < P.depth) :
    Signal.items (Tap.given (deeds line place events)) <+: supplied P line events := by
  induction place with
  | zero =>
      rw [supplied_first hplace]
      exact h.items_given line 0
  | succ place ih =>
      have hheard : Signal.items (Tap.heard (deeds line (place + 1) events)) <+:
          Signal.items (Tap.given (deeds line place events)) := by
        rw [← Signal.items_map_mapError P.adapt]
        exact Signal.items_isPrefix (h.delivers.heard_given hplace)
      exact ((h.items_given line (place + 1)).trans hheard).trans (ih (by omega))

theorem items_heardBy (h : S.Civil P events) :
    Signal.items (heardBy line events) <+: supplied P line events := by
  cases hdepth : P.depth with
  | zero => exact (supplied_client hdepth).symm ▸ List.prefix_refl _
  | succ place =>
      exact (Signal.items_isPrefix (h.delivers.heardBy_given hdepth.symm)).trans
        (h.items_supplied (by omega))

end State.Civil

/-! ## What the client takes -/

/-- In a move of the outside nothing is sent along a line whose source is not driven by hand. -/
theorem State.move_coming {m : Move α ε} (hdriven : P.isDriven = false)
    (hmove : S.move? P m = some U) : U.coming P line = [] := by
  cases State.move?_moved hmove with
  | signal => exact absurd (isDriven_of_signal hmove) (by simp [hdriven])
  | subscribe hturn hlines hstack hnext => exact coming_of_call hnext rfl
  | control hturn hreceived hlines hstack hnext => exact coming_of_call hnext rfl
  | direct hturn hlines hstack hnext => exact coming_of_call hnext rfl
  | answer hturn hstack hlines hrest hnext => exact coming_of_back hnext

theorem State.lt_of_isConditional (h : S.isConditional line = true) : line < S.lines.length := by
  obtain ⟨l, hl, -⟩ := (Option.any_eq_true _ _).mp h
  exact (List.getElem?_eq_some_iff.mp hl).1

theorem Rationed.of_start (ambient : Context) :
    Rationed q all line 0 [] (State.start P ambient) :=
  .unborn rfl (fun _ hf => (List.not_mem_nil hf).elim) (by simp [State.start]) (Nat.le_refl 0)

/-- Throughout a play a line is supplied with what the loop hands out, and the loop keeps to what
the client has asked for. -/
theorem Play.rationed (hsource : P.source = .sequence (all[·]?))
    (hplay : Play P (.start P ambient) history U)
    (hselects : U.isConditional line = true → selects line q [] history = true) :
    ∃ before, Rationed q all line (Demand.total (asked line history)) before U ∧
      supplied P line (happened history) ++ U.coming P line = before := by
  have hdriven : P.isDriven = false := by rw [Plan.isDriven, hsource]
  induction hplay with
  | refl =>
      refine ⟨[], .of_start ambient, ?_⟩
      rw [State.coming_of_outside rfl, happened_nil, quiet_nil.supplied]
      rfl
  | @step history T U events hplay hstep ih =>
      have hstepped := State.step?_stepped hstep
      have hcivil := hplay.civil
      rw [State.step_isConditional hstepped] at hselects
      simp only [selects_append, Bool.and_eq_true] at hselects
      obtain ⟨before, hrationed, hsupplied⟩ := ih fun hconditional => (hselects hconditional).1
      obtain ⟨given, hnow, hcoming⟩ := hrationed.step hcivil.assembled hsource hstep
      refine ⟨before ++ given, by simpa using hnow, ?_⟩
      have harrived : supplied P line events = T.coming P line :=
        State.step_supplied hcivil.assembled hcivil.handled hstepped
      rw [happened_append, happened_map_event, supplied_append, harrived, hsupplied, hcoming]
  | @move history T U m hplay hallows hmove ih =>
      have hconditional : T.isConditional line = true → U.isConditional line = true := by
        intro hthen
        have hline : line < T.lines.length := State.lt_of_isConditional hthen
        rwa [(State.move_keeps (State.move?_moved hmove) hline 0).2.2]
      have hselected : T.isConditional line = true → selects line q [] history = true ∧
          m.judges line q (inProgress history) = true := by
        intro hthen
        have hwhole := hselects (hconditional hthen)
        rw [selects_append, Bool.and_eq_true] at hwhole
        refine ⟨hwhole.1, ?_⟩
        simpa [selects, inProgress] using hwhole.2
      obtain ⟨before, hrationed, hsupplied⟩ := ih fun hthen => (hselected hthen).1
      have hnow := hrationed.move hsource hallows hmove fun hthen b y heq hcallback => by
        subst heq
        have hjudges := (hselected hthen).2
        rw [hplay.inProgress_eq] at hjudges
        exact Move.eq_of_judges hjudges hcallback
      refine ⟨before, by simpa using hnow, ?_⟩
      obtain ⟨b, hfocus⟩ := State.move_turn (State.move?_moved hmove)
      rw [State.coming_of_outside hfocus, List.append_nil] at hsupplied
      rw [happened_append, happened_move, List.append_nil, State.move_coming hdriven hmove,
        List.append_nil, hsupplied]

theorem Demand.sum_eq_unbounded {requests : List UInt64}
    (h : unbounded.toNat ≤ total requests) : sum requests = unbounded := by
  rw [← UInt64.toNat_inj, toNat_sum]
  exact Nat.min_eq_right h

/-- On a line whose source is a list, whichever hooks of its taps fail and whenever the client asks
for items or cancels: the items that the client has received are a prefix of the list, those that it
takes are a prefix of the items of the list that it would take, and they are no more than the sum of
what it has asked for. The sum ends at demand without a bound; a client that has asked for so much
may be handed a list of any length. -/
theorem Play.backpressure (hsource : P.source = .sequence (all[·]?))
    (hplay : Play P (.start P ambient) history U)
    (hselects : U.isConditional line = true → selects line p [] history = true) :
    Signal.items (heardBy line (happened history)) <+: all ∧
      U.selection line p (Signal.items (heardBy line (happened history))) <+:
        U.selection line p all ∧
      (all.length ≤ Demand.unbounded.toNat ∨
          Demand.sum (asked line history) ≠ Demand.unbounded →
        (U.selection line p (Signal.items (heardBy line (happened history)))).length ≤
          (Demand.sum (asked line history)).toNat) := by
  -- A client that cannot refuse items takes all of them.
  obtain ⟨q, hselection, hq⟩ := U.selection_eq line p
  have hselected : U.isConditional line = true → selects line q [] history = true :=
    fun hconditional => (hq hconditional).symm ▸ hselects hconditional
  obtain ⟨before, hrationed, hsupplied⟩ := hplay.rationed hsource hselected
  have hbefore : Signal.items (heardBy line (happened history)) <+: before :=
    hplay.civil.items_heardBy.trans (hsupplied ▸ List.prefix_append _ _)
  have hall := hbefore.trans hrationed.isPrefix
  simp only [hselection]
  refine ⟨hall, hall.filter q, fun hbounded => ?_⟩
  have hlength := (hall.filter q).length_le.trans (List.length_filter_le q all)
  have hcount : ((Signal.items (heardBy line (happened history))).filter q).length ≤
      before.countP q := by
    rw [List.countP_eq_length_filter]
    exact (hbefore.filter q).length_le
  rw [Demand.toNat_sum]
  rcases hrationed.within with hunbounded | hwithin
  · have hfits := hbounded.resolve_right fun hne => hne (Demand.sum_eq_unbounded hunbounded)
    omega
  · refine Nat.le_min.mpr ⟨hcount.trans hwithin, ?_⟩
    rcases hbounded with hfits | hne
    · exact hlength.trans hfits
    · have hless : ¬Demand.unbounded.toNat ≤ Demand.total (asked line history) :=
        fun h => hne (Demand.sum_eq_unbounded h)
      omega

end

open scoped Scenario

/-- The numbers from 1 to 5 with taps whose listeners fail whenever one of the listed hooks runs. -/
def Plan.brittleCounting (failing : List (List String)) : Plan Unit Nat Nat :=
  { Plan.brittle failing with source := .sequence ([1, 2, 3, 4, 5][·]?) }

/-- A client that refuses odd numbers asks for one item when it gets its handle, and for two more
from inside its first item. The second tap fails after the item that is taken, and the cancellation
that follows fails at the first tap, so that the source goes on. No more items come for all that. -/
theorem Play.backpressure_brittle : ∃ history U,
    Play (.brittleCounting [["do_on_cancel"], ["do_on_next"]])
      (.start (.brittleCounting [["do_on_cancel"], ["do_on_next"]]) .empty) history U ∧
    U.isConditional 0 = true ∧ selects 0 (· % 2 == 0) [] history = true ∧
    asked 0 history = [1, 2] ∧ Signal.items (heardBy 0 (happened history)) = [1, 2] ∧
    Signal.items (heardBy 0 (happened history)) <+: [1, 2, 3, 4, 5] ∧
    U.selection 0 (· % 2 == 0) (Signal.items (heardBy 0 (happened history))) <+:
      U.selection 0 (· % 2 == 0) [1, 2, 3, 4, 5] ∧
    (U.selection 0 (· % 2 == 0) (Signal.items (heardBy 0 (happened history)))).length ≤
      (Demand.sum (asked 0 history)).toNat := by
  obtain ⟨history, U, hplay, hconditional, hselects, hasked, hitems⟩ := Play.of_follow
    (P := .brittleCounting [["do_on_cancel"], ["do_on_next"]])
    (S := .start (.brittleCounting [["do_on_cancel"], ["do_on_next"]]) .empty) 40
    [.subscribe ⟨.empty, true⟩, .control 0 0 (.request 1), .control 0 0 (.request 2),
      .answer false, .answer true, .answer true, .answer true]
    (fun history U => U.isConditional 0 = true ∧ selects 0 (· % 2 == 0) [] history = true ∧
      asked 0 history = [1, 2] ∧ Signal.items (heardBy 0 (happened history)) = [1, 2])
    (by decide +kernel)
  obtain ⟨hreceived, htaken, hcount⟩ :=
    Play.backpressure rfl hplay fun _ : U.isConditional 0 = true => hselects
  exact ⟨history, U, hplay, hconditional, hselects, hasked, hitems, hreceived, htaken,
    hcount (.inl (by decide))⟩

end Wiretap

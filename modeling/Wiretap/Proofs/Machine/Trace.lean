import Wiretap.Machine.History
import Wiretap.Proofs.Tap.Life

/-!
# What a history tells of one tap and of one client

A history interleaves what happened at all places of all lines. Here it is read from one place: the
deeds of a tap, and the signals that a client has heard.
-/

namespace Wiretap

variable {K : Kinds} {σ α ε : Type}

/-- The event, if the entry is one. -/
def Entry.event? : Entry α ε → Option (Event α ε)
  | .event e => some e
  | .move _ => none

/-- The events of a history. -/
def happened (history : List (Entry α ε)) : List (Event α ε) := history.filterMap Entry.event?

@[simp] theorem happened_nil : happened ([] : List (Entry α ε)) = [] := rfl

@[simp] theorem happened_append (first second : List (Entry α ε)) :
    happened (first ++ second) = happened first ++ happened second := List.filterMap_append

@[simp] theorem happened_map_event (events : List (Event α ε)) :
    happened (events.map .event) = events := by
  induction events with
  | nil => rfl
  | cons e events ih => exact congrArg (e :: ·) ih

@[simp] theorem happened_move (m : Move α ε) : happened [Entry.move m] = [] := rfl

/-- What the event shows of the tap at a place of a line. -/
def Event.deed? (line place : Nat) : Event α ε → Option (Tap.Deed α ε)
  | .created l p _ _ _ failure => if l = line ∧ p = place then some (.created failure) else none
  | .received l p input => if l = line ∧ p = place then some (.received input) else none
  | .acted l p _ act => if l = line ∧ p = place then some (.acted act) else none
  | .sent l p s => if l = line ∧ p = place then some (.sent s) else none
  | .returned l p b => if l = line ∧ p = place then some (.returned b) else none
  | .notSetUp l p f => if l = line ∧ p = place then some (.notSetUp f) else none
  | _ => none

/-- What the event shows of any tap, with the line and the place. -/
def Event.shown? : Event α ε → Option (Nat × Nat × Tap.Deed α ε)
  | .created l p _ _ _ failure => some (l, p, .created failure)
  | .received l p input => some (l, p, .received input)
  | .acted l p _ act => some (l, p, .acted act)
  | .sent l p s => some (l, p, .sent s)
  | .returned l p b => some (l, p, .returned b)
  | .notSetUp l p f => some (l, p, .notSetUp f)
  | _ => none

theorem Event.deed?_of_shown {line place l p : Nat} {d : Tap.Deed α ε} {e : Event α ε}
    (h : e.shown? = some (l, p, d)) :
    e.deed? line place = if l = line ∧ p = place then some d else none := by
  cases e <;> cases h <;> rfl

theorem Event.deed?_of_not_shown {line place : Nat} {e : Event α ε} (h : e.shown? = none) :
    e.deed? line place = none := by
  cases e <;> first | rfl | cases h

/-- What events show of the tap at a place of a line. -/
def deeds (line place : Nat) (events : List (Event α ε)) : List (Tap.Deed α ε) :=
  events.filterMap (Event.deed? line place)

/-- The signal that the client of a line hears in an event. -/
def Event.heard? (line : Nat) : Event α ε → Option (Signal α (TapError ε))
  | .called (.client l s) _ => if l = line then some s else none
  | _ => none

/-- The signals that the client of a line hears in events. -/
def heardBy (line : Nat) (events : List (Event α ε)) : List (Signal α (TapError ε)) :=
  events.filterMap (Event.heard? line)

section

variable {line place : Nat}

@[simp] theorem deeds_nil : deeds line place ([] : List (Event α ε)) = [] := rfl

@[simp] theorem deeds_append (first second : List (Event α ε)) :
    deeds line place (first ++ second) = deeds line place first ++ deeds line place second :=
  List.filterMap_append

@[simp] theorem deeds_cons (e : Event α ε) (events : List (Event α ε)) :
    deeds line place (e :: events) = (e.deed? line place).toList ++ deeds line place events :=
  Tap.filterMap_cons_toList _ _ _

@[simp] theorem heardBy_nil : heardBy line ([] : List (Event α ε)) = [] := rfl

@[simp] theorem heardBy_append (first second : List (Event α ε)) :
    heardBy line (first ++ second) = heardBy line first ++ heardBy line second :=
  List.filterMap_append

@[simp] theorem heardBy_cons (e : Event α ε) (events : List (Event α ε)) :
    heardBy line (e :: events) = (e.heard? line).toList ++ heardBy line events :=
  Tap.filterMap_cons_toList _ _ _

end

/-- Does the event concern neither a tap nor a client? -/
def Event.isQuiet : Event α ε → Bool
  | .joined .. | .controlled .. | .entered .. | .left .. | .pulled .. | .dropped .. => true
  | .called (.handle ..) _ | .called (.source _) _ => true
  | _ => false

/-- Events that concern neither a tap nor a client. -/
def Quiet (events : List (Event α ε)) : Prop := ∀ e ∈ events, e.isQuiet = true

theorem quiet_nil : Quiet ([] : List (Event α ε)) := fun _ h => nomatch h

theorem quiet_one {e : Event α ε} (he : e.isQuiet = true) : Quiet [e] := by
  intro e' he'
  rwa [List.mem_singleton.mp he']

theorem Quiet.append {events later : List (Event α ε)} (h : Quiet events) (hlater : Quiet later) :
    Quiet (events ++ later) := by
  intro e he
  rcases List.mem_append.mp he with he | he
  · exact h e he
  · exact hlater e he

theorem Quiet.deeds {events : List (Event α ε)} (h : Quiet events) (line place : Nat) :
    deeds line place events = [] := by
  refine List.filterMap_eq_nil_iff.mpr fun e he => ?_
  have hquiet := h e he
  cases e with
  | created | received | acted | sent | returned | notSetUp => cases hquiet
  | _ => rfl

theorem Quiet.heardBy {events : List (Event α ε)} (h : Quiet events) (line : Nat) :
    heardBy line events = [] := by
  refine List.filterMap_eq_nil_iff.mpr fun e he => ?_
  have hquiet := h e he
  rcases e with _ | _ | _ | _ | _ | _ | _ | _ | _ | _ | _ | _ | ⟨⟨l, s⟩ | _ | _, ambient⟩
  case called.client => cases hquiet
  all_goals rfl

/-- Events that show these deeds of one tap, and nothing else. -/
structure Shows (line place : Nat) (shown : List (Tap.Deed α ε)) (events : List (Event α ε)) :
    Prop where
  here : deeds line place events = shown
  elsewhere : ∀ l p, ¬(l = line ∧ p = place) → deeds l p events = []
  clients : ∀ l, heardBy l events = []

namespace Shows

variable {line place : Nat} {first second : List (Tap.Deed α ε)} {events later : List (Event α ε)}

theorem append (h : Shows line place first events) (hlater : Shows line place second later) :
    Shows line place (first ++ second) (events ++ later) where
  here := by rw [deeds_append, h.here, hlater.here]
  elsewhere := by
    intro l p hother
    rw [deeds_append, h.elsewhere l p hother, hlater.elsewhere l p hother, List.append_nil]
  clients := by
    intro l
    rw [heardBy_append, h.clients l, hlater.clients l, List.append_nil]

theorem quiet (h : Quiet events) : Shows line place [] events :=
  ⟨h.deeds line place, fun l p _ => h.deeds l p, fun l => h.heardBy l⟩

theorem cons_quiet {e : Event α ε} (he : e.isQuiet = true) (h : Shows line place first events) :
    Shows line place first (e :: events) := by
  simpa using (quiet (quiet_one he)).append h

theorem append_quiet (h : Shows line place first events) (hquiet : Quiet later) :
    Shows line place first (events ++ later) := by
  simpa using h.append (quiet hquiet)

theorem quiet_append (h : Shows line place first later) (hquiet : Quiet events) :
    Shows line place first (events ++ later) := by
  simpa using (quiet hquiet).append h

theorem one {d : Tap.Deed α ε} {e : Event α ε}
    (hdeed : ∀ l p, e.deed? l p = if line = l ∧ place = p then some d else none)
    (hheard : ∀ l, e.heard? l = none) : Shows line place [d] [e] where
  here := by simp [hdeed]
  elsewhere := by
    intro l p hother
    have hnot : ¬(line = l ∧ place = p) := fun h => hother ⟨h.1.symm, h.2.symm⟩
    simp [hdeed, hnot]
  clients := fun l => by simp [hheard]

end Shows

theorem shows_acted (line place : Nat) (ambient : Context) (acts : List (Tap.Act α ε)) :
    Shows line place (acts.map .acted) (acts.map (Event.acted line place ambient)) := by
  induction acts with
  | nil => exact ⟨rfl, fun _ _ _ => rfl, fun _ => rfl⟩
  | cons act acts ih =>
      have hone : Shows line place [.acted act] [Event.acted line place ambient act] :=
        .one (fun _ _ => rfl) fun _ => rfl
      exact hone.append ih

end Wiretap

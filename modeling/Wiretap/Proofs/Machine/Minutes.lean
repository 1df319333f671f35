import Wiretap.Proofs.Machine.Callbacks
import Wiretap.Proofs.Tap.Bracketing

/-!
# The minutes of a subscription

Put together in the order in which they happened, the acts of the tap next to the source and the
signals that the client has heard make up the minutes of a line. A delivery is noted twice, when the
client begins to hear a signal and when it has returned, so what is noted in between happened during
the delivery. For each note it is said here what must stand before it.
-/

namespace Wiretap

variable {K : Kinds} {σ α ε : Type}

/-- One line of the minutes. -/
inductive Note (α ε : Type)
  /-- The tap did something. -/
  | did (act : Tap.Act α ε)
  /-- The client begins to hear a signal. -/
  | heard (s : Signal α (TapError ε))
  /-- The client has returned from hearing it. -/
  | over (s : Signal α (TapError ε))
deriving DecidableEq

/-- The minutes, and the callbacks in progress, the innermost one first. -/
structure Minutes (α ε : Type) where
  callbacks : List (Callback α ε)
  notes : List (Note α ε)

/-- What is noted of an event. -/
def Event.note? (line : Nat) : Event α ε → Option (Note α ε)
  | .acted l p _ act => if l = line ∧ p = 0 then some (.did act) else none
  | .called (.client l s) _ => if l = line then some (.heard s) else none
  | _ => none

/-- What is noted when a callback is over. -/
def Callback.note? (line : Nat) : Callback α ε → Option (Note α ε)
  | .client l s => if l = line then some (.over s) else none
  | _ => none

namespace Minutes

/-- The minutes of a line after one more entry. -/
def after (line : Nat) (m : Minutes α ε) : Entry α ε → Minutes α ε
  | .event e => ⟨(e.called?.map Prod.fst).toList ++ m.callbacks, m.notes ++ (e.note? line).toList⟩
  | .move (.answer _) => ⟨m.callbacks.tail,
      m.notes ++ (m.callbacks.head?.bind (Callback.note? line)).toList⟩
  | .move _ => m

end Minutes

/-- The minutes of a line after a history. -/
def minutes (line : Nat) (history : List (Entry α ε)) : Minutes α ε :=
  history.foldl (Minutes.after line) ⟨[], []⟩

theorem minutes_append (line : Nat) (history later : List (Entry α ε)) :
    minutes line (history ++ later) = later.foldl (Minutes.after line) (minutes line history) :=
  List.foldl_append

theorem minutes_events (line : Nat) (history : List (Entry α ε)) (events : List (Event α ε)) :
    minutes line (history ++ events.map .event) =
      ⟨((called events).map Prod.fst).reverse ++ (minutes line history).callbacks,
        (minutes line history).notes ++ events.filterMap (Event.note? line)⟩ := by
  rw [minutes_append]
  generalize minutes line history = m
  induction events generalizing m with
  | nil => simp
  | cons e events ih =>
      rw [List.map_cons, List.foldl_cons, ih, called_cons, Tap.filterMap_cons_toList]
      simp only [Minutes.after]
      cases e.called? <;> simp

/-- What a deed adds to the minutes. -/
def Tap.Deed.act? : Tap.Deed α ε → Option (Tap.Act α ε)
  | .acted act => some act
  | _ => none

theorem Tap.Turn.filterMap_act? (turn : Tap.Turn σ α ε) :
    turn.deeds.filterMap Tap.Deed.act? = turn.acts := by
  have hacts : ∀ acts : List (Tap.Act α ε), (acts.map .acted).filterMap Tap.Deed.act? = acts := by
    intro acts
    simp [List.filterMap_map, Function.comp_def, Tap.Deed.act?]
  rw [Tap.Turn.deeds, List.filterMap_append, hacts]
  cases turn.next <;> simp [Tap.Next.deeds, Tap.Deed.act?]

/-- Where the client hears nothing, the acts of the tap are noted. -/
theorem notes_of_unheard {line : Nat} {events : List (Event α ε)} (h : heardBy line events = []) :
    events.filterMap (Event.note? line) =
      ((deeds line 0 events).filterMap Tap.Deed.act?).map .did := by
  induction events with
  | nil => rfl
  | cons e events ih =>
      rw [heardBy_cons, List.append_eq_nil_iff, Option.toList_eq_nil_iff] at h
      rw [Tap.filterMap_cons_toList, ih h.2, deeds_cons, List.filterMap_append, List.map_append]
      congr 1
      have hfirst := h.1
      rcases e with _ | _ | _ | _ | ⟨l, p, _, act⟩ | _ | _ | _ | _ | _ | _ | _ | ⟨⟨l, s⟩ | _ | _, _⟩
      case acted => by_cases hhere : l = line ∧ p = 0 <;>
        simp [Event.note?, Event.deed?, hhere, Tap.Deed.act?]
      case called.client => simpa [Event.note?, Event.heard?, Event.deed?] using hfirst
      all_goals
        simp only [Event.note?, Event.deed?]
        first | rfl | (split <;> rfl)

/-! ## What stands before a note -/

namespace Note

/-- Has the tap run a hook for an ending? -/
def isFarewell : Note α ε → Bool
  | .did act => act.isFarewell
  | _ => false

/-- Has the tap run a hook for an ending, and did it succeed? -/
def isGranted : Note α ε → Bool
  | .did act => act.isGranted
  | _ => false

/-- Has the tap run a hook after an ending? -/
def isAfter : Note α ε → Bool
  | .did act => act.isAfter
  | _ => false

end Note

/-- Notes of deliveries, nested in one another, that have all returned. -/
inductive Closed : List (Note α ε) → Prop
  | nil : Closed []
  | did (act : Tap.Act α ε) {rest : List (Note α ε)} (hrest : Closed rest) :
    Closed (.did act :: rest)
  | delivery (s : Signal α (TapError ε)) {during rest : List (Note α ε)} (hduring : Closed during)
    (hrest : Closed rest) : Closed (.heard s :: (during ++ .over s :: rest))

namespace Closed

variable {notes later : List (Note α ε)}

theorem append (h : Closed notes) (hlater : Closed later) : Closed (notes ++ later) := by
  induction h with
  | nil => exact hlater
  | did act _ ih => exact .did act ih
  | delivery s hduring _ _ ih =>
      rw [List.cons_append, List.append_assoc, List.cons_append]
      exact .delivery s hduring ih

theorem acts (acts : List (Tap.Act α ε)) : Closed (acts.map .did) := by
  induction acts with
  | nil => exact .nil
  | cons act acts ih => exact .did act ih

theorem one (s : Signal α (TapError ε)) {during : List (Note α ε)} (h : Closed during) :
    Closed (.heard s :: (during ++ [.over s])) := .delivery s h .nil

end Closed

/-- The hook for an ending succeeded, and then the client heard the ending and has returned, or the
ending was dropped, last of all. -/
def Farewell.Gone (w : Farewell ε) (notes : List (Note α ε)) : Prop :=
  (∃ earlier, notes = earlier ++ .did (.ran w.hook none) :: w.drop.map .did) ∨
    ∃ earlier during, Closed during ∧ notes =
      earlier ++ .did (.ran w.hook none) :: .heard w.signal :: (during ++ [.over w.signal])

/-- What stands before a note. -/
def Note.Follows (before : List (Note α ε)) : Note α ε → Prop
  /- A signal that is to be announced has been announced, last of all. -/
  | .heard s => ∀ h, s.announcement? = some h → ∃ earlier, before = earlier ++ [.did (.ran h none)]
  | .did (.ran h _) =>
    /- No hook for an ending has been run before another one. -/
    (h.isFarewell = true → ∀ n ∈ before, n.isFarewell = false) ∧
      /- An ending is gone before the hook after it runs. -/
      (∀ w : Farewell ε, h = w.after → w.Gone before) ∧
      /- The hook after an ending has succeeded, last of all, when the last hook runs for it. -/
      ∀ ending, h = .finally ending → ending = .cancel ∨
        ∃ (w : Farewell ε) (earlier : List (Note α ε)), w.ending = ending ∧
          before = earlier ++ [.did (.ran w.after none)]
  | _ => True

/-- Every note follows what it must follow. -/
def InOrder (notes : List (Note α ε)) : Prop :=
  ∀ before n later, notes = before ++ n :: later → n.Follows before

namespace InOrder

variable {notes : List (Note α ε)} {n : Note α ε} {w : Farewell ε} {acts : List (Tap.Act α ε)}

theorem nil : InOrder ([] : List (Note α ε)) := fun before n later h => by simp at h

theorem snoc (h : InOrder notes) (hn : n.Follows notes) : InOrder (notes ++ [n]) := by
  intro before n' later hsplit
  rcases append_eq_append_cons hsplit with ⟨middle, hold⟩ | ⟨first, rfl, hnew⟩
  · exact h before n' middle hold
  · obtain ⟨rfl, hn', -⟩ : first = [] ∧ n = n' ∧ later = [] := by
      cases first <;> simp_all
    subst hn'
    rwa [List.append_nil]

theorem snoc_did {act : Tap.Act α ε} (h : InOrder notes) (hact : act.isFree = true) :
    InOrder (notes ++ [.did act]) := by
  refine h.snoc ?_
  cases act with
  | ran hook failure =>
      have hfree : hook.isClosing = false := by simpa [Tap.Act.isFree] using hact
      refine ⟨?_, ?_, ?_⟩
      · simp [Hook.isFarewell_of_isClosing hfree]
      · rintro w rfl
        simp at hfree
      · rintro ending rfl
        exact .inl (by simpa [Hook.isClosing] using hfree)
  | _ => trivial

theorem free (h : InOrder notes) (hacts : ∀ act ∈ acts, act.isFree = true) :
    InOrder (notes ++ acts.map .did) := by
  induction acts generalizing notes with
  | nil => simpa using h
  | cons act acts ih =>
      have hone := h.snoc_did (hacts act List.mem_cons_self)
      have hlater := ih hone fun act' hact' => hacts act' (List.mem_cons_of_mem _ hact')
      simpa using hlater

/-- The hook for an ending. -/
theorem farewell (failure : Option Cause) (h : InOrder notes)
    (hnone : ∀ n ∈ notes, n.isFarewell = false) :
    InOrder (notes ++ [.did (.ran w.hook failure)]) := by
  refine h.snoc ⟨fun _ => hnone, fun w' hw' => ?_, fun ending hending => ?_⟩
  · cases w <;> cases w' <;> cases hw'
  · cases w <;> cases hending

/-- The hook after an ending. -/
theorem followUp (failure : Option Cause) (h : InOrder notes) (hgone : w.Gone notes) :
    InOrder (notes ++ [.did (.ran w.after failure)]) := by
  refine h.snoc ⟨?_, fun w' hw' => ?_, fun ending hending => ?_⟩
  · simp [w.isFarewell_after]
  · cases w <;> cases w' <;> cases hw' <;> exact hgone
  · cases w <;> cases hending

/-- What follows an ending that is gone. -/
theorem wrapped (h : InOrder notes) (hgone : w.Gone notes) (hacts : Tap.Wrapped w acts) :
    InOrder (notes ++ acts.map .did) := by
  have hafter : ∀ failure, InOrder (notes ++ [.did (.ran w.after failure)]) :=
    fun failure => h.followUp failure hgone
  cases hacts with
  | failed cause hfree => simpa using (hafter (some cause)).free hfree
  | settled => exact hafter none
  | concluded failure hfree =>
      have hlast : InOrder (notes ++ [.did (.ran w.after none)] ++
          [.did (.ran (.finally w.ending) failure)]) := by
        refine (hafter none).snoc
          ⟨by simp [Hook.isFarewell], fun w' hw' => ?_, fun ending hending => .inr ?_⟩
        · cases w' <;> cases hw'
        · cases hending
          exact ⟨w, notes, rfl, rfl⟩
      simpa using hlast.free hfree

/-- A turn of the tap. -/
theorem turn {t : Tap σ} {turn : Tap.Turn σ α ε} {due : Option (Farewell ε)} (h : InOrder notes)
    (hturn : turn.Orderly t due)
    (hfresh : t.done = false → ∀ n ∈ notes, n.isFarewell = false)
    (hgone : ∀ w ∈ due, w.Gone notes) : InOrder (notes ++ turn.acts.map .did) := by
  cases hturn with
  | free hfree => exact h.free hfree.acts
  | announced hh hs hr hacts =>
      rw [hacts]
      exact h.free (by simp [Tap.Act.isFree, hh])
  | passed w hopen hacts =>
      rw [hacts]
      exact h.farewell none (hfresh hopen)
  | dropped w hopen hacts hwrapped =>
      have hdrop : ∀ act ∈ (w.drop : List (Tap.Act α ε)), act.isFree = true := by
        cases w <;> simp [Farewell.drop, Tap.Act.isFree]
      have hdropped := (h.farewell (w := w) none (hfresh hopen)).free hdrop
      have hlater := hdropped.wrapped (.inl ⟨notes, by simp⟩) hwrapped
      rw [hacts]
      simpa using hlater
  | spoiled w cause hopen hturn hfree =>
      rw [hturn]
      simpa using (h.farewell (w := w) (some cause) (hfresh hopen)).free hfree.acts
  | wrapped w hwrapped => exact h.wrapped (hgone w rfl) hwrapped

end InOrder

end Wiretap

import Mathlib.Logic.Relation
import Wiretap.Tap.Work
import Wiretap.Tap.Setup

/-!
# The life of a tap

Seen on its own, a tap is called by its neighbours and calls them. A call may come while other
calls of the tap have not returned, so a life keeps the points where the tap will resume, and
records what can be seen of the tap from outside. Which calls come, and when, is left open here.
-/

namespace Wiretap.Tap

variable {K : Kinds} {σ α ε : Type}

/-- What can be seen of the place of a tap on a line. -/
inductive Deed (α ε : Type)
  /-- A listener was created, or could not be. -/
  | created (failure : Option Cause)
  /-- The tap was called. -/
  | received (input : Input α ε)
  /-- The tap, or its set-up, did something. -/
  | acted (act : Act α ε)
  /-- The tap sent its receiver a signal. -/
  | sent (s : Signal α (TapError ε))
  /-- The tap returned to its caller. -/
  | returned (b : Bool)
  /-- There is no tap because of a fault. -/
  | notSetUp (f : Fault)
deriving DecidableEq

theorem filterMap_cons_toList {β γ : Type} (f : β → Option γ) (x : β) (xs : List β) :
    (x :: xs).filterMap f = (f x).toList ++ xs.filterMap f := by
  cases h : f x <;> simp [h]

/-- The signal that was sent, if it was one. -/
def Deed.sent? : Deed α ε → Option (Signal α (TapError ε))
  | .sent s => some s
  | _ => none

/-- The signals sent to the receiver, oldest first. -/
def sent (deeds : List (Deed α ε)) : List (Signal α (TapError ε)) := deeds.filterMap Deed.sent?

@[simp] theorem sent_nil : sent ([] : List (Deed α ε)) = [] := rfl

@[simp] theorem sent_append (first second : List (Deed α ε)) :
    sent (first ++ second) = sent first ++ sent second := List.filterMap_append

@[simp] theorem sent_cons (d : Deed α ε) (deeds : List (Deed α ε)) :
    sent (d :: deeds) = d.sent?.toList ++ sent deeds := filterMap_cons_toList _ _ _

@[simp] theorem sent_map_acted (acts : List (Act α ε)) : sent (acts.map .acted) = [] := by
  induction acts with
  | nil => rfl
  | cons act acts ih => simpa [Deed.sent?] using ih

/-- The signal that was received, if it was one. -/
def Deed.heard? : Deed α ε → Option (Signal α ε)
  | .received (.signal s) => some s
  | _ => none

/-- The signals received from the source, oldest first. -/
def heard (deeds : List (Deed α ε)) : List (Signal α ε) := deeds.filterMap Deed.heard?

@[simp] theorem heard_nil : heard ([] : List (Deed α ε)) = [] := rfl

@[simp] theorem heard_append (first second : List (Deed α ε)) :
    heard (first ++ second) = heard first ++ heard second := List.filterMap_append

@[simp] theorem heard_cons (d : Deed α ε) (deeds : List (Deed α ε)) :
    heard (d :: deeds) = d.heard?.toList ++ heard deeds := filterMap_cons_toList _ _ _

/-- The point where the tap will resume, if it called a neighbour. -/
def Next.resume? : Next α ε → Option (Resume α ε)
  | .answer _ => none
  | .down _ r => some r
  | .up _ _ r => some r

/-- What can be seen of the end of a turn. -/
def Next.deeds : Next α ε → List (Deed α ε)
  | .answer b => [.returned b]
  | .down s _ => [.sent s]
  | .up _ _ _ => []

/-- What can be seen of a turn. -/
def Turn.deeds (turn : Turn σ α ε) : List (Deed α ε) := turn.acts.map .acted ++ turn.next.deeds

@[simp] theorem sent_turn_deeds (turn : Turn σ α ε) : sent turn.deeds = sent turn.next.deeds := by
  simp [Turn.deeds]

@[simp] theorem heard_turn_deeds (turn : Turn σ α ε) : heard turn.deeds = [] := by
  have hacts : heard (turn.acts.map (.acted : Act α ε → Deed α ε)) = [] := by
    induction turn.acts with
    | nil => rfl
    | cons act acts ih => simpa [Deed.heard?] using ih
  cases hnext : turn.next <;> simp [Turn.deeds, hacts, hnext, Next.deeds, Deed.heard?]

theorem Turn.acts_of_deeds {turn : Turn σ α ε} {act : Act α ε} (h : .acted act ∈ turn.deeds) :
    act ∈ turn.acts := by
  rcases List.mem_append.mp h with hact | hnext
  · obtain ⟨act', hact', heq⟩ := List.mem_map.mp hact
    cases heq
    exact hact'
  · cases hturn : turn.next <;> simp [hturn, Next.deeds] at hnext

theorem Turn.received_not_mem {turn : Turn σ α ε} (input : Input α ε) :
    .received input ∉ turn.deeds := by
  intro h
  rcases List.mem_append.mp h with hact | hnext
  · obtain ⟨act, -, heq⟩ := List.mem_map.mp hact
    cases heq
  · cases hturn : turn.next <;> simp [hturn, Next.deeds] at hnext

theorem Turn.notSetUp_not_mem {turn : Turn σ α ε} (f : Fault) : .notSetUp f ∉ turn.deeds := by
  intro hmem
  rcases List.mem_append.mp hmem with hact | hnext
  · obtain ⟨act, -, heq⟩ := List.mem_map.mp hact
    cases heq
  · cases hcase : turn.next <;> simp [hcase, Next.deeds] at hnext

@[simp] theorem Turn.deeds_after (act : Act α ε) (turn : Turn σ α ε) :
    (turn.after act).deeds = .acted act :: turn.deeds := rfl

@[simp] theorem Turn.tap_after (act : Act α ε) (turn : Turn σ α ε) :
    (turn.after act).tap = turn.tap := rfl

@[simp] theorem Turn.next_after (act : Act α ε) (turn : Turn σ α ε) :
    (turn.after act).next = turn.next := rfl

@[simp] theorem Turn.acts_after (act : Act α ε) (turn : Turn σ α ε) :
    (turn.after act).acts = act :: turn.acts := rfl

/-- What the receiver is given: in place of a tap that could not be set up, an empty handle and the
fault. -/
def Deed.given : Deed α ε → List (Signal α (TapError ε))
  | .sent s => [s]
  | .notSetUp f => [.subscribe .empty, .error (.listener f)]
  | _ => []

/-- The signals that the receiver is given, oldest first. -/
def given (deeds : List (Deed α ε)) : List (Signal α (TapError ε)) := deeds.flatMap Deed.given

@[simp] theorem given_append (first second : List (Deed α ε)) :
    given (first ++ second) = given first ++ given second := List.flatMap_append

@[simp] theorem given_nil : given ([] : List (Deed α ε)) = [] := rfl

@[simp] theorem given_cons (d : Deed α ε) (deeds : List (Deed α ε)) :
    given (d :: deeds) = d.given ++ given deeds := rfl

theorem given_turn_deeds (turn : Turn σ α ε) : given turn.deeds = sent turn.next.deeds := by
  have hacts : given (turn.acts.map (.acted : Act α ε → Deed α ε)) = [] := by
    simp [given, Deed.given]
  rw [Turn.deeds, given_append, hacts, List.nil_append]
  cases turn.next <;> rfl

/-- Is it an error of the source? -/
def Input.isError : Input α ε → Bool
  | .signal (.error _) => true
  | _ => false

/-- Is it a handle? -/
def Input.isSubscribe : Input α ε → Bool
  | .signal (.subscribe _) => true
  | _ => false

/-- A moment in the life of a tap. -/
structure Life [Kinds] (σ α ε : Type) where
  /-- The state of the tap. -/
  tap : Tap σ
  /-- Where it will resume when its calls return, the innermost one first. -/
  pending : List (Resume α ε)
  /-- What has been seen of it, oldest first. -/
  deeds : List (Deed α ε)

namespace Life

/-- The tap takes a turn. -/
def take (l : Life σ α ε) (turn : Turn σ α ε) : Life σ α ε where
  tap := turn.tap
  pending := turn.next.resume?.toList ++ l.pending
  deeds := l.deeds ++ turn.deeds

/-- The tap has been set up and nothing has happened to it yet. A tap made by hand has no set-up
to show. -/
def Newborn (l : Life σ α ε) : Prop :=
  (∃ listener context, l.tap = .start listener context) ∧ l.pending = [] ∧
    (l.deeds = [] ∨
      l.deeds = [.created none, .acted (.ran .first none), .acted (.augmented none)])

/-- Which calls a tap may get at a moment of its life. -/
def Manners [Kinds] (σ α ε : Type) : Type := Life σ α ε → Input α ε → Prop

/-- Any call may come at any time. -/
def Manners.any : Manners σ α ε := fun _ _ => True

/-- The tap is called, or the innermost call that it made returns, each time under some ambient
context. -/
inductive Step (Ls : Context → Listener σ α ε) (self : Handle) (conditional : Bool)
    (manners : Manners σ α ε) : Life σ α ε → Life σ α ε → Prop
  /-- It is called. -/
  | serve {t : Tap σ} {pending : List (Resume α ε)} {deeds : List (Deed α ε)}
      {input : Input α ε} (ambient : Context) (hmanners : manners ⟨t, pending, deeds⟩ input) :
    Step Ls self conditional manners ⟨t, pending, deeds⟩
      (take ⟨t, pending, deeds ++ [.received input]⟩ (t.serve (Ls ambient) self conditional input))
  /-- A neighbour returns. -/
  | resume {t : Tap σ} {r : Resume α ε} {pending : List (Resume α ε)} {deeds : List (Deed α ε)}
      (ambient : Context) (b : Bool) :
    Step Ls self conditional manners ⟨t, r :: pending, deeds⟩
      (take ⟨t, pending, deeds⟩ (t.resume (Ls ambient) r b))

/-- From a newborn tap, some calls and returns lead to this moment. -/
def Lived (Ls : Context → Listener σ α ε) (self : Handle) (conditional : Bool)
    (manners : Manners σ α ε) (l : Life σ α ε) : Prop :=
  ∃ first : Life σ α ε,
    first.Newborn ∧ Relation.ReflTransGen (Step Ls self conditional manners) first l

namespace Lived

variable {Ls : Context → Listener σ α ε} {self : Handle} {conditional : Bool}
  {manners : Manners σ α ε} {l l' : Life σ α ε}

theorem newborn (h : l.Newborn) : Lived Ls self conditional manners l := ⟨l, h, .refl⟩

theorem step (hl : Lived Ls self conditional manners l)
    (h : Step Ls self conditional manners l l') : Lived Ls self conditional manners l' := by
  obtain ⟨first, hfirst, hrun⟩ := hl
  exact ⟨first, hfirst, hrun.tail h⟩

/-- What holds of a newborn tap and is kept by every call and every return holds all along. -/
theorem invariant {motive : Life σ α ε → Prop} (hl : Lived Ls self conditional manners l)
    (hnewborn : ∀ first, first.Newborn → motive first)
    (hstep : ∀ now next, motive now → Step Ls self conditional manners now next → motive next) :
    motive l := by
  obtain ⟨first, hfirst, hrun⟩ := hl
  induction hrun with
  | refl => exact hnewborn first hfirst
  | tail _ h ih => exact hstep _ _ ih h

/-- The receiver of a tap is given what the tap sends. -/
theorem given_eq (hl : Lived Ls self conditional manners l) : given l.deeds = sent l.deeds := by
  refine hl.invariant (motive := fun l => given l.deeds = sent l.deeds) ?_ ?_
  · rintro first ⟨-, -, hdeeds | hdeeds⟩ <;> rw [hdeeds] <;> rfl
  · intro now next hnow hstep
    cases hstep with
    | serve ambient hmanners =>
        dsimp only at hnow
        simp [take, hnow, given_turn_deeds, Deed.sent?, Deed.given]
    | resume ambient b =>
        dsimp only at hnow
        simp [take, hnow, given_turn_deeds]

end Lived

end Life

end Wiretap.Tap

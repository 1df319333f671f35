import Wiretap.Proofs.Tap.Calls
import Wiretap.Proofs.Tap.Context

/-!
# Neighbours that answer at once

A tap whose neighbours do nothing but answer is not interrupted: once it is called it works through
its turns until it returns, and what it does on the way depends on nothing but its own state and the
answers to its offers. So its work can be told call by call, without the points where it waits.
-/

namespace Wiretap

variable {K : Kinds} {σ α ε : Type}

/-- The answer of a receiver that takes the items which `accepts` marks. -/
def Signal.taken (accepts : α → Bool) : Signal α ε → Bool
  | .offer x => accepts x
  | _ => true

/-- Is it the hook for items? -/
def Hook.isNext : Hook α ε → Bool
  | .next _ => true
  | _ => false

/-- The hook for items fails on those that `f` marks, and nothing else of the listener fails. -/
structure Listener.FailsOn (L : Listener σ α ε) (f : α → Bool) : Prop where
  next : ∀ s x, (L.run s (.next x)).2.isSome = f x
  others : ∀ s h, h.isNext = false → (L.run s h).2 = none
  augments : ∀ s context, ∃ augmented, (L.augment s context).2 = .ok augmented

namespace Listener.FailsOn

variable {L : Listener σ α ε} {f : α → Bool} {x : α}

theorem next_eq_none (hL : L.FailsOn f) (hx : f x = false) (s : σ) :
    (L.run s (.next x)).2 = none := by
  have hsome := hL.next s x
  rw [hx] at hsome
  exact Option.not_isSome_iff_eq_none.mp (by simp [hsome])

theorem next_eq_some (hL : L.FailsOn f) (hx : f x = true) (s : σ) :
    ∃ cause, (L.run s (.next x)).2 = some cause :=
  Option.isSome_iff_exists.mp ((hL.next s x).trans hx)

end Listener.FailsOn

namespace Tap

/-- From this turn on the tap does all that, until it returns in this state and with this answer. -/
inductive Settles (L : Listener σ α ε) (accepts : α → Bool) :
    Turn σ α ε → List (Doing α ε) → Tap σ → Bool → Prop
  /-- It returns. -/
  | answer {w : Turn σ α ε} {b : Bool} (hnext : w.next = .answer b) :
    Settles L accepts w w.doings w.tap b
  /-- Its receiver gets a signal and answers. -/
  | down {w : Turn σ α ε} {s : Signal α (TapError ε)} {r : Resume α ε}
    {later : List (Doing α ε)} {t : Tap σ} {b : Bool} (hnext : w.next = .down s r)
    (hs : s.isSubscribe = false)
    (hlater : Settles L accepts (w.tap.resume L r (s.taken accepts)) later t b) :
    Settles L accepts w (w.doings ++ later) t b
  /-- The source learns that its handle is used. -/
  | up {w : Turn σ α ε} {id : Nat} {c : Control} {r : Resume α ε} {later : List (Doing α ε)}
    {t : Tap σ} {b : Bool} (hnext : w.next = .up (.external id) c r)
    (hlater : Settles L accepts (w.tap.resume L r true) later t b) :
    Settles L accepts w (w.doings ++ later) t b

/-- The tap is called with one input after the other, does all that, gives these answers and is in
this state in the end. -/
inductive Serves (L : Listener σ α ε) (self : Handle) (conditional : Bool) (accepts : α → Bool) :
    Tap σ → List (Input α ε) → List (Doing α ε) → List Bool → Tap σ → Prop
  /-- It is not called. -/
  | nil {t : Tap σ} : Serves L self conditional accepts t [] [] [] t
  /-- It is called, and then again. -/
  | cons {t u v : Tap σ} {input : Input α ε} {inputs : List (Input α ε)}
    {doings later : List (Doing α ε)} {b : Bool} {answers : List Bool}
    (hfirst : Settles L accepts (t.serve L self conditional input) doings u b)
    (hlater : Serves L self conditional accepts u inputs later answers v) :
    Serves L self conditional accepts t (input :: inputs) (doings ++ later) (b :: answers) v

namespace Settles

variable {L : Listener σ α ε} {accepts : α → Bool} {turn : Turn σ α ε} {t : Tap σ} {b : Bool}
  {doings : List (Doing α ε)}

/-- The tap keeps its context. -/
theorem context (h : Settles L accepts turn doings t b) : t.context = turn.tap.context := by
  induction h with
  | answer hnext => rfl
  | down hnext hs hlater ih => exact ih.trans (resume_context L _ _)
  | up hnext hlater ih => exact ih.trans (resume_context L _ _)

theorem serve_context {u : Tap σ} {self : Handle} {conditional : Bool} {input : Input α ε}
    (h : Settles L accepts (u.serve L self conditional input) doings t b) :
    t.context = u.context :=
  h.context.trans (Tap.serve_context L self conditional input)

theorem after (act : Act α ε) (h : Settles L accepts turn doings t b) :
    Settles L accepts (turn.after act) (.act act :: doings) t b := by
  cases h with
  | answer hnext => exact .answer (w := turn.after act) hnext
  | down hnext hs hlater => exact .down (w := turn.after act) hnext hs hlater
  | up hnext hlater => exact .up (w := turn.after act) hnext hlater

theorem reply (t : Tap σ) (b : Bool) : Settles L accepts (t.reply b) [] t b :=
  .answer (w := t.reply b) rfl

theorem finish (t : Tap σ) : Settles L accepts t.finish [] t true := reply t true

/-- A hook that does not fail. -/
theorem runHook {h : Hook α ε} {ok : Tap σ → Turn σ α ε} {failed : Tap σ → Fault → Turn σ α ε}
    (hnone : (L.run t.listener h).2 = none) {u : Tap σ}
    (hok : Settles L accepts (ok { t with listener := (L.run t.listener h).1 }) doings u b) :
    Settles L accepts (t.runHook L h ok failed) (.act (.ran h none) :: doings) u b := by
  unfold Tap.runHook
  dsimp only
  rw [hnone]
  exact hok.after _

/-- A hook that fails. -/
theorem runHook_failed {h : Hook α ε} {ok : Tap σ → Turn σ α ε}
    {failed : Tap σ → Fault → Turn σ α ε} {cause : Cause}
    (hsome : (L.run t.listener h).2 = some cause) {u : Tap σ}
    (hfailed : Settles L accepts
      (failed { t with listener := (L.run t.listener h).1 } (h.fault cause)) doings u b) :
    Settles L accepts (t.runHook L h ok failed) (.act (.ran h (some cause)) :: doings) u b := by
  unfold Tap.runHook
  dsimp only
  rw [hsome]
  exact hfailed.after _

end Settles

/-- The tap keeps its context. -/
theorem Serves.context {L : Listener σ α ε} {self : Handle} {conditional : Bool}
    {accepts : α → Bool} {t u : Tap σ} {inputs : List (Input α ε)} {doings : List (Doing α ε)}
    {answers : List Bool} (h : Serves L self conditional accepts t inputs doings answers u) :
    u.context = t.context := by
  induction h with
  | nil => rfl
  | cons hfirst hlater ih => exact ih.trans hfirst.serve_context

end Tap

end Wiretap

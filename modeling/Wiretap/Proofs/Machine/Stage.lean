import Mathlib.Logic.Relation
import Wiretap.Machine.Publisher
import Wiretap.Proofs.Machine.Callbacks

/-!
# Stages

On a stage the outside of the machine acts by an agenda. Whoever the machine calls puts what it is
going to do before everything else, so the agenda nests as the calls do. The source driven by hand
is told what to send, and then has a move for every line that it has been joined to. The machine
leaves no choice either, so the first agenda and the manners of those who are called decide what
happens.
-/

namespace Wiretap

variable {K : Kinds} {σ α ε : Type}

/-- Something that the outside is going to do. -/
inductive Cue [Kinds] (α ε : Type)
  /-- Make a move. -/
  | move (m : Move α ε)
  /-- Tell the source to send something. -/
  | tell (t : Telling α ε)
  /-- Note what the last call returned. -/
  | note

/-- What those outside are going to do when they are called, given what has happened so far. -/
def Manner [Kinds] (α ε : Type) : Type := List (Entry α ε) → Callback α ε → List (Cue α ε)

/-- The machine and its outside. -/
structure Stage [Kinds] (σ α ε : Type) where
  /-- The machine. -/
  machine : State σ α ε
  /-- The lines that the source driven by hand has been joined to, oldest first. -/
  joined : List Nat
  /-- What is going to be done, next first. -/
  agenda : List (Cue α ε)
  /-- What has happened. -/
  past : List (Entry α ε)
  /-- What the source has been told to send, and to which lines, oldest first. -/
  told : List (Telling α ε × List Nat)
  /-- What the signals of the source returned, oldest first. -/
  answers : List Bool

/-- The line that the source driven by hand is joined to. -/
def Callback.source? : Callback α ε → Option Nat
  | .source line => some line
  | _ => none

namespace Stage

/-- A stage on which nothing has happened yet. -/
def start (P : Plan σ α ε) (ambient : Context) (agenda : List (Cue α ε)) : Stage σ α ε :=
  ⟨.start P ambient, [], agenda, [], [], []⟩

/-- The stage when the machine has come to `U` and more has happened. -/
def after (s : Stage σ α ε) (U : State σ α ε) (history : List (Entry α ε)) : Stage σ α ε :=
  { s with machine := U, past := s.past ++ history }

theorem after_after (s : Stage σ α ε) (U V : State σ α ε) (history later : List (Entry α ε)) :
    (s.after U history).after V later = s.after V (history ++ later) := by
  simp [after]

/-- Somebody outside is called. -/
def hear (manner : Manner α ε) (s : Stage σ α ε) (c : Callback α ε) : Stage σ α ε :=
  { s with joined := s.joined ++ c.source?.toList, agenda := manner s.past c ++ s.agenda }

/-- The outside does something. A move that is not possible is left out. -/
def perform (P : Plan σ α ε) (s : Stage σ α ε) : Cue α ε → Stage σ α ε
  | .move m =>
    match s.machine.move? P m with
    | some U => s.after U [.move m]
    | none => s
  | .tell t =>
    let cues := (t.moves s.machine s.joined).flatMap fun m => [.move m, .note]
    { s with agenda := cues ++ s.agenda, told := s.told ++ [(t, s.joined)] }
  | .note =>
    match s.machine.focus with
    | .outside b => { s with answers := s.answers ++ [b] }
    | _ => s

/-- The machine steps if it can, and otherwise the outside acts. -/
def next? (P : Plan σ α ε) (manner : Manner α ε) (s : Stage σ α ε) : Option (Stage σ α ε) :=
  match s.machine.step? P with
  | some (machine, events) =>
    let s := { s with machine, past := s.past ++ events.map Entry.event }
    some ((called events).foldl (fun s c => s.hear manner c.1) s)
  | none =>
    match s.agenda with
    | [] => none
    | cue :: agenda => some ({ s with agenda }.perform P cue)

/-- One stage leads to the other. -/
def Leads (P : Plan σ α ε) (manner : Manner α ε) : Stage σ α ε → Stage σ α ε → Prop :=
  Relation.ReflTransGen fun s u => s.next? P manner = some u

/-- One stage leads to the other, and there it ends. -/
def Ends (P : Plan σ α ε) (manner : Manner α ε) (s u : Stage σ α ε) : Prop :=
  s.Leads P manner u ∧ u.next? P manner = none

/-- The stage after so many steps, or where it ends before. -/
def playOut (P : Plan σ α ε) (manner : Manner α ε) : Nat → Stage σ α ε → Stage σ α ε
  | 0, s => s
  | fuel + 1, s =>
    match s.next? P manner with
    | none => s
    | some u => playOut P manner fuel u

variable {P : Plan σ α ε} {manner : Manner α ε} {s u v : Stage σ α ε} {U : State σ α ε}
  {events : List (Event α ε)}

theorem leads_playOut (fuel : Nat) (s : Stage σ α ε) :
    s.Leads P manner (s.playOut P manner fuel) := by
  induction fuel generalizing s with
  | zero => exact .refl
  | succ fuel ih =>
      unfold playOut
      split
      · exact .refl
      next u hnext => exact .head hnext (ih u)

theorem hear_of_source?_eq_none {c : Callback α ε} (hc : c.source? = none) :
    s.hear manner c = { s with agenda := manner s.past c ++ s.agenda } := by
  simp [hear, hc]

/-- A stage ends in one way only. -/
theorem Ends.unique (hu : s.Ends P manner u) (hv : s.Ends P manner v) : u = v := by
  have hfunctional : Relator.RightUnique fun s u : Stage σ α ε => s.next? P manner = some u :=
    fun a b c hb hc => Option.some.inj (hb.symm.trans hc)
  have hend : ∀ {a b : Stage σ α ε}, a.next? P manner = none → a.Leads P manner b → a = b := by
    intro a b hnone hleads
    rcases hleads.cases_head with rfl | ⟨c, hc, -⟩
    · rfl
    · rw [hnone] at hc
      cases hc
  rcases Relation.ReflTransGen.total_of_right_unique hfunctional hu.1 hv.1 with huv | hvu
  · exact hend hu.2 huv
  · exact (hend hv.2 hvu).symm

/-! ## Single steps -/

theorem next?_of_step (hstep : s.machine.step? P = some (U, events)) :
    s.next? P manner = some ((called events).foldl (fun s c => s.hear manner c.1)
      (s.after U (events.map .event))) := by
  simp only [next?, hstep]
  rfl

/-- The machine steps without calling the outside. -/
theorem leads_of_silent (hstep : s.machine.step? P = some (U, events))
    (hsilent : called events = []) : s.Leads P manner (s.after U (events.map .event)) := by
  refine .single ?_
  rw [next?_of_step hstep, hsilent]
  rfl

/-- The machine calls the outside. -/
theorem leads_of_ring {c : Callback α ε} {ambient : Context}
    (hstep : s.machine.step? P = some (U, events)) (hcalled : called events = [(c, ambient)]) :
    s.Leads P manner ((s.after U (events.map .event)).hear manner c) := by
  refine .single ?_
  rw [next?_of_step hstep, hcalled]
  rfl

theorem next?_of_cue {b : Bool} {cue : Cue α ε} {agenda : List (Cue α ε)}
    (hfocus : s.machine.focus = .outside b) (hagenda : s.agenda = cue :: agenda) :
    s.next? P manner = some ({ s with agenda }.perform P cue) := by
  have hnone : s.machine.step? P = none := by rw [State.step?, hfocus]
  simp only [next?, hnone, hagenda]

/-- The outside makes a move. -/
theorem leads_of_move {b : Bool} {m : Move α ε} {agenda : List (Cue α ε)}
    (hfocus : s.machine.focus = .outside b) (hagenda : s.agenda = .move m :: agenda)
    (hmove : s.machine.move? P m = some U) :
    s.Leads P manner ({ s with agenda }.after U [.move m]) := by
  refine .single ?_
  rw [next?_of_cue hfocus hagenda]
  simp only [perform, hmove]

/-- The source is told to send something. -/
theorem leads_of_tell {b : Bool} {t : Telling α ε} {agenda : List (Cue α ε)}
    (hfocus : s.machine.focus = .outside b) (hagenda : s.agenda = .tell t :: agenda) :
    s.Leads P manner { s with
      agenda := ((t.moves s.machine s.joined).flatMap fun m => [.move m, .note]) ++ agenda
      told := s.told ++ [(t, s.joined)] } := by
  refine .single ?_
  rw [next?_of_cue hfocus hagenda]
  rfl

/-- What a call returned is noted. -/
theorem leads_of_note {b : Bool} {agenda : List (Cue α ε)}
    (hfocus : s.machine.focus = .outside b) (hagenda : s.agenda = .note :: agenda) :
    s.Leads P manner { s with agenda, answers := s.answers ++ [b] } := by
  refine .single ?_
  rw [next?_of_cue hfocus hagenda]
  simp only [perform, hfocus]

/-- Where the outside has the turn and nothing to do, the stage ends. -/
theorem next?_eq_none {b : Bool} (hfocus : s.machine.focus = .outside b) (hagenda : s.agenda = []) :
    s.next? P manner = none := by
  have hnone : s.machine.step? P = none := by rw [State.step?, hfocus]
  simp only [next?, hnone, hagenda]

/-! ## Runs -/

theorem foldl_hear (manner : Manner α ε) (s : Stage σ α ε) (calls : List (Callback α ε × Context)) :
    (calls.foldl (fun s c => s.hear manner c.1) s).machine = s.machine ∧
      (calls.foldl (fun s c => s.hear manner c.1) s).past = s.past := by
  induction calls generalizing s with
  | nil => exact ⟨rfl, rfl⟩
  | cons c calls ih => exact ih (s.hear manner c.1)

/-- Nobody who is called is going to do anything. -/
theorem foldl_hear_idle (s : Stage σ α ε) (calls : List (Callback α ε × Context)) :
    (calls.foldl (fun s c => s.hear (fun _ _ => []) c.1) s).agenda = s.agenda := by
  induction calls generalizing s with
  | nil => rfl
  | cons c calls ih => exact ih (s.hear (fun _ _ => []) c.1)

theorem next?_run {S : State σ α ε} (hnext : s.next? P manner = some u)
    (hrun : Run P S s.past s.machine) : Run P S u.past u.machine := by
  unfold next? at hnext
  split at hnext
  next machine events hstep =>
    cases hnext
    rw [(foldl_hear manner _ _).1, (foldl_hear manner _ _).2]
    exact hrun.step hstep
  · split at hnext
    · cases hnext
    next cue agenda hagenda =>
      cases hnext
      cases cue with
      | move m =>
          unfold perform
          dsimp only
          split
          next U hmove => exact hrun.move hmove
          · exact hrun
      | tell t => exact hrun
      | note =>
          unfold perform
          dsimp only
          split <;> exact hrun

/-- What has happened on a stage is a run of the machine. -/
theorem Leads.run {ambient : Context} {agenda : List (Cue α ε)}
    (h : (Stage.start P ambient agenda).Leads P manner s) :
    Run P (.start P ambient) s.past s.machine := by
  induction h with
  | refl => exact .refl
  | tail _ hnext ih => exact next?_run hnext ih

end Stage

end Wiretap

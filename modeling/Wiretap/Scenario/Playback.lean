import Wiretap.Scenario.Session

/-!
# Playing a scenario

A scenario is a list of steps. After each step everything that it set off has come to rest, and the
report of the step says what was written meanwhile, how many endings each subscriber has received
so far, and how the source stands. There are two kinds of stage: a whole plan, on which subscribers
appear as the steps ask for them, and a single tap with its subscriber already in place.
-/

namespace Wiretap.Scenario

variable {α : Type}

/-- Which of the two drop hooks a step sets. -/
inductive DropTarget
  | errors
  | items
  | both
deriving DecidableEq

/-- A step of a scenario. -/
inductive Step (α : Type)
  /-- The next subscriber subscribes. -/
  | subscribe (manner : Manner α)
  /-- Do something on behalf of a subscriber, or from outside. -/
  | act (subscriber : Nat) (a : Action α)
  /-- Set the hooks for what is dropped. -/
  | setHooks (target : DropTarget) (hook : DropHook)
  /-- What is the ambient context? -/
  | askAmbient
  /-- How many entries begin with this? -/
  | count (start : String)
  /-- What context does the first tap carry? -/
  | askContext
  /-- Can the first tap refuse items? -/
  | askConditional

/-- What a step is answered with. -/
inductive Reply
  | nothing
  | truth (b : Bool)
  | text (t : String)
  | number (n : Nat)
  | handle (h : HandleRecord)

/-- How the source stands. -/
inductive Standing
  /-- There is nothing to say about it. -/
  | unknown
  /-- The numbers of requests and cancellations on its handle. -/
  | used (requests cancels : Nat)
  /-- Has the tap ended? -/
  | ended (b : Bool)

/-- What is said about a step. -/
structure Report where
  /-- The answer. -/
  reply : Reply
  /-- The entries written during the step. -/
  log : List String
  /-- The number of endings that each subscriber has received. -/
  terminals : List Nat
  /-- How the source stands. -/
  standing : Standing

/-- Set one or both of the hooks of a journal. -/
def setHooks (j : Journal) (target : DropTarget) (hook : DropHook) : Journal :=
  match target with
  | .errors => { j with errors := hook }
  | .items => { j with items := hook }
  | .both => { j with errors := hook, items := hook }

/-- The greatest number of machine steps and tasks that one step of a scenario may set off. A
scenario in which subscribers answer each other for ever is cut off there. -/
def stepLimit : Nat := 100000000

namespace Session

/-- Is the source driven by hand, with one handle for all lines? -/
def isManual (s : Session α) : Bool := s.plan.isDriven && s.watch.edges

/-- The tap next to the source on the first line. -/
def firstTap? (s : Session α) : Option (Tap Tally) := s.machine.tap? 0 0

/-- Has a subscriber received a handle? -/
def hasHandle (s : Session α) (k : Nat) : Bool :=
  (s.machine.lines[k]?).any fun line => !line.received.isEmpty

/-- How the source stands. -/
def standing (s : Session α) : Standing :=
  if s.watch.edges then
    match s.isManual, s.handles.head? with
    | true, some h => .used h.requests.length h.cancels
    | _, _ => .unknown
  else .ended (s.firstTap?.any (·.done))

/-- What an action is answered with, when it has come to rest. The handle that it gave has the
number `given`; others may have been given meanwhile. -/
def replyTo (s : Session α) (given : Nat) : Action α → Reply
  | .tryNext _ | .offer _ => .truth s.taken
  | .handle =>
    if s.isManual then (s.handles[given]?.map Reply.handle).getD .nothing else .nothing
  | _ => .nothing

/-- Begin an action as a step: the answers to what it offers are noted. -/
def beginStep (s : Session α) (k : Nat) (a : Action α) : Session α :=
  let s := { s with taken := true }.begin k a
  match a with
  | .tryNext _ | .offer _ => { s with agenda := s.agenda.flatMap fun task => [task, .collect] }
  | _ => s

variable [Item α] [DecidableEq α]

/-- Let everything come to rest. -/
def rest (s : Session α) : Session α := s.run stepLimit

/-- Carry out a step and give its answer. -/
def play (s : Session α) : Step α → Session α × Reply
  | .subscribe manner =>
    let subscriber := Subscriber.start manner
    let s := { s with
      subscribers := s.subscribers ++ [subscriber]
      agenda := [.move (.subscribe subscriber.client)] }
    (s.rest, .nothing)
  | .act k a =>
    let after := (s.beginStep k a).rest
    (after, after.replyTo s.handles.length a)
  | .setHooks target hook => ({ s with journal := setHooks s.journal target hook }, .nothing)
  | .askAmbient => (s, .text s.machine.ambient.text)
  | .count start => (s, .number (s.journal.log.count start))
  | .askContext => (s, (s.firstTap?.map fun t => Reply.text t.context.text).getD .nothing)
  | .askConditional =>
    (s, .truth (s.firstTap?.any fun t => t.isConditional (s.machine.isConditional 0)))

/-- Carry out a step and report on it. -/
def report (s : Session α) (step : Step α) : Session α × Report :=
  let played := s.play step
  let after := played.1
  (after, {
    reply := played.2
    log := after.journal.log.since s.journal.log.size
    terminals := after.subscribers.map (·.terminalCount)
    standing := after.standing })

/-- Carry out steps in order. -/
def reportAll (s : Session α) : List (Step α) → Session α × List Report
  | [] => (s, [])
  | step :: steps =>
    let first := s.report step
    let others := first.1.reportAll steps
    (others.1, first.2 :: others.2)

/-- A session on a plan. What the assembly of the taps writes is in the journal. -/
def onPlan (source : Source α String) (scripts : List (Script α)) (pulls : Bool)
    (ambient : Context) (journal : Journal) : Session α :=
  let plan : Plan Tally α String :=
    ⟨source, scripts.map Script.toTapPlan, TapError.describe⟩
  let lines := (scripts.zipIdx).flatMap fun e => e.1.assemblyLines e.2
  { plan
    watch := ⟨scripts, true, pulls⟩
    machine := .start plan ambient
    journal := lines.foldl Journal.write journal
    subscribers := []
    handles := match source with
      | .manual => [.unused]
      | _ => []
    joined := []
    agenda := []
    taken := true }

/-- A session on a single tap that carries `context`, with its subscriber in place and no source:
signals and handles come from outside. -/
def onTap (script : Script α) (manner : Manner α) (context : Context) (journal : Journal) :
    Session α :=
  let plan : Plan Tally α String := ⟨.manual, [script.toTapPlan], TapError.describe⟩
  let subscriber := Subscriber.start manner
  { plan
    watch := ⟨[script], false, false⟩
    machine := .startTap plan subscriber.client [] context .empty
    journal
    subscribers := [subscriber]
    handles := []
    joined := [0]
    agenda := []
    taken := true }

end Session

/-- The sequence of the items of a list. -/
def listSource (items : List α) : Source α String := .sequence fun n => items[n]?

/-- The integers from `start` on, up to but without `stop` if there is one. -/
def rangeSource (start : Int) (stop : Option Int) : Source Int String :=
  .sequence fun n =>
    let x := start + n
    if stop.all (x < ·) then some x else none

end Wiretap.Scenario

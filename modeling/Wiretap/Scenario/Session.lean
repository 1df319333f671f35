import Wiretap.Scenario.Subscriber
import Wiretap.Scenario.Narration
import Wiretap.Machine.Publisher

/-!
# Sessions

A session plays the outside of the machine: the subscribers at the ends of the lines, the source
driven by hand, and the handles that this source gives. What the outside is going to do lies on an
agenda. When the machine calls the outside, what the callee does is put before everything else, with
its answer at the end; so the agenda nests as the calls do.
-/

namespace Wiretap.Scenario

variable {α : Type}

/-- Something the outside is going to do. -/
inductive Task (α : Type)
  /-- Make a move. -/
  | move (m : Move α String)
  /-- Do something on behalf of a subscriber. -/
  | act (subscriber : Nat) (a : Action α)
  /-- Let a subscriber count an occasion and react to it. -/
  | react (subscriber : Nat) (o : Occasion)
  /-- Note whether the item offered last was taken. -/
  | collect

/-- A running scenario. -/
structure Session (α : Type) where
  /-- What has been assembled. -/
  plan : Plan Tally α String
  /-- What is being watched. -/
  watch : Watch α
  /-- The machine. -/
  machine : State Tally α String
  /-- What has been written. -/
  journal : Journal
  /-- The subscribers, one for each line. -/
  subscribers : List (Subscriber α)
  /-- The handles given from outside, by their number. -/
  handles : List HandleRecord
  /-- The lines that the source driven by hand has been joined to, oldest first. -/
  joined : List Nat
  /-- What is going to be done, next first. -/
  agenda : List (Task α)
  /-- Were all items taken that have been offered in this step? -/
  taken : Bool

namespace Session

/-- Put tasks before everything else. -/
def push (s : Session α) (tasks : List (Task α)) : Session α :=
  { s with agenda := tasks ++ s.agenda }

/-- Change a subscriber. -/
def modifySubscriber (s : Session α) (k : Nat) (f : Subscriber α → Subscriber α) : Session α :=
  { s with subscribers := s.subscribers.modify k f }

/-- What the source driven by hand does when it is told to send something. -/
def tell (s : Session α) (t : Telling α String) : List (Task α) :=
  (t.moves s.machine s.joined).map .move

/-- Begin an action of a subscriber. -/
def begin (s : Session α) (k : Nat) : Action α → Session α
  | .request n => s.push [.move (.control k 0 (.request n))]
  | .cancel => s.push [.move (.control k 0 .cancel)]
  | .next x => s.push (s.tell (.send (.next x)))
  | .tryNext x => s.push (s.tell (.tryNext x))
  | .emit xs => s.push (xs.map fun x => .act k (.next x))
  | .error e => s.push (s.tell (.send (.error e)))
  | .complete => s.push (s.tell (.send .complete))
  | .handle =>
    { s with handles := s.handles ++ [HandleRecord.unused] }.push
      (s.tell (.send (.subscribe (.external s.handles.length))))
  | .emptyHandle => s.push (s.tell (.send (.subscribe .empty)))
  | .offer x => s.push (s.tell (.send (.offer x)))
  | .controlTap c => s.push (s.joined.map fun line => .move (.direct line c))

/-- Carry out a task. -/
def perform (s : Session α) : Task α → Session α
  | .move m =>
    match s.machine.move? s.plan m with
    | some machine => { s with machine }
    | none => s
  | .act k a => s.begin k a
  | .react k o =>
    let s := s.modifySubscriber k (·.count o)
    match s.subscribers[k]? with
    | some subscriber => s.push ((subscriber.reactions o).map (.act k))
    | none => s
  | .collect =>
    match s.machine.focus with
    | .outside b => { s with taken := s.taken && b }
    | _ => s

variable [Item α] [DecidableEq α]

/-- What a subscriber asks for when it receives a handle. -/
def initialTasks (k : Nat) (subscriber : Subscriber α) : Occasion → List (Task α)
  | .subscribe =>
    if subscriber.manner.request = 0 then [] else [.act k (.request subscriber.manner.request)]
  | _ => []

/-- A subscriber receives a signal: it keeps the signal and writes it, asks for its first items,
reacts, and answers. -/
def receive (s : Session α) (k : Nat) (ambient : Context) (signal : Signal α (TapError String)) :
    Session α :=
  match s.subscribers[k]? with
  | none => s.push [.move (.answer true)]
  | some subscriber =>
    let manner := subscriber.manner
    let probed := s.journal.writeIf manner.probe (probeText "s" k ambient)
    let kept := subscriber.kept? signal
    let occasion := Subscriber.occasion kept
    let s := match kept with
      | some r =>
        { s.modifySubscriber k (·.keep r) with journal := probed.writeIf manner.logs r.entry }
      | none => { s with journal := probed }
    s.push (initialTasks k subscriber occasion ++
      [.react k occasion, .move (.answer (occasion != .reject))])

/-- The outside is called. -/
def answerCall (s : Session α) (ambient : Context) : Callback α String → Session α
  | .client k signal => s.receive k ambient signal
  | .handle id c =>
    { s with handles := s.handles.modify id (·.use c) }.push [.move (.answer true)]
  | .source line =>
    { s with joined := s.joined ++ [line] }.push ((Telling.greeting line).map .move)

/-- Hear of an event. -/
def hear (s : Session α) (event : Event α String) : Session α :=
  let s := { s with journal := s.watch.narrate s.journal event }
  match event with
  | .called c ambient => s.answerCall ambient c
  | _ => s

/-- Run the machine and the agenda until there is nothing left to do, for at most `fuel` steps and
tasks. -/
def run : Nat → Session α → Session α
  | 0, s => s
  | fuel + 1, s =>
    match s.machine.step? s.plan with
    | some (machine, events) => run fuel (events.foldl hear { s with machine })
    | none =>
      match s.agenda with
      | [] => s
      | task :: rest => run fuel ({ s with agenda := rest }.perform task)

end Session

end Wiretap.Scenario

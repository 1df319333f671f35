import Wiretap.Proofs.Machine.Fanout
import Wiretap.Proofs.Machine.Follow
import Wiretap.Proofs.Machine.Solitude
import Wiretap.Proofs.Machine.Staging
import Wiretap.Scenario.Kinds

/-!
# Lines apart

The lines of a plan share its source, its taps and the ambient context, and the work for one of them
may come in the middle of the work for another. Still they have nothing to do with each other, as
long as the listeners have not. What happens on a line is what would happen if it were the only one
and the same calls were made for it, in the same order. Faults and cancellations on other lines do
not count, nor does what the other lines do with a signal that was sent to all of them.

A listener may look at the ambient context. While a tap works, that is what its scope has made of
the context of its own line; but the set-up of a tap and a tap without a scope find what their
caller has found. So a line that is called from inside of a callback of another line can tell, if
the contexts look different to its listeners, and in no other way.
-/

namespace Wiretap

section

variable {K : Kinds} {σ α ε ν : Type} {P : Plan σ α ε} {view : Context → ν}

/-! ## Moves decide what happens -/

/-- On a stage where nobody who is called does anything, the moves of a run lead to its end. -/
theorem Run.performed {ambient : Context} {history : List (Entry α ε)} {U : State σ α ε}
    (hrun : Run P (.start P ambient) history U) (agenda : List (Cue α ε)) :
    ∃ s, (Stage.start P ambient ((moves history).map .move ++ agenda)).Leads P (fun _ _ => []) s ∧
      s.machine = U ∧ s.past = history ∧ s.agenda = agenda := by
  induction hrun generalizing agenda with
  | refl => exact ⟨_, .refl, rfl, rfl, rfl⟩
  | @step history T U events hrun hstep ih =>
      obtain ⟨s, hleads, rfl, rfl, hagenda⟩ := ih agenda
      let after := s.after U (events.map .event)
      obtain ⟨hmachine, hpast⟩ := Stage.foldl_hear (fun _ _ => []) after (called events)
      have hidle := Stage.foldl_hear_idle after (called events)
      rw [moves_append, moves_map_event, List.append_nil]
      exact ⟨_, hleads.tail (Stage.next?_of_step hstep), hmachine, hpast, hidle.trans hagenda⟩
  | @move history T U m hrun hmove ih =>
      obtain ⟨s, hleads, rfl, rfl, hagenda⟩ := ih (.move m :: agenda)
      obtain ⟨b, hturn⟩ := State.move_turn (State.move?_moved hmove)
      have hplanned : (moves (s.past ++ [.move m])).map Cue.move ++ agenda =
          (moves s.past).map .move ++ .move m :: agenda := by simp
      rw [hplanned]
      exact ⟨({ s with agenda } : Stage σ α ε).after U [.move m],
        hleads.trans (Stage.leads_of_move hturn hagenda hmove), rfl, rfl, rfl⟩

/-- Runs that come to the outside's turn by the same moves are the same. -/
theorem Run.eq_of_moves {ambient : Context} {history history' : List (Entry α ε)}
    {U U' : State σ α ε} (hrun : Run P (.start P ambient) history U)
    (hrun' : Run P (.start P ambient) history' U') (hturn : ∃ b, U.focus = .outside b)
    (hturn' : ∃ b, U'.focus = .outside b) (hmoves : moves history = moves history') :
    history = history' := by
  obtain ⟨b, hfocus⟩ := hturn
  obtain ⟨b', hfocus'⟩ := hturn'
  obtain ⟨s, hleads, rfl, rfl, hagenda⟩ := hrun.performed []
  obtain ⟨s', hleads', rfl, rfl, hagenda'⟩ := hrun'.performed []
  rw [← hmoves] at hleads'
  exact congrArg Stage.past <| Stage.Ends.unique ⟨hleads, Stage.next?_eq_none hfocus hagenda⟩
    ⟨hleads', Stage.next?_eq_none hfocus' hagenda'⟩

/-! ## Separation -/

/-- The lines of a plan have nothing to do with each other, if `view` is what can be made of an
ambient context. -/
structure Plan.Separates (P : Plan σ α ε) (view : Context → ν) : Prop where
  /-- The calls of a line can be made where it is the only line, and then the same happens on it, if
  these calls find ambient contexts that look the same. -/
  alone : ∀ {ambient home : Context} {history : List (Entry α ε)} {U : State σ α ε} {line : Nat},
    Run P (.start P ambient) history U → AtHome view line ambient home history →
      ∃ alone V, Run P (.start P home) alone V ∧ moves alone = callsOf line history ∧
        Echoes view line 0 (happened history) (happened alone) ∧
        ((∃ b, U.focus = .outside b) → ∃ b, V.focus = .outside b)
  /-- However these calls are made without any others, the same happens on the line. -/
  only : ∀ {ambient home : Context} {history alone : List (Entry α ε)} {U V : State σ α ε}
    {line : Nat}, Run P (.start P ambient) history U → Run P (.start P home) alone V →
      (∃ b, U.focus = .outside b) → (∃ b, V.focus = .outside b) →
        AtHome view line ambient home history → moves alone = callsOf line history →
          Echoes view line 0 (happened history) (happened alone)
  /-- The same happens on lines with the same calls. -/
  same : ∀ {ambient ambient' home : Context} {history history' : List (Entry α ε)}
    {U U' : State σ α ε} {line line' : Nat}, Run P (.start P ambient) history U →
      Run P (.start P ambient') history' U' → (∃ b, U.focus = .outside b) →
        (∃ b, U'.focus = .outside b) → AtHome view line ambient home history →
          AtHome view line' ambient' home history' → callsOf line history = callsOf line' history' →
            Echoes view line line' (happened history) (happened history')
  /-- The ambient contexts look the same, whatever the other lines do, if the calls of the line are
  made from inside of its own callbacks or from outside of all. -/
  inward : ∀ {ambient : Context} {history : List (Entry α ε)} {line : Nat},
    Inward line history → AtHome view line ambient ambient history
  /-- If the source is driven by hand, the signals among the calls of a line are the handle, and
  what the source has been told to send since it was joined to the line. They come in the order in
  which they were told, unless the source is driven from inside a callback. -/
  served : P.isDriven = true → ∀ {manner : Manner α ε}, manner.Obliging →
    ∀ {ambient : Context} {agenda : List (Cue α ε)}, (∀ cue ∈ agenda, cue.isSignal = false) →
      ∀ {s : Stage σ α ε}, (Stage.start P ambient agenda).Leads P manner s →
        Run P (.start P ambient) s.past s.machine ∧ ∀ line,
          (signalsTo 0 (callsOf line s.past) ++ promised line s.agenda).Perm (s.dues line) ∧
          (manner.Reticent →
            signalsTo 0 (callsOf line s.past) ++ promised line s.agenda = s.dues line)

/-- If the plan is steady, every line that is at home is followed by a run of its own. -/
theorem Plan.Steady.follows (hP : P.Steady view) {ambient home : Context}
    {history : List (Entry α ε)} {U : State σ α ε} {line : Nat}
    (hrun : Run P (.start P ambient) history U) (hhome : AtHome view line ambient home history) :
    ∃ alone V, Run P (.start P home) alone V ∧ moves alone = callsOf line history ∧
      Echoes view line 0 (happened history) (happened alone) ∧
      ((∃ b, U.focus = .outside b) → ∃ b, V.focus = .outside b) := by
  obtain ⟨alone, V, halone, haccords, hmoves, hechoes⟩ := hrun.followed hP line hhome
  refine ⟨alone, V, halone, hmoves, hechoes, fun ⟨b, hfocus⟩ => ?_⟩
  obtain ⟨b', hfocus', -⟩ := haccords.waiting hfocus
  exact ⟨b', hfocus'⟩

/-- The lines of a steady plan have nothing to do with each other. -/
theorem Plan.Steady.separates (hP : P.Steady view) : P.Separates view where
  alone hrun hhome := hP.follows hrun hhome
  only := by
    intro ambient home history alone U V line hrun hrun' hturn hturn' hhome hmoves
    obtain ⟨follower, W, hfollower, hcalls, hechoes, hwaits⟩ := hP.follows hrun hhome
    rwa [hfollower.eq_of_moves hrun' (hwaits hturn) hturn' (hcalls.trans hmoves.symm)] at hechoes
  same := by
    intro ambient ambient' home history history' U U' line line' hrun hrun' hturn hturn' hhome
      hhome' hcalls
    obtain ⟨alone, V, hfirst, hmoves, hechoes, hwaits⟩ := hP.follows hrun hhome
    obtain ⟨alone', V', hsecond, hmoves', hechoes', hwaits'⟩ := hP.follows hrun' hhome'
    obtain rfl : alone = alone' := hfirst.eq_of_moves hsecond (hwaits hturn) (hwaits' hturn')
      (hmoves.trans (hcalls.trans hmoves'.symm))
    exact hechoes.trans hechoes'.symm
  inward hinward := hinward.atHome view _
  served := by
    intro hdriven manner hmanner ambient agenda hagenda s hleads
    have hserved := (hleads.served hdriven hmanner hagenda).2
    refine ⟨hleads.run, fun line => ?_⟩
    rw [signalsTo_callsOf]
    exact ⟨hserved line, fun hreticent =>
      (hleads.served_inTurn hdriven hmanner hreticent hagenda).2 line⟩

/-- The listeners may make all of the ambient context that they like. -/
theorem Plan.steady_id (h : ∀ p ∈ P.taps, ∀ ambient n m context,
    p.create ambient n context = p.create ambient m context) : P.Steady id where
  creates := by
    rintro p hp a b rfl
    exact h p hp a
  setsUp := by
    rintro p hp a b rfl listener context
    rfl
  works := by
    rintro p hp hscope a b rfl
    rfl

/-- Passive neighbours neither send signals for the source nor tell it to send any. -/
theorem Manner.passive_cue (demands : List UInt64) (accepts : α → Bool) (past : List (Entry α ε))
    {c : Callback α ε} (hc : c.source? = none) {cue : Cue α ε}
    (hcue : cue ∈ Manner.passive demands accepts past c) :
    cue.isTell = false ∧ cue.isSignal = false := by
  cases c with
  | client line s =>
      rcases List.mem_append.mp hcue with hcue | hcue
      · cases s with
        | subscribe h =>
            obtain ⟨n, -, rfl⟩ := List.mem_map.mp hcue
            exact ⟨rfl, rfl⟩
        | _ => cases hcue
      · rw [List.mem_singleton.mp hcue]
        exact ⟨rfl, rfl⟩
  | handle id c =>
      rw [List.mem_singleton.mp hcue]
      exact ⟨rfl, rfl⟩
  | source line => cases hc

theorem Manner.passive_obliging (demands : List UInt64) (accepts : α → Bool) :
    (Manner.passive demands accepts : Manner α ε).Obliging where
  source _ _ := rfl
  others past _ hc _ hcue := (passive_cue demands accepts past hc hcue).2

theorem Manner.passive_reticent (demands : List UInt64) (accepts : α → Bool) :
    (Manner.passive demands accepts : Manner α ε).Reticent := by
  intro past c cue hcue
  cases c with
  | source line =>
      obtain ⟨m, -, rfl⟩ := List.mem_map.mp hcue
      rfl
  | client line s => exact (passive_cue demands accepts past rfl hcue).1
  | handle id c => exact (passive_cue demands accepts past rfl hcue).1

end

open scoped Scenario

/-- A tap whose listeners fail whenever one of the listed hooks runs, and do not bear to be set up
while the ambient context has entries. -/
def TapPlan.wary {α ε : Type} (failing : List String) : TapPlan Unit α ε where
  scope := .all
  create _ _ _ := .ok ()
  listener ambient := .brittle (if ambient.isEmpty then failing else "do_first" :: failing)

/-- One such tap. -/
def Plan.wary (source : Source Nat Nat) (failing : List String) : Plan Unit Nat Nat where
  source
  taps := [.wary failing]
  adapt e := e.source?.getD 0

/-- A client that carries one entry. -/
def Client.laden : Client := ⟨.singleton "request" (.bool true), false⟩

theorem Plan.wary_steady (source : Source Nat Nat) (failing : List String) :
    (Plan.wary source failing).Steady id := by
  apply Plan.steady_id
  intro p hp ambient n m context
  obtain rfl := List.mem_singleton.mp hp
  rfl

/-- From inside of a callback of the first client another one subscribes, and its tap cannot be set
up there. The first line does not notice. Later its hook for items fails. -/
theorem Plan.Steady.separates_wary :
    let P := Plan.wary .manual ["do_on_next"]
    (∃ history U, Run P (.start P .empty) history U ∧ (heardBy 0 (happened history)).length = 2 ∧
      (heardBy 1 (happened history)).length = 2 ∧ ∃ alone V, Run P (.start P .empty) alone V ∧
        (moves alone).length = 7 ∧ (heardBy 0 (happened alone)).length = 2 ∧
        ambients 0 (happened alone) = ambients 0 (happened history)) ∧
    ∀ s, (Stage.start P .empty [.move (.subscribe .plain), .move (.subscribe .plain),
        .tell (.send (.next 1))]).Leads P (.passive [] fun _ => true) s →
      signalsTo 0 (callsOf 1 s.past) ++ promised 1 s.agenda = s.dues 1 := by
  have hseparates := Plan.Steady.separates (Plan.wary_steady .manual ["do_on_next"])
  refine ⟨?_, fun s hleads => ((hseparates.served rfl (Manner.passive_obliging [] fun _ => true) ?_
    hleads).2 1).2 (Manner.passive_reticent [] fun _ => true)⟩
  · obtain ⟨history, U, hplay, hcalls, hinward, hheard, hheard'⟩ := Play.of_follow
      (P := .wary .manual ["do_on_next"])
      (S := .start (.wary .manual ["do_on_next"]) .empty) 20
      [.subscribe .laden, .signal 0 (.subscribe (.external 0)), .subscribe .plain, .answer true,
        .answer true, .answer true, .answer true, .signal 0 (.next 1), .answer true, .answer true]
      (fun history _ => (callsOf 0 history).length = 7 ∧ Inward 0 history ∧
        (heardBy 0 (happened history)).length = 2 ∧ (heardBy 1 (happened history)).length = 2)
      (by decide +kernel)
    obtain ⟨alone, V, halone, hmoves, hechoes, -⟩ :=
      hseparates.alone hplay.run (hseparates.inward hinward)
    refine ⟨history, U, hplay.run, hheard, hheard', alone, V, halone, by rw [hmoves, hcalls],
      by rw [← hechoes.heard, hheard], ?_⟩
    simpa using hechoes.ambients.symm
  · decide

/-- The first client tells the source to send another item when it gets the first one. -/
def Manner.hasty : Manner Nat Nat
  | _, .client 0 (.next 1) => [.tell (.send (.next 2)), .move (.answer true)]
  | past, c => Manner.passive [] (fun _ => true) past c

/-- Lines are not apart in two ways. Called from inside of a callback of another line, a line finds
the ambient context of that one, and a listener can tell: here its set-up fails, and the client
hears an error where it would hear a completion. And if a client drives the source from inside of
its own callback, the others get the signals in another order. -/
theorem Plan.wary_interferes :
    (∃ history U alone V,
      Play (.wary (.sequence fun _ => none) [])
        (.start (.wary (.sequence fun _ => none) []) .empty) history U ∧
      Play (.wary (.sequence fun _ => none) [])
        (.start (.wary (.sequence fun _ => none) []) .empty) alone V ∧
      (∃ b, U.focus = .outside b) ∧ (∃ b, V.focus = .outside b) ∧
      moves alone = callsOf 1 history ∧
      heardBy 0 (happened alone) = [.subscribe (.tap 0), .complete] ∧
      heardBy 1 (happened history) = [.subscribe .empty,
        .error (.listener ⟨.hook "do_first", .message "do_first"⟩)]) ∧
    ∃ s u : Stage Unit Nat Nat,
      (Stage.start (.wary .manual []) .empty [.move (.subscribe .plain), .move (.subscribe .plain),
        .tell (.send (.next 1))]).Ends (.wary .manual []) .hasty s ∧
      (Stage.start (.wary .manual []) .empty [.move (.subscribe .plain), .move (.subscribe .plain),
        .tell (.send (.next 1)), .tell (.send (.next 2))]).Ends (.wary .manual [])
        (.passive [] fun _ => true) u ∧
      s.dues 1 = u.dues 1 ∧
      heardBy 1 (happened u.past) = [.subscribe (.tap 0), .next 1, .next 2] ∧
      heardBy 1 (happened s.past) = [.subscribe (.tap 0), .next 2, .next 1] := by
  constructor
  · obtain ⟨history, U, hplay, hturn, hcalls, hheard⟩ := Play.of_follow
      (P := .wary (.sequence fun _ => none) [])
      (S := .start (.wary (.sequence fun _ => none) []) .empty) 20
      [.subscribe .laden, .subscribe .plain, .answer true, .answer true, .answer true, .answer true]
      (fun history U => (U.step? (.wary (.sequence fun _ => none) [])).isNone = true ∧
        callsOf 1 history = [.subscribe .plain, .answer true, .answer true] ∧
        heardBy 1 (happened history) = [.subscribe .empty,
          .error (.listener ⟨.hook "do_first", .message "do_first"⟩)]) (by decide +kernel)
    obtain ⟨alone, V, halone, hturn', hmoves, hheard'⟩ := Play.of_follow
      (P := .wary (.sequence fun _ => none) [])
      (S := .start (.wary (.sequence fun _ => none) []) .empty) 20
      [.subscribe .plain, .answer true, .answer true]
      (fun alone V => (V.step? (.wary (.sequence fun _ => none) [])).isNone = true ∧
        moves alone = [.subscribe .plain, .answer true, .answer true] ∧
        heardBy 0 (happened alone) = [.subscribe (.tap 0), .complete]) (by decide +kernel)
    exact ⟨history, U, alone, V, hplay, halone,
      (State.step?_eq_none_iff _).mp (Option.isNone_iff_eq_none.mp hturn),
      (State.step?_eq_none_iff _).mp (Option.isNone_iff_eq_none.mp hturn'),
      hmoves.trans hcalls.symm, hheard', hheard⟩
  · exact ⟨_, _, ⟨Stage.leads_playOut 100 _, Option.isNone_iff_eq_none.mp (by decide +kernel)⟩,
      ⟨Stage.leads_playOut 100 _, Option.isNone_iff_eq_none.mp (by decide +kernel)⟩,
      by decide +kernel, by decide +kernel, by decide +kernel⟩

end Wiretap

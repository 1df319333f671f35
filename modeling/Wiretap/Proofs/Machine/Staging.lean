import Wiretap.Proofs.Machine.Minutes
import Wiretap.Proofs.Machine.Relay
import Wiretap.Proofs.Machine.Stage
import Wiretap.Proofs.Tap.Settling

/-!
# One tap on a stage with passive neighbours

A passive client asks for some items when it gets its handle and otherwise only answers, and whoever
is behind a handle only takes note. On a stage with such an outside, a source driven by hand and a
single line behind a single tap, a call to the tap is over before anything else is done, and it
comes to what the work of the tap comes to when its neighbours answer at once.
-/

namespace Wiretap

variable {K : Kinds} {σ α ε : Type}

/-- What the event shows of the tap next to the source on the first line, and of its neighbours. -/
def Event.doing? : Event α ε → Option (Tap.Doing α ε)
  | .acted 0 0 _ act => some (.act act)
  | .called (.client 0 s) _ => some (.sent s)
  | .called (.handle _ c) _ => some (.used c)
  | _ => none

/-- What the tap next to the source on the first line does to itself and to its neighbours. -/
def doings (events : List (Event α ε)) : List (Tap.Doing α ε) := events.filterMap Event.doing?

@[simp] theorem doings_nil : doings ([] : List (Event α ε)) = [] := rfl

@[simp] theorem doings_append (first second : List (Event α ε)) :
    doings (first ++ second) = doings first ++ doings second := List.filterMap_append

@[simp] theorem doings_cons (e : Event α ε) (events : List (Event α ε)) :
    doings (e :: events) = e.doing?.toList ++ doings events := Tap.filterMap_cons_toList _ _ _

/-- Where the outside is not called, the tap has acted at most. -/
theorem doings_of_silent {events : List (Event α ε)} (h : called events = []) :
    doings events = ((deeds 0 0 events).filterMap Tap.Deed.act?).map .act := by
  induction events with
  | nil => rfl
  | cons e events ih =>
      rw [called_cons, List.append_eq_nil_iff, Option.toList_eq_nil_iff] at h
      rw [doings_cons, ih h.2, deeds_cons, List.filterMap_append, List.map_append]
      congr 1
      have hfirst := h.1
      rcases e with _ | _ | _ | _ | ⟨l, p, _, act⟩ | _ | _ | _ | _ | _ | _ | _ | ⟨c, _⟩
      case acted => rcases l with _ | l <;> rcases p with _ | p <;> rfl
      case called => cases hfirst
      all_goals
        simp only [Event.doing?, Event.deed?]
        first | rfl | (split <;> rfl)

namespace Manner

/-- What a passive client does before it returns. -/
def requests (demands : List UInt64) (line : Nat) : Signal α (TapError ε) → List (Cue α ε)
  | .subscribe _ => demands.map fun n => .move (.control line 0 (.request n))
  | _ => []

/-- Clients that ask for so many items when they get their handle, take the offers that `accepts`
marks, and do nothing else. -/
def passive (demands : List UInt64) (accepts : α → Bool) : Manner α ε
  | _, .client line s => requests demands line s ++ [.move (.answer (s.taken accepts))]
  | _, .handle _ _ => [.move (.answer true)]
  | _, .source line => (Telling.greeting line).map .move

variable {demands : List UInt64} {accepts : α → Bool}

theorem requests_of_not_subscribe {s : Signal α (TapError ε)} (hs : s.isSubscribe = false)
    (line : Nat) : (requests demands line s : List (Cue α ε)) = [] := by
  cases s with
  | subscribe h => cases hs
  | _ => rfl

end Manner

theorem Signal.answer_taken (s : Signal α ε) (accepts : α → Bool) :
    s.answer (s.taken accepts) = s.taken accepts := by
  cases s <;> rfl

/-- A single tap on a source driven by hand. -/
def Plan.driven (p : TapPlan σ α ε) (adapt : TapError ε → ε) : Plan σ α ε := ⟨.manual, [p], adapt⟩

namespace State

/-- There is one line, to this client and behind this tap, and this is the ambient context. -/
structure Single (client : Client) (received : List Handle) (t : Tap σ) (ambient : Context)
    (S : State σ α ε) : Prop where
  lines : S.lines = [⟨client, received, [some t], none⟩]
  ambient : S.ambient = ambient

/-- In the next step the tap of the line takes this turn, under the ambient context `inside`. When
it returns, the ambient context is `outside`. -/
def Takes (P : Plan σ α ε) (rest : List (Frame α ε)) (turn : Tap.Turn σ α ε)
    (inside outside : Context) (S : State σ α ε) : Prop :=
  ∃ guard events, S.step? P = some
      ((settle P { S with ambient := inside, stack := rest } 0 0 guard turn).1, events) ∧
    guard.release inside = outside ∧ called events = [] ∧ doings events = turn.acts.map .act

variable {p : TapPlan σ α ε} {adapt : TapError ε → ε} {S U : State σ α ε} {client : Client}
  {received : List Handle} {t : Tap σ} {ambient outside : Context} {rest : List (Frame α ε)}

namespace Single

theorem tap? (h : S.Single client received t ambient) : S.tap? 0 0 = some t := by
  rw [State.tap?, h.lines]
  rfl

theorem received? (h : S.Single client received t ambient) (nth : Nat) :
    S.received? 0 nth = received[nth]? := by
  rw [State.received?, h.lines]
  rfl

theorem isConditional (h : S.Single client received t ambient) :
    S.isConditional 0 = client.conditional := by
  rw [State.isConditional, h.lines]
  rfl

theorem of_setTap (h : S.Single client received t ambient) {u : Tap σ}
    (hlines : U.lines = (S.setTap 0 0 u).lines) {now : Context} (hambient : U.ambient = now) :
    U.Single client received u now := by
  refine ⟨?_, hambient⟩
  rw [hlines, State.setTap, modifyLine, h.lines]
  rfl

theorem of_lines (h : S.Single client received t ambient) (hlines : U.lines = S.lines)
    (hambient : U.ambient = S.ambient) : U.Single client received t ambient :=
  ⟨hlines.trans h.lines, hambient.trans h.ambient⟩

end Single

theorem takes_of_call {c : Call α ε} {input : Tap.Input α ε}
    (hfocus : S.focus = .call c) (hinput : c.input? = some (0, 0, input))
    (h : S.Single client received t ambient) {inside : Context}
    (hinside : (p.scope.install t.context ambient).1 = inside) :
    S.Takes (.driven p adapt) S.stack
      (t.serve (p.listener inside) (.tap 0) client.conditional input) inside ambient := by
  obtain ⟨events, hstep, hshows⟩ :=
    step?_serve_settle (P := .driven p adapt) hfocus hinput rfl h.tap?
  have hcalled := step?_silent_of_input hstep hfocus hinput
  obtain rfl := h.ambient
  obtain rfl := hinside
  rw [State.served, h.isConditional] at hstep hshows
  refine ⟨_, events, hstep, Scope.release_install _ _ _, hcalled, ?_⟩
  rw [doings_of_silent hcalled, hshows.here, List.filterMap_cons, Tap.Turn.filterMap_act?]
  rfl

theorem takes_of_back {b : Bool} {guard : Guard} {r : Tap.Resume α ε}
    (hfocus : S.focus = .back b) (hstack : S.stack = .tap 0 0 guard r :: rest)
    (h : S.Single client received t ambient) (hguard : guard.release ambient = outside) :
    S.Takes (.driven p adapt) rest (t.resume (p.listener ambient) r b) ambient outside := by
  obtain ⟨events, hstep, hshows⟩ :=
    step?_resume_settle (P := .driven p adapt) hfocus hstack rfl h.tap?
  have hcalled := step?_silent_of_back hstep hfocus
  obtain rfl := h.ambient
  refine ⟨guard, events, hstep, hguard, hcalled, ?_⟩
  rw [doings_of_silent hcalled, hshows.here, Tap.Turn.filterMap_act?]

end State

/-- A signal that brings no handle leaves nothing with the client. -/
theorem Line.receive_of_not_subscribe {s : Signal α (TapError ε)} (hs : s.isSubscribe = false)
    (l : Line σ α) : l.receive s = l := by
  cases s with
  | subscribe h => cases hs
  | _ => rfl

/-- The outside has the turn, inside of a callback or outside of all. -/
def State.Waits (S : State σ α ε) : Prop := S.stack = [] ∨ ∃ c rest, S.stack = .outside c :: rest

/-- Who waits outside gets the turn when a call returns. -/
theorem State.Waits.step? {P : Plan σ α ε} {S : State σ α ε} {b : Bool} (h : S.Waits)
    (hfocus : S.focus = .back b) :
    S.step? P = some (({ S with focus := .outside b } : State σ α ε), []) := by
  rw [State.step?, hfocus]
  rcases h with hstack | ⟨c, rest, hstack⟩ <;> simp only [hstack, resume]

namespace Stage

/-- From `s` the machine comes to a state with this tap, this ambient context, this stack and this
focus, and on the way the tap and its neighbours do all that. What the outside is going to do then
is this agenda. -/
def Comes (p : TapPlan σ α ε) (adapt : TapError ε → ε) (demands : List UInt64) (accepts : α → Bool)
    (s : Stage σ α ε) (client : Client) (received : List Handle) (t : Tap σ) (ambient : Context)
    (stack : List (Frame α ε)) (focus : Focus α ε) (agenda : List (Cue α ε))
    (log : List (Tap.Doing α ε)) : Prop :=
  ∃ U history, s.Leads (.driven p adapt) (.passive demands accepts)
      ({ s with agenda }.after U history) ∧
    U.Single client received t ambient ∧ U.stack = stack ∧ U.focus = focus ∧
    doings (happened history) = log

variable {p : TapPlan σ α ε} {adapt : TapError ε → ε} {demands : List UInt64} {accepts : α → Bool}
  {s : Stage σ α ε} {client : Client} {received received' : List Handle} {t u : Tap σ}
  {ambient ambient' inside : Context} {turn : Tap.Turn σ α ε} {rest stack stack' : List (Frame α ε)}
  {focus focus' : Focus α ε} {agenda agenda' : List (Cue α ε)} {log later : List (Tap.Doing α ε)}
  {b b' : Bool} {U : State σ α ε} {events : List (Event α ε)}

theorem Comes.trans
    (h : s.Comes p adapt demands accepts client received t ambient stack focus agenda log)
    (hlater : ∀ v : Stage σ α ε, v.agenda = agenda → v.machine.Single client received t ambient →
      v.machine.stack = stack → v.machine.focus = focus →
      v.Comes p adapt demands accepts client received' u ambient' stack' focus' agenda' later) :
    s.Comes p adapt demands accepts client received' u ambient' stack' focus' agenda'
      (log ++ later) := by
  obtain ⟨U, history, hleads, hsingle, hstack, hfocus, hlog⟩ := h
  obtain ⟨V, more, hmore, hV, hVstack, hVfocus, hVlog⟩ :=
    hlater ({ s with agenda }.after U history) rfl hsingle hstack hfocus
  have hafter : { ({ s with agenda } : Stage σ α ε).after U history with
      agenda := agenda' }.after V more = { s with agenda := agenda' }.after V (history ++ more) :=
    after_after { s with agenda := agenda' } U V history more
  rw [hafter] at hmore
  refine ⟨V, _, hleads.trans hmore, hV, hVstack, hVfocus, ?_⟩
  rw [happened_append, doings_append, hlog, hVlog]

/-! ## Single steps -/

theorem comes_of_silent (hstep : s.machine.step? (.driven p adapt) = some (U, events))
    (hsilent : called events = []) (hsingle : U.Single client received t ambient) :
    s.Comes p adapt demands accepts client received t ambient U.stack U.focus s.agenda
      (doings events) :=
  ⟨U, events.map .event, leads_of_silent hstep hsilent, hsingle, rfl, rfl, by simp⟩

/-- The machine calls somebody who is not the source. -/
theorem comes_of_ring (demands : List UInt64) (accepts : α → Bool) {c : Callback α ε}
    {now : Context} {cues : List (Cue α ε)}
    (hstep : s.machine.step? (.driven p adapt) = some (U, events))
    (hcalled : called events = [(c, now)]) (hsource : c.source? = none)
    (hmanner : ∀ past, Manner.passive demands accepts past c = cues)
    (hsingle : U.Single client received t ambient) :
    s.Comes p adapt demands accepts client received t ambient U.stack U.focus (cues ++ s.agenda)
      (doings events) := by
  have hleads : s.Leads (.driven p adapt) (.passive demands accepts) _ :=
    leads_of_ring hstep hcalled
  rw [hear_of_source?_eq_none hsource, hmanner] at hleads
  exact ⟨U, events.map .event, hleads, hsingle, rfl, rfl, by simp⟩

/-- The outside makes a move. -/
theorem comes_of_move (demands : List UInt64) (accepts : α → Bool) {m : Move α ε}
    (hfocus : s.machine.focus = .outside b) (hagenda : s.agenda = .move m :: agenda)
    (hmove : s.machine.move? (.driven p adapt) m = some U)
    (hsingle : U.Single client received t ambient) :
    s.Comes p adapt demands accepts client received t ambient U.stack U.focus agenda [] :=
  ⟨U, [.move m], leads_of_move hfocus hagenda hmove, hsingle, rfl, rfl, rfl⟩

/-- A callback returns. -/
theorem comes_of_answer {c : Callback α ε} (hfocus : s.machine.focus = .outside b')
    (hstack : s.machine.stack = .outside c :: rest)
    (hagenda : s.agenda = .move (.answer b) :: agenda)
    (hsingle : s.machine.Single client received t ambient) :
    s.Comes p adapt demands accepts client received t ambient rest (.back (c.answer b)) agenda
      [] := by
  have hmove : s.machine.move? (.driven p adapt) (.answer b) =
      some (({ s.machine with stack := rest } : State σ α ε).back (c.answer b)) := by
    simp only [State.move?, hfocus, hstack]
  exact comes_of_move demands accepts hfocus hagenda hmove (hsingle.of_lines rfl rfl)

/-- The turn goes back to the outside. -/
theorem Comes.handOver
    (h : s.Comes p adapt demands accepts client received t ambient stack (.back b) agenda log)
    (hstack : stack = [] ∨ ∃ c rest, stack = .outside c :: rest) :
    s.Comes p adapt demands accepts client received t ambient stack (.outside b) agenda log := by
  have hturn : ∀ v : Stage σ α ε, v.agenda = agenda →
      v.machine.Single client received t ambient → v.machine.stack = stack →
      v.machine.focus = .back b →
      v.Comes p adapt demands accepts client received t ambient stack (.outside b) agenda [] := by
    rintro v rfl hv rfl hvfocus
    exact comes_of_silent (State.Waits.step? hstack hvfocus) rfl (hv.of_lines rfl rfl)
  have hcomes := h.trans hturn
  rwa [List.append_nil] at hcomes

/-! ## Calls of the neighbours -/

/-- The client hears a signal that brings no handle, and answers. -/
theorem comes_of_hear (demands : List UInt64) (accepts : α → Bool) {sig : Signal α (TapError ε)}
    (hs : sig.isSubscribe = false) (hfocus : s.machine.focus = .call (.client 0 sig))
    (hsingle : s.machine.Single client received t ambient) :
    s.Comes p adapt demands accepts client received t ambient s.machine.stack
      (.back (sig.taken accepts)) s.agenda [.sent sig] := by
  let S := s.machine
  let hearing := (S.modifyLine 0 (·.receive sig)).callOutside (.client 0 sig)
  have hstep : S.step? (.driven p adapt) =
      some (hearing, [.called (.client 0 sig) S.ambient]) := by rw [State.step?, hfocus]; rfl
  have hlines : hearing.lines = S.lines := by
    change S.lines.modify 0 (·.receive sig) = S.lines
    rw [hsingle.lines, List.modify_zero_cons, Line.receive_of_not_subscribe hs]
  have hmanner : ∀ past, Manner.passive demands accepts past (.client 0 sig) =
      ([.move (.answer (sig.taken accepts))] : List (Cue α ε)) := fun past => by
    rw [Manner.passive, Manner.requests_of_not_subscribe hs, List.nil_append]
  have hring := comes_of_ring (s := s) demands accepts hstep rfl rfl hmanner
    (hsingle.of_lines hlines rfl)
  have hanswer := hring.trans fun v hagenda hv hstack hfocus =>
    comes_of_answer hfocus hstack hagenda hv
  have hcounts : (Callback.client 0 sig : Callback α ε).answer (sig.taken accepts) =
      sig.taken accepts := sig.answer_taken accepts
  rwa [hcounts, List.append_nil] at hanswer

/-- Whoever is behind a handle from outside takes note of its use. -/
theorem comes_of_use (demands : List UInt64) (accepts : α → Bool) {id : Nat} {c : Control}
    {line position : Nat}
    (hfocus : s.machine.focus = .call (.control line position (.external id) c))
    (hsingle : s.machine.Single client received t ambient) :
    s.Comes p adapt demands accepts client received t ambient s.machine.stack (.back true)
      s.agenda [.used c] := by
  let S := s.machine
  have hstep : S.step? (.driven p adapt) = some (S.callOutside (.handle id c),
      [.controlled line position c, .called (.handle id c) S.ambient]) := by
    rw [State.step?, hfocus]
    rfl
  have hring := comes_of_ring (s := s) demands accepts hstep rfl rfl
    (fun past => rfl) (hsingle.of_lines rfl rfl)
  exact hring.trans fun v hagenda hv hstack hfocus => comes_of_answer hfocus hstack hagenda hv

/-! ## Calls of the tap -/

/-- The tap takes a turn. It returns under the ambient context `ambient'`, or calls a neighbour
under that of its work. -/
theorem comes_of_takes (demands : List UInt64) (accepts : α → Bool)
    (htakes : s.machine.Takes (.driven p adapt) rest turn inside ambient')
    (hsingle : s.machine.Single client received t ambient) :
    ∃ now stack focus, s.Comes p adapt demands accepts client received turn.tap now stack focus
        s.agenda (turn.acts.map .act) ∧
      match turn.next with
      | .answer b => now = ambient' ∧ stack = rest ∧ focus = .back b
      | .down sig r => now = inside ∧ focus = .call (.client 0 sig) ∧
        ∃ guard : Guard, stack = .tap 0 0 guard r :: rest ∧ guard.release inside = ambient'
      | .up h c r => now = inside ∧ focus = .call (.control 0 0 h c) ∧
        ∃ guard : Guard, stack = .tap 0 0 guard r :: rest ∧ guard.release inside = ambient' := by
  obtain ⟨guard, events, hstep, hguard, hcalled, hlog⟩ := htakes
  rw [← hlog]
  refine ⟨_, _, _, comes_of_silent hstep hcalled (hsingle.of_setTap ?_ rfl), ?_⟩
  · unfold State.settle
    cases turn.next <;> rfl
  · unfold State.settle
    cases turn.next with
    | answer b => exact ⟨hguard, rfl, rfl⟩
    | down sig r => exact ⟨rfl, rfl, guard, rfl, hguard⟩
    | up h c r => exact ⟨rfl, rfl, guard, rfl, hguard⟩

/-- What a tap does when its neighbours answer at once is what it does here. -/
theorem comes_of_settles (h : Tap.Settles (p.listener inside) accepts turn log u b)
    (htakes : s.machine.Takes (.driven p adapt) rest turn inside ambient')
    (hsingle : s.machine.Single client received t ambient) :
    s.Comes p adapt demands accepts client received u ambient' rest (.back b) s.agenda log := by
  induction h generalizing s t ambient with
  | answer hnext =>
      obtain ⟨now, stack, focus, hcomes, hgoes⟩ := comes_of_takes demands accepts htakes hsingle
      rw [hnext] at hgoes
      obtain ⟨rfl, rfl, rfl⟩ := hgoes
      rwa [Tap.Turn.doings, hnext, Tap.Next.doings, List.append_nil]
  | down hnext hs hlater ih =>
      obtain ⟨now, stack, focus, hcomes, hgoes⟩ := comes_of_takes demands accepts htakes hsingle
      rw [hnext] at hgoes
      obtain ⟨rfl, rfl, guard, rfl, hguard⟩ := hgoes
      rw [Tap.Turn.doings, hnext, Tap.Next.doings]
      have hheard := hcomes.trans fun v hagenda hv hstack hfocus =>
        hagenda ▸ hstack ▸ comes_of_hear demands accepts hs hfocus hv
      exact hheard.trans fun v hagenda hv hstack hfocus =>
        hagenda ▸ ih (State.takes_of_back hfocus hstack hv hguard) hv
  | up hnext hlater ih =>
      obtain ⟨now, stack, focus, hcomes, hgoes⟩ := comes_of_takes demands accepts htakes hsingle
      rw [hnext] at hgoes
      obtain ⟨rfl, rfl, guard, rfl, hguard⟩ := hgoes
      rw [Tap.Turn.doings, hnext, Tap.Next.doings]
      have hused := hcomes.trans fun v hagenda hv hstack hfocus =>
        hagenda ▸ hstack ▸ comes_of_use demands accepts hfocus hv
      exact hused.trans fun v hagenda hv hstack hfocus =>
        hagenda ▸ ih (State.takes_of_back hfocus hstack hv hguard) hv

/-- The outside makes a move that calls the tap. -/
theorem comes_of_call (demands : List UInt64) {m : Move α ε} {c : Call α ε}
    {input : Tap.Input α ε} (hfocus : s.machine.focus = .outside b') (hwaits : s.machine.Waits)
    (hagenda : s.agenda = .move m :: agenda)
    (hmove : s.machine.move? (.driven p adapt) m = some (s.machine.call c))
    (hinput : c.input? = some (0, 0, input))
    (hsingle : s.machine.Single client received t ambient)
    (hinside : (p.scope.install t.context ambient).1 = inside)
    (h : Tap.Settles (p.listener inside) accepts
      (t.serve (p.listener inside) (.tap 0) client.conditional input) log u b) :
    s.Comes p adapt demands accepts client received u ambient s.machine.stack (.outside b) agenda
      log := by
  have hmoved := comes_of_move demands accepts hfocus hagenda hmove (hsingle.of_lines rfl rfl)
  have hserved := hmoved.trans fun v hagenda hv hstack hfocus =>
    hagenda ▸ hstack ▸ comes_of_settles h (State.takes_of_call hfocus hinput hv hinside) hv
  exact hserved.handOver hwaits

end Stage

end Wiretap

import Wiretap.Proofs.Machine.Staging
import Wiretap.Proofs.Tap.FastPath

/-!
# Driving a single tap by hand

On a stage with passive neighbours, a client subscribes to a single tap, and then the source is told
what to send, one thing after the other. The tap serves that list of signals, whatever it does with
each of them, and then the stage ends.
-/

namespace Wiretap

variable {K : Kinds} {σ α ε : Type}

namespace Stage

variable {p : TapPlan σ α ε} {adapt : TapError ε → ε} {demands : List UInt64} {accepts : α → Bool}
  {s : Stage σ α ε} {client : Client} {t u : Tap σ} {log more : List (Tap.Doing α ε)}
  {agenda : List (Cue α ε)} {answers given : List Bool} {b : Bool} {ambient inside : Context}

/-! ## The subscription -/

/-- From inside of a callback the client makes its requests. -/
theorem comes_of_requests {asked : List UInt64} (hfocus : s.machine.focus = .outside b)
    (hwaits : s.machine.Waits)
    (hagenda : s.agenda = asked.map (fun n => .move (.control 0 0 (.request n))) ++ agenda)
    (hsingle : s.machine.Single client [.tap 0] t ambient)
    (hinside : (p.scope.install t.context ambient).1 = inside)
    (h : Tap.Serves (p.listener inside) (.tap 0) client.conditional accepts t
      (asked.map fun n => .control (.request n)) log given u) :
    s.Comes p adapt demands accepts client [.tap 0] u ambient s.machine.stack
      (.outside (given.getLastD b)) agenda log := by
  induction asked generalizing s t b log given with
  | nil =>
      cases h
      obtain rfl : s.agenda = agenda := hagenda
      have hsame : s.after s.machine [] = s :=
        congrArg (fun past => { s with past }) (List.append_nil s.past)
      refine ⟨s.machine, [], ?_, hsingle, rfl, hfocus, rfl⟩
      change s.Leads _ _ (s.after s.machine [])
      rw [hsame]
      exact .refl
  | cons n asked ih =>
      cases h with
      | cons hfirst hlater =>
          have hmove : s.machine.move? (.driven p adapt) (.control 0 0 (.request n)) =
              some (s.machine.call (.control 0 1 (.tap 0) (.request n))) := by
            simp only [State.move?, hfocus, hsingle.received?]
            rfl
          have hcalled :=
            comes_of_call demands hfocus hwaits hagenda hmove rfl hsingle hinside hfirst
          rw [← hfirst.serve_context] at hinside
          rw [List.getLastD_cons]
          exact hcalled.trans fun v hvagenda hv hvstack hvfocus =>
            hvstack ▸ ih hvfocus (by rwa [State.Waits, hvstack]) hvagenda hv hinside hlater

/-- The client hears of its handle. -/
theorem comes_of_handle (demands : List UInt64) (accepts : α → Bool) {h : Handle}
    (hfocus : s.machine.focus = .call (.client 0 (.subscribe h)))
    (hsingle : s.machine.Single client [] t ambient) :
    s.Comes p adapt demands accepts client [h] t ambient
      (.outside (.client 0 (.subscribe h)) :: s.machine.stack) (.outside true)
      (demands.map (fun n => .move (.control 0 0 (.request n))) ++ [.move (.answer true)] ++
        s.agenda) [.sent (.subscribe h)] := by
  let S := s.machine
  let sig : Signal α (TapError ε) := .subscribe h
  let hearing := (S.modifyLine 0 (·.receive sig)).callOutside (.client 0 sig)
  have hstep : S.step? (.driven p adapt) =
      some (hearing, [.called (.client 0 sig) S.ambient]) := by rw [State.step?, hfocus]; rfl
  have hheard : hearing.Single client [h] t ambient := by
    refine ⟨?_, hsingle.ambient⟩
    change S.lines.modify 0 (·.receive sig) = _
    rw [hsingle.lines]
    rfl
  exact comes_of_ring demands accepts hstep rfl rfl (fun past => rfl) hheard

/-- The tap is given its handle and gives itself to its client, which makes its requests. -/
theorem comes_of_greeting (adapt : TapError ε → ε) {id : Nat}
    (hfocus : s.machine.focus = .outside b) (hwaits : s.machine.Waits)
    (hagenda : s.agenda = .move (.signal 0 (.subscribe (.external id))) :: agenda)
    (hsingle : s.machine.Single client [] t ambient)
    (hinside : (p.scope.install t.context ambient).1 = inside) {acts : List (Tap.Act α ε)}
    {t' : Tap σ}
    (hgives : t.serve (p.listener inside) (.tap 0) client.conditional
      (.signal (.subscribe (.external id))) = ⟨acts, t', .down (.subscribe (.tap 0)) .leave⟩)
    (hasks : Tap.Serves (p.listener inside) (.tap 0) client.conditional accepts t'
      (demands.map fun n => .control (.request n)) log given u) :
    s.Comes p adapt demands accepts client [.tap 0] u ambient s.machine.stack (.outside true)
      agenda (acts.map .act ++ [.sent (.subscribe (.tap 0))] ++ log) := by
  have hmove : s.machine.move? (.driven p adapt) (.signal 0 (.subscribe (.external id))) =
      some (s.machine.call (.tap 0 0 (.subscribe (.external id)))) := by
    simp only [State.move?, hfocus]
    rfl
  have hmoved := comes_of_move demands accepts hfocus hagenda hmove (hsingle.of_lines rfl rfl)
  -- Whatever the client calls, it calls under the scope of the tap, which is installed once more.
  have hagain : (p.scope.install t'.context inside).1 = inside := by
    have hcontext : t'.context = t.context := by
      simpa [hgives] using t.serve_context (p.listener inside) (.tap 0) client.conditional
        (.signal (.subscribe (.external id)))
    rw [hcontext, ← hinside, Scope.install_install]
  refine hmoved.trans fun v hvagenda hv hvstack hvfocus => ?_
  have htakes : v.machine.Takes (.driven p adapt) s.machine.stack
      ⟨acts, t', .down (.subscribe (.tap 0)) .leave⟩ inside ambient := by
    rw [← hgives, ← show v.machine.stack = s.machine.stack from hvstack]
    exact State.takes_of_call hvfocus rfl hv hinside
  obtain ⟨now, stack, focus, htaken, rfl, rfl, guard, rfl, hguard⟩ :=
    comes_of_takes demands accepts htakes hv
  -- The client hears of its handle, makes its requests and returns.
  have hheard := htaken.trans fun w hwagenda hw hwstack hwfocus =>
    hwagenda ▸ hwstack ▸ comes_of_handle demands accepts hwfocus hw
  have hasked := hheard.trans fun w hwagenda hw hwstack hwfocus =>
    hwstack ▸ comes_of_requests hwfocus (.inr ⟨_, _, hwstack⟩)
      (hwagenda.trans (List.append_assoc _ _ _)) hw hagain hasks
  have hanswered := hasked.trans fun w hwagenda hw hwstack hwfocus =>
    comes_of_answer hwfocus hwstack hwagenda hw
  -- The tap has nothing left to do.
  have hleave : Tap.Settles (p.listener now) accepts (u.resume (p.listener now) .leave true) []
      u true := .finish u
  have hleft := hanswered.trans fun w hwagenda hw hwstack hwfocus =>
    hwagenda ▸ comes_of_settles hleave (State.takes_of_back hwfocus hwstack hw hguard) hw
  simpa [hvagenda] using hleft.handOver hwaits

/-! ## Signals -/

/-- The client has subscribed, everything has returned, and all this has been done. -/
structure Ready (client : Client) (t : Tap σ) (ambient : Context) (log : List (Tap.Doing α ε))
    (answers : List Bool) (s : Stage σ α ε) : Prop where
  single : s.machine.Single client [.tap 0] t ambient
  stack : s.machine.stack = []
  focus : ∃ b, s.machine.focus = .outside b
  joined : s.joined = [0]
  log : doings (happened s.past) = log
  answers : s.answers = answers

/-- What returns to the outside leaves the stage ready. -/
theorem Comes.ready
    (h : s.Comes p adapt demands accepts client [.tap 0] t ambient [] (.outside b) agenda more)
    (hjoined : s.joined = [0]) (hlog : doings (happened s.past) = log) :
    ∃ v, s.Leads (.driven p adapt) (.passive demands accepts) v ∧
      v.Ready client t ambient (log ++ more) s.answers ∧ v.agenda = agenda ∧
      v.machine.focus = .outside b := by
  obtain ⟨U, history, hleads, hU, hUstack, hUfocus, hmore⟩ := h
  refine ⟨_, hleads, ⟨hU, hUstack, ⟨b, hUfocus⟩, hjoined, ?_, rfl⟩, rfl, hUfocus⟩
  change doings (happened (s.past ++ history)) = _
  rw [happened_append, doings_append, hlog, hmore]

/-- The source is told to send something. -/
theorem Ready.tell (h : s.Ready client t ambient log answers) (adapt : TapError ε → ε)
    (demands : List UInt64) {telling : Telling α ε}
    (hagenda : s.agenda = .tell telling :: agenda)
    (hinside : (p.scope.install t.context ambient).1 = inside)
    (hsettles : Tap.Settles (p.listener inside) accepts
      (t.serve (p.listener inside) (.tap 0) client.conditional
        (.signal (telling.signal client.conditional))) more u b) :
    ∃ v, s.Leads (.driven p adapt) (.passive demands accepts) v ∧
      v.Ready client u ambient (log ++ more) (answers ++ [b]) ∧ v.agenda = agenda := by
  obtain ⟨b', hfocus⟩ := h.focus
  let sig := telling.signal client.conditional
  let told : Stage σ α ε := { s with
    agenda := [.move (.signal 0 sig), .note] ++ agenda
    told := s.told ++ [(telling, s.joined)] }
  have htold : s.Leads (.driven p adapt) (.passive demands accepts) told := by
    have hcues : (telling.moves s.machine s.joined).flatMap (fun m => [.move m, .note]) =
        ([.move (.signal 0 sig), .note] : List (Cue α ε)) := by
      rw [Telling.moves, h.joined, List.map_singleton, h.single.isConditional]
      rfl
    have hleads : s.Leads (.driven p adapt) (.passive demands accepts) _ :=
      leads_of_tell hfocus hagenda
    rwa [hcues] at hleads
  have hmove : told.machine.move? (.driven p adapt) (.signal 0 sig) =
      some (told.machine.call (.tap 0 0 sig)) := by
    simp only [State.move?, told, hfocus]
    rfl
  have hcomes := comes_of_call (s := told) demands hfocus (.inl h.stack) rfl hmove rfl h.single
    hinside hsettles
  rw [show told.machine.stack = [] from h.stack] at hcomes
  obtain ⟨v, hserved, hready, hvagenda, hvfocus⟩ := hcomes.ready h.joined h.log
  have hnoted : v.Leads (.driven p adapt) (.passive demands accepts) _ :=
    leads_of_note hvfocus hvagenda
  refine ⟨_, htold.trans (hserved.trans hnoted), ?_, rfl⟩
  exact ⟨hready.single, hready.stack, hready.focus, hready.joined, hready.log, by
    rw [hready.answers, show told.answers = answers from h.answers]⟩

/-- The source is told to send one thing after the other, and then the stage ends. -/
theorem Ready.tells (h : s.Ready client t ambient log answers) (adapt : TapError ε → ε)
    (demands : List UInt64) (tellings : List (Telling α ε))
    (hagenda : s.agenda = tellings.map .tell)
    (hinside : (p.scope.install t.context ambient).1 = inside)
    (hserves : Tap.Serves (p.listener inside) (.tap 0) client.conditional accepts t
      (tellings.map fun telling => .signal (telling.signal client.conditional)) more given u) :
    ∃ v, s.Ends (.driven p adapt) (.passive demands accepts) v ∧
      v.Ready client u ambient (log ++ more) (answers ++ given) := by
  induction tellings generalizing s t log answers more given with
  | nil =>
      cases hserves
      obtain ⟨b, hfocus⟩ := h.focus
      refine ⟨s, ⟨.refl, next?_eq_none hfocus hagenda⟩, ?_⟩
      rwa [List.append_nil, List.append_nil]
  | cons telling tellings ih =>
      cases hserves with
      | cons hfirst hlater =>
          obtain ⟨v, hleads, hv, hvagenda⟩ := h.tell adapt demands hagenda hinside hfirst
          rw [← hfirst.serve_context] at hinside
          obtain ⟨w, hends, hw⟩ := ih hv hvagenda hinside hlater
          refine ⟨w, ⟨hleads.trans hends.1, hends.2⟩, ?_⟩
          simpa using hw

/-! ## The whole stage -/

/-- The tap is set up, and then the source is told of the line. -/
theorem leads_to_source (client : Client) (adapt : TapError ε → ε) (demands : List UInt64)
    (accepts : α → Bool) (ambient : Context) (agenda : List (Cue α ε)) {listener listener' : σ}
    {augmented : Context} (hcreate : p.create ambient 1 client.context = .ok listener)
    (hsetUp : Tap.setUp (p.listener ambient) listener client.context =
      ([.ran .first none, .augmented none], .ok (.start listener' augmented))) :
    ∃ s guard, (Stage.start (.driven p adapt) ambient (.move (.subscribe client) :: agenda)).Leads
        (.driven p adapt) (.passive demands accepts) s ∧
      s.machine.Single client [] (.start listener' augmented)
        (p.scope.install augmented ambient).1 ∧
      s.machine.stack = [.outside (.source 0), .joining 0 0 guard] ∧
      guard.release (p.scope.install augmented ambient).1 = ambient ∧
      s.machine.focus = .outside true ∧ s.joined = [0] ∧ s.answers = [] ∧
      s.agenda = (Telling.greeting 0).map .move ++ agenda ∧
      doings (happened s.past) = [.act (.ran .first none), .act (.augmented none)] := by
  let P : Plan σ α ε := .driven p adapt
  let first := Stage.start P ambient (.move (.subscribe client) :: agenda)
  let joining := ((State.start P ambient).addLine P client).call (.join 0 1 client.context)
  have hmove : first.machine.move? P (.subscribe client) = some joining := rfl
  let first' := { first with agenda }.after joining [.move (.subscribe client)]
  have hjoining : first.Leads P (.passive demands accepts) first' := leads_of_move rfl rfl hmove
  -- The listener is created and the tap set up.
  let installed := p.scope.install augmented ambient
  let started : State σ α ε :=
    { joining with
      lines := [⟨client, [], [some (.start listener' augmented)], none⟩]
      created := [1]
      ambient := installed.1
      stack := [.joining 0 0 installed.2]
      focus := .call (.join 0 0 augmented) }
  let events : List (Event α ε) := [.joined 0 1 client.context,
    .created 0 0 1 ambient client.context none, .acted 0 0 ambient (.ran .first none),
    .acted 0 0 ambient (.augmented none), .entered 0 0 installed.1]
  have hsetUpStep : joining.step? P = some (started, events) := by
    have hmake : joining.step? P = some (State.make P joining (.join 0 1 client.context)) := rfl
    have hplan : P.taps[0]? = some p := rfl
    have hnth : joining.created[0]?.getD 0 + 1 = 1 := rfl
    have hambient : joining.ambient = ambient := rfl
    rw [hmake, State.make, State.join, State.setUpTap]
    simp only [hplan, hnth, hambient, hcreate, hsetUp]
    rfl
  let second := first'.after started (events.map .event)
  have hstarted : first'.Leads P (.passive demands accepts) second :=
    leads_of_silent hsetUpStep rfl
  -- The source hears of the line.
  let sourced := started.callOutside (.source 0)
  have hsourceStep : started.step? P =
      some (sourced, [.joined 0 0 augmented, .called (.source 0) installed.1]) := rfl
  have hsourced : second.Leads P (.passive demands accepts) _ := leads_of_ring hsourceStep rfl
  exact ⟨_, installed.2, hjoining.trans (hstarted.trans hsourced), ⟨rfl, rfl⟩, rfl,
    Scope.release_install _ _ _, rfl, rfl, rfl, rfl, rfl⟩

/-- The call in which a tap was joined returns. -/
theorem comes_of_joining {guard : Guard} (hfocus : s.machine.focus = .back b)
    (hstack : s.machine.stack = .joining 0 0 guard :: rest)
    (hsingle : s.machine.Single client received t inside)
    (hguard : guard.release inside = ambient) :
    s.Comes p adapt demands accepts client received t ambient rest (.back true) s.agenda [] := by
  let S := s.machine
  let released := guard.release S.ambient
  let left := ({ S with stack := rest, ambient := released } : State σ α ε).back true
  have hstep : S.step? (.driven p adapt) = some (left, [.left 0 0 released]) := by
    rw [State.step?, hfocus]
    dsimp only
    rw [hstack]
    rfl
  refine comes_of_silent hstep rfl ⟨hsingle.lines, ?_⟩
  rw [← hguard, ← hsingle.ambient]
  rfl

end Stage

/-- Listeners can be created, and nothing of them fails but the hook for items, on the items that
`f` marks. -/
structure TapPlan.FailsOn (p : TapPlan σ α ε) (f : α → Bool) : Prop where
  creates : ∀ ambient nth context, ∃ listener, p.create ambient nth context = .ok listener
  listener : ∀ ambient, (p.listener ambient).FailsOn f

/-- A client that subscribes to such a tap comes to an open tap, and what has been done until then
does not depend on whether it can refuse items. -/
theorem TapPlan.FailsOn.start_ready {p : TapPlan σ α ε} {f : α → Bool} (hp : p.FailsOn f)
    (context ambient : Context) (demands : List UInt64) :
    ∃ t log inside, t.IsOpen ∧ Tap.Preliminary log [.subscribe (.tap 0)] ∧
      (p.scope.install t.context ambient).1 = inside ∧
      ∀ (adapt : TapError ε → ε) (accepts : α → Bool) (conditional : Bool)
        (agenda : List (Cue α ε)), ∃ s : Stage σ α ε,
        (Stage.start (.driven p adapt) ambient
          (.move (.subscribe ⟨context, conditional⟩) :: agenda)).Leads (.driven p adapt)
            (.passive demands accepts) s ∧
        s.Ready ⟨context, conditional⟩ t ambient log [] ∧ s.agenda = agenda := by
  obtain ⟨listener, hcreate⟩ := hp.creates ambient 1 context
  obtain ⟨listener', augmented, hsetUp⟩ :=
    Tap.setUp_of_failsOn (hp.listener ambient) listener context
  let inside := (p.scope.install augmented ambient).1
  obtain ⟨t, ht, hgives⟩ :=
    Tap.start_subscribe (.tap 0) (hp.listener inside) listener' augmented 0
  have hcontext : t.context = augmented := by
    have hserve := (Tap.start listener' augmented).serve_context (p.listener inside) (.tap 0) false
      (.signal (.subscribe (.external 0)))
    rwa [hgives false] at hserve
  obtain ⟨asked, answers, u, hu, hasked, hasks⟩ := ht.requests (.tap 0) (hp.listener inside) demands
  refine ⟨u, [.act (.ran .first none), .act (.augmented none)] ++
    ([.act (.ran .subscription none)] ++ [.sent (.subscribe (.tap 0))] ++ asked), inside, hu, ?_,
    ?_, ?_⟩
  · have hgreeted : Tap.Preliminary (α := α) (ε := ε) [.act (.ran .first none),
        .act (.augmented none), .act (.ran .subscription none), .sent (.subscribe (.tap 0))]
        [.subscribe (.tap 0)] := ⟨fun _ => rfl, rfl, rfl, rfl⟩
    exact hgreeted.append hasked
  · rw [(hasks false fun _ => true).context, hcontext]
  intro adapt accepts conditional agenda
  obtain ⟨s, guard, hleads, hsingle, hstack, hguard, hfocus, hjoined, hanswers, hagenda, hlog⟩ :=
    Stage.leads_to_source ⟨context, conditional⟩ adapt demands accepts ambient agenda hcreate
      hsetUp
  have hgreeted := Stage.comes_of_greeting adapt hfocus (.inr ⟨_, _, hstack⟩) hagenda
    hsingle (Scope.install_install _ _ _) (hgives conditional) (hasks conditional accepts)
  have hanswered := hgreeted.trans fun v hvagenda hv hvstack hvfocus =>
    Stage.comes_of_answer hvfocus (hvstack.trans hstack) hvagenda hv
  have hjoining := hanswered.trans fun v hvagenda hv hvstack hvfocus =>
    hvagenda ▸ Stage.comes_of_joining hvfocus hvstack hv hguard
  obtain ⟨v, hv, hready, hvagenda, -⟩ := (hjoining.handOver (.inl rfl)).ready hjoined hlog
  rw [List.append_nil, List.append_nil, hanswers] at hready
  exact ⟨v, hleads.trans hv, hready, hvagenda⟩

end Wiretap

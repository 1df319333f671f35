import Wiretap.Proofs.Machine.Mirror

/-!
# A chain keeps step with its source

Whatever the machine without taps does in one step, the machine with the taps does in one step or
more, and then they mirror each other again. The taps pass on what the step is about, or get out of
its way, and then the step is the same in both machines.
-/

namespace Wiretap

variable {K : Kinds} {σ α ε : Type}

namespace State

variable {P : Plan σ α ε} {S T U : State σ α ε} {events : List (Event α ε)}

/-- From `S` the machine gets to `U` by at least one step. -/
def Strides (P : Plan σ α ε) (S : State σ α ε) (d : List (Utterance α ε)) (U : State σ α ε) :
    Prop :=
  ∃ T events later, S.step? P = some (T, events) ∧ Steps P T later U ∧ told events ++ later = d

theorem Steps.stride (h : Steps P S [] T) (hstep : T.step? P = some (U, events)) :
    Strides P S (told events) U := by
  generalize hd : [] = d at h
  cases h with
  | refl => exact ⟨U, events, [], hstep, .refl U, List.append_nil _⟩
  | @step _ T' _ first d hfirst hrest =>
      obtain ⟨hfirst', rfl⟩ := List.append_eq_nil_iff.mp hd.symm
      have hlater := hrest.trans (.step hstep (.refl U))
      refine ⟨T', first, _, hfirst, hlater, ?_⟩
      rw [hfirst']
      simp

variable {client : Client} {received : List Handle} {emission : Option (Emission α)}

theorem Lined.eq_alone (h : S.Lined P client received emission) :
    ∃ taps created ambient stack focus, taps.length = P.depth ∧
      S = alone taps created client ambient received emission stack focus := by
  obtain ⟨taps, hlines, hlength⟩ := h
  obtain ⟨lines, created, ambient, stack, focus⟩ := S
  cases hlines
  exact ⟨taps, created, ambient, stack, focus, hlength, rfl⟩

theorem Manned.of_alone {taps : List (Option (Tap σ))} {created created' : List Nat}
    {client client' : Client} {ambient ambient' : Context} {received received' : List Handle}
    {emission emission' : Option (Emission α)} {stack stack' : List (Frame α ε)}
    {focus focus' : Focus α ε} {given : Option Handle} {live : Prop} {k : Nat}
    (h : (alone taps created client ambient received emission stack focus).Manned given live k) :
    (alone taps created' client' ambient' received' emission' stack' focus').Manned given live k :=
  h

end State

namespace Mirrors

variable {P : Plan σ α ε} {client : Client} {ambient : Context} {S S₀ U₀ : State σ α ε}
  {events : List (Event α ε)}

/-- The machine with the taps has matched a step of the other one: what the client has been told,
the taps have conveyed. -/
def Matched (P : Plan σ α ε) (client : Client) (ambient : Context) (S U₀ : State σ α ε)
    (events : List (Event α ε)) : Prop :=
  ∃ U d, S.Strides P d U ∧ Mirrors P client ambient U₀ U ∧ P.Conveys (told events) d

theorem Matched.of_quiet {T U : State σ α ε} {events' : List (Event α ε)}
    (hsteps : State.Steps P S [] T) (hstep : T.step? P = some (U, events'))
    (hquiet : heardBy 0 events = []) (hquiet' : heardBy 0 events' = [])
    (h : Mirrors P client ambient U₀ U) : Matched P client ambient S U₀ events := by
  have hstride := hsteps.stride hstep
  rw [told, hquiet'] at hstride
  refine ⟨U, [], hstride, h, ?_⟩
  rw [told, hquiet]
  exact .nil

/-- A source that is not driven has items, or it ends its stream. -/
theorem source_cases (hdriven : P.isDriven = false) :
    (∃ x, P.Ends x) ∨ ∃ pull x, P.source = .sequence pull ∧ pull 0 = some x := by
  cases hsource : P.source with
  | empty => exact .inl ⟨none, .empty hsource⟩
  | failed e => exact .inl ⟨some e, .failed hsource⟩
  | manual => simp [Plan.isDriven, hsource] at hdriven
  | sequence pull =>
      cases hpull : pull 0 with
      | some x => exact .inr ⟨pull, x, rfl, hpull⟩
      | none => exact .inl ⟨none, .exhausted hsource hpull⟩

theorem sourceSignal_bare (s : Signal α ε) :
    P.bare.sourceSignal 0 s = .client 0 (s.mapError .source) := State.sourceSignal_solo rfl s

theorem join (hP : P.Faultless) (hdriven : P.isDriven = false) {context context' : Context}
    (hlined : S.Lined P client [] none) (hstack : S.stack = [])
    (hfocus : S.focus = .call (.join 0 P.depth context'))
    (hstep : (State.solo client ambient [] none [] (.call (.join 0 0 context)) :
      State σ α ε).step? P.bare = some (U₀, events)) :
    Matched P client ambient S U₀ events := by
  obtain ⟨T, veil, context', hsteps, hT, hTfocus, hTstack, hframes, hmanned⟩ :=
    hlined.assemble hP (Nat.le_refl _) hfocus fun j hj hlt => absurd hlt (Nat.not_lt.mpr hj)
  obtain ⟨taps, created, ambient', veil', focus, hlength, rfl⟩ := hT.eq_alone
  obtain rfl : focus = .call (.join 0 0 context') := hTfocus
  obtain rfl : veil' = veil := by rwa [hstack, List.append_nil] at hTstack
  rcases source_cases hdriven with ⟨x, hends⟩ | ⟨pull, x, hsource, hpull⟩
  · have hstep₀ : ∃ events₀, (State.solo client ambient [] none [] (.call (.join 0 0 context)) :
        State σ α ε).step? P.bare = some (.solo client ambient [] none [.ending 0 x]
          (.call (P.bare.sourceSignal 0 (.subscribe .empty))), events₀) ∧
        heardBy 0 events₀ = [] := State.step?_endStream hends.bare context
    have hstep' : ∃ events', (State.alone taps created client ambient' [] none veil'
        (.call (.join 0 0 context')) : State σ α ε).step? P = some (.alone taps created client
          ambient' [] none (.ending 0 x :: veil') (.call (P.sourceSignal 0 (.subscribe .empty))),
          events') ∧ heardBy 0 events' = [] := State.step?_endStream hends context'
    obtain ⟨events₀, hstep₀, hquiet₀⟩ := hstep₀
    obtain ⟨events', hstep', hquiet'⟩ := hstep'
    rw [hstep₀, sourceSignal_bare] at hstep
    cases hstep
    refine .of_quiet hsteps hstep' hquiet₀ hquiet' ?_
    change Mirrors P client ambient (.solo client ambient (Option.toList none) none _
      (.call (.client 0 (Signal.mapError .source (.subscribe .empty))))) _
    exact .sending (.greeting hends hframes) ⟨taps, rfl, hlength⟩ hmanned (.greeting x) rfl
  · have hstep₀ : (State.solo client ambient [] none [] (.call (.join 0 0 context)) :
        State σ α ε).step? P.bare = some (.solo client ambient [] (some (.start x)) []
          (.call (P.bare.sourceSignal 0 (.subscribe .emission))),
          [.joined 0 0 context, .pulled 0 (some x)]) :=
      State.step?_start (show P.bare.source = _ from hsource) hpull context
    rw [hstep₀, sourceSignal_bare] at hstep
    cases hstep
    refine .of_quiet hsteps (State.step?_start hsource hpull context') rfl rfl ?_
    change Mirrors P client ambient (.solo client ambient (Option.toList none) _ _
      (.call (.client 0 (Signal.mapError .source (.subscribe .emission))))) _
    exact .sending (.start hsource x hframes) ⟨taps, rfl, hlength⟩ hmanned (.start x) rfl

theorem hear (hP : P.Faultless) {given : Option Handle} {emission : Option (Emission α)}
    {stack₀ : List (Frame α ε)} {s : Signal α ε}
    (h : Mirrored P client given emission stack₀ S.stack)
    (hlined : S.Lined P client (given.toList.map (·.behind P.depth)) emission)
    (hmanned : ∀ j < P.depth, S.Manned given True j)
    (hdue : Due P client given emission stack₀ s) (hfocus : S.focus = .call (P.arrival s 0))
    (hstep : (State.solo client ambient given.toList emission stack₀
      (.call (.client 0 (s.mapError .source))) : State σ α ε).step? P.bare = some (U₀, events)) :
    Matched P client ambient S U₀ events := by
  obtain ⟨T, veil, hsteps, hT, hTfocus, hTstack, hframes, hmannedT⟩ :=
    hlined.descend hP hdue.isNew hdue.offer (Nat.zero_add _) hfocus
      (fun j hj => absurd hj (Nat.not_lt_zero j)) fun j _ hj => hmanned j hj
  obtain ⟨taps, created, ambient', stack, focus, hlength, rfl⟩ := hT.eq_alone
  obtain rfl : focus = .call (.client 0 (P.delivered s)) := by
    rw [← P.arrival_depth]
    exact hTfocus
  obtain rfl : stack = veil ++ S.stack := hTstack
  rw [State.step?_client] at hstep
  cases hstep
  have hstride := hsteps.stride (State.step?_client (P.delivered s))
  obtain ⟨hheard, hveiled⟩ := hdue.heard h hframes
  refine ⟨_, _, hstride, ?_, hdue.conveys⟩
  rw [hdue.received_bare]
  refine .outside hheard ⟨taps, ?_, hlength⟩ (fun j hj => ?_) (.client hdue.offering hveiled) rfl
  · rw [← hdue.received, ← P.delivered_handle?]
    rfl
  · refine ((hmannedT j hj).weaken fun hgoing => hdue.going ?_).of_alone
    refine hgoing.imp_right fun ⟨x, hx⟩ => ⟨x, ?_⟩
    exact (List.mem_cons.mp hx).resolve_left fun heq => nomatch heq

section

variable {handle : Handle} {emission : Option (Emission α)} {stack₀ : List (Frame α ε)}

/-- A request for nothing goes no further than the last tap. -/
theorem step?_askNothing (hgranted : Granted emission handle) {live : Prop}
    (hlined : S.Lined P client [handle.behind P.depth] emission)
    (hmanned : ∀ j < P.depth, S.Manned (some handle) live j)
    (hfocus : S.focus = .call (.control 0 P.depth (handle.behind P.depth) (.request 0))) :
    ∃ U events, S.step? P = some (U, events) ∧ heardBy 0 events = [] ∧
      U.Lined P client [handle.behind P.depth] emission ∧ U.stack = S.stack ∧
      U.focus = .back true ∧ ∀ j < P.depth, U.Manned (some handle) live j := by
  cases hdepth : P.depth with
  | zero =>
      rw [hdepth] at hlined hfocus
      obtain ⟨taps, created, ambient', stack, focus, hlength, rfl⟩ := hlined.eq_alone
      cases hfocus
      have hnone : ∀ j < 0, ∀ U : State σ α ε, U.Manned (some handle) live j :=
        fun j hj => absurd hj (Nat.not_lt_zero j)
      rcases hgranted with ⟨rfl, rfl⟩ | ⟨rfl, hsome⟩
      · exact ⟨_, _, State.step?_nothing _, rfl, ⟨taps, rfl, hlength⟩, rfl, rfl,
          fun j hj => hnone j hj _⟩
      · obtain ⟨e, rfl⟩ := Option.isSome_iff_exists.mp hsome
        exact ⟨_, _, State.step?_request_zero, rfl, ⟨taps, rfl, hlength⟩, rfl, rfl,
          fun j hj => hnone j hj _⟩
  | succ k =>
      rw [hdepth] at hlined hfocus hmanned
      have hk : k < P.depth := by omega
      obtain ⟨p, hplan, hmem⟩ := State.plan_of_lt hk
      obtain ⟨t, htap, ht⟩ := hmanned k (Nat.lt_succ_self k)
      obtain ⟨U, events, hstep, hshows, hturned⟩ := State.step?_serve hfocus rfl hplan htap
      have hgoes :
          (S.served p t 0 k (.control (.request 0))).Goes (.answer true) (some handle) live k :=
        ht.obey_zero (S.isConditional 0)
      have hlined' := (hturned.lined hgoes hlined hk).1
      have hnext := hturned.next
      rw [hgoes.next] at hnext
      have hmannedU := hturned.manned hgoes hlined hk (by rwa [hdepth])
      rw [hdepth] at hmannedU
      exact ⟨U, events, hstep, hshows.clients 0, hlined', hnext.1, hnext.2, hmannedU⟩

theorem askNothing (h : Mirrored P client (some handle) emission stack₀ S.stack)
    (hlined : S.Lined P client [handle.behind P.depth] emission)
    (hmanned : ∀ j < P.depth, S.Manned (some handle) (Going emission stack₀) j)
    (hfocus : S.focus = .call (.control 0 P.depth (handle.behind P.depth) (.request 0)))
    (hstep : (State.solo client ambient [handle] emission stack₀
      (.call (.control 0 0 handle (.request 0))) : State σ α ε).step? P.bare = some (U₀, events)) :
    Matched P client ambient S U₀ events := by
  have hgranted := h.granted handle rfl
  obtain ⟨U, events', hstep', hquiet', hU, hUstack, hUfocus, hmannedU⟩ :=
    step?_askNothing hgranted hlined hmanned hfocus
  have hback : U₀ = .solo client ambient [handle] emission stack₀ (.back true) ∧
      heardBy 0 events = [] := by
    rcases hgranted with ⟨rfl, rfl⟩ | ⟨rfl, hsome⟩
    · rw [State.step?_nothing] at hstep
      cases hstep
      exact ⟨rfl, rfl⟩
    · obtain ⟨e, rfl⟩ := Option.isSome_iff_exists.mp hsome
      rw [State.step?_request_zero] at hstep
      cases hstep
      exact ⟨rfl, rfl⟩
  obtain ⟨rfl, hquiet⟩ := hback
  refine .of_quiet (.refl S) hstep' hquiet hquiet' ?_
  rw [← hUstack] at h
  exact .back h hU hmannedU (fun hb => nomatch hb) hUfocus

theorem ask (hP : P.Faultless) {c : Control}
    (h : Mirrored P client (some handle) emission stack₀ S.stack)
    (hlined : S.Lined P client [handle.behind P.depth] emission)
    (hmanned : ∀ j < P.depth, S.Manned (some handle) (Going emission stack₀) j)
    (hcancel : c.isCancel = true → ∀ x, .ending 0 x ∉ stack₀) (htop : atEmission stack₀ = false)
    (hfocus : S.focus = .call (.control 0 P.depth (handle.behind P.depth) c))
    (hstep : (State.solo client ambient [handle] emission stack₀
      (.call (.control 0 0 handle c)) : State σ α ε).step? P.bare = some (U₀, events)) :
    Matched P client ambient S U₀ events := by
  have hgranted := h.granted handle rfl
  by_cases hc : c = .request 0
  · subst hc
    exact askNothing h hlined hmanned hfocus hstep
  obtain ⟨T, veil, hsteps, hT, hTfocus, hTstack, hframes, hmannedT⟩ :=
    hlined.ascend hP hc (Nat.le_refl _) hfocus hmanned
  obtain ⟨taps, created, ambient', stack, focus, hlength, rfl⟩ := hT.eq_alone
  obtain rfl : focus = .call (.control 0 0 handle c) := hTfocus
  obtain rfl : stack = veil ++ S.stack := hTstack
  -- The veil fits whatever becomes of the emission, unless a cancellation leaves it going.
  have hcover : ∀ {emission' : Option (Emission α)},
      Mirrored P client (some handle) emission' stack₀ S.stack →
      (c.isCancel = true → ¬Going emission' stack₀) →
      Mirrored P client (some handle) emission' stack₀ (veil ++ S.stack) := by
    intro emission' hmirrored hdead
    refine hmirrored.cover (fun f hf => (hframes f hf).1) (fun _ hemission => ?_)
      fun f hf hreleased => hdead ?_
    · rw [htop] at hemission
      cases hemission
    · rw [← (hframes f hf).2.1]
      exact hreleased
  rcases hgranted with ⟨rfl, rfl⟩ | ⟨rfl, hsome⟩
  · rw [State.step?_nothing] at hstep
    cases hstep
    refine .of_quiet hsteps (State.step?_nothing c) rfl rfl ?_
    refine .back (hcover h fun hc hgoing => ?_) ⟨taps, rfl, hlength⟩
      (fun j hj => (hmannedT j hj).of_alone) (fun hb => nomatch hb) rfl
    rcases hgoing with ⟨e, heq, -⟩ | ⟨x, hx⟩
    · cases heq
    · exact hcancel hc x hx
  · obtain ⟨e, rfl⟩ := Option.isSome_iff_exists.mp hsome
    cases c with
    | request n =>
        have hn : n ≠ 0 := fun heq => hc (congrArg Control.request heq)
        rw [State.step?_request hn] at hstep
        cases hstep
        refine .of_quiet hsteps (State.step?_request hn) rfl rfl ?_
        have hmirrored : Mirrored P client (some .emission) (some (e.request n)) stack₀ S.stack :=
          h.goOn id (h.spent e rfl) id
        have hgoing : Going (some (e.request n)) stack₀ → Going (some e) stack₀ :=
          fun hgoing => h.going_iff.mpr (hmirrored.going_iff.mp hgoing)
        have hcovered := hcover hmirrored fun hb => nomatch hb
        split
        · exact .looping hcovered ⟨taps, rfl, hlength⟩
            (fun j hj => ((hmannedT j hj).weaken hgoing).of_alone) rfl
        · exact .back hcovered ⟨taps, rfl, hlength⟩
            (fun j hj => ((hmannedT j hj).weaken hgoing).of_alone) (fun hb => nomatch hb) rfl
    | cancel =>
        rw [State.step?_cancel] at hstep
        cases hstep
        refine .of_quiet hsteps State.step?_cancel rfl rfl ?_
        have hmirrored : Mirrored P client (some .emission) (some e.cancel) stack₀ S.stack :=
          h.goOn (fun hb => nomatch hb) (fun _ => .inl rfl) id
        have hdead : ¬Going (some e.cancel) stack₀ := fun hgoing =>
          nomatch hmirrored.going_iff.mp hgoing
        exact .back (hcover hmirrored fun _ => hdead) ⟨taps, rfl, hlength⟩
          (fun j hj => ((hmannedT j hj).weaken fun hgoing => (hdead hgoing).elim).of_alone)
          (fun hb => nomatch hb) rfl

end

section

variable {given : Option Handle} {e : Emission α} {stack₀ stack : List (Frame α ε)}
  {taps : List (Option (Tap σ))} {created : List Nat} {ambient' : Context}
  {focus₀ focus : Focus α ε}

/-- An emission that has handed out its last item completes, or keeps quiet if it was cancelled. -/
theorem complete (h : Mirrored P client given (some e) stack₀ stack)
    (hlength : taps.length = P.depth)
    (hmanned : ∀ j < P.depth, (State.alone taps created client ambient'
      (given.toList.map (·.behind P.depth)) (some e) stack focus).Manned given
        (e.attached = true) j) (hahead : e.ahead = none) :
    Mirrors P client ambient
      (State.completeEmission P.bare
        (.solo client ambient given.toList (some e) stack₀ focus₀) 0 e)
      (State.completeEmission P
        (.alone taps created client ambient' (given.toList.map (·.behind P.depth)) (some e) stack
          focus) 0 e) := by
  rw [State.completeEmission_alone, State.completeEmission_alone, sourceSignal_bare]
  split
  next hmay =>
    have hattached : e.attached = true := (Bool.and_eq_true_iff.mp hmay).2
    have hpushed := h.detach hahead
    exact .sending (s := .complete) hpushed ⟨taps, rfl, hlength⟩
      (fun j hj => ((hmanned j hj).weaken fun _ => hattached).of_alone) (.complete rfl hpushed) rfl
  next =>
    exact .back h ⟨taps, rfl, hlength⟩
      (fun j hj => ((hmanned j hj).weaken h.going_iff.mp).of_alone) (fun hb => nomatch hb) rfl

theorem loop {m : UInt64} (h : Mirrored P client given (some e) stack₀ S.stack)
    (hlined : S.Lined P client (given.toList.map (·.behind P.depth)) (some e))
    (hmanned : ∀ j < P.depth, S.Manned given (Going (some e) stack₀) j)
    (hfocus : S.focus = .call (.emit 0 m))
    (hstep : (State.solo client ambient given.toList (some e) stack₀ (.call (.emit 0 m)) :
      State σ α ε).step? P.bare = some (U₀, events)) :
    Matched P client ambient S U₀ events := by
  obtain ⟨pull, hsource⟩ := h.sequence e rfl
  have hsource₀ : P.bare.source = .sequence pull := hsource
  obtain ⟨taps, created, ambient', stack, focus, hlength, rfl⟩ := hlined.eq_alone
  obtain rfl : focus = .call (.emit 0 m) := hfocus
  cases hverdict : e.verdict m with
  | stop =>
      rw [State.step?_stop hsource₀ hverdict] at hstep
      cases hstep
      refine .of_quiet (.refl _) (State.step?_stop hsource hverdict) rfl rfl ?_
      exact .back h ⟨taps, rfl, hlength⟩ (fun j hj => (hmanned j hj).of_alone)
        (fun hb => nomatch hb) rfl
  | settle =>
      rw [State.step?_settle hsource₀ hverdict] at hstep
      cases hstep
      refine .of_quiet (.refl _) (State.step?_settle hsource hverdict) rfl rfl ?_
      have hsettled : Mirrored P client given (some (e.settle m)) stack₀ stack :=
        h.goOn id (h.spent e rfl) id
      have hgoing : Going (some (e.settle m)) stack₀ → Going (some e) stack₀ :=
        fun hgoing => h.going_iff.mpr (hsettled.going_iff.mp hgoing)
      split
      · exact .back hsettled ⟨taps, rfl, hlength⟩
          (fun j hj => ((hmanned j hj).weaken hgoing).of_alone) (fun hb => nomatch hb) rfl
      · exact .looping hsettled ⟨taps, rfl, hlength⟩
          (fun j hj => ((hmanned j hj).weaken hgoing).of_alone) rfl
  | deliver =>
      cases hahead : e.ahead with
      | none =>
          rw [State.step?_exhausted hsource₀ hverdict hahead] at hstep
          cases hstep
          refine .of_quiet (.refl _) (State.step?_exhausted hsource hverdict hahead) rfl rfl ?_
          exact complete h hlength (fun j hj => (hmanned j hj).weaken h.going_iff.mpr) hahead
      | some x =>
          rw [State.step?_deliver hsource₀ hverdict hahead, sourceSignal_bare] at hstep
          cases hstep
          refine .of_quiet (.refl _) (State.step?_deliver hsource hverdict hahead) rfl rfl ?_
          have hattached := h.attached hverdict hahead
          have hpushed := h.advance hahead hattached pull m
          exact .sending (s := client.item x) hpushed ⟨taps, rfl, hlength⟩
            (fun j hj => ((hmanned j hj).weaken fun _ => h.going_iff.mpr hattached).of_alone)
            (.item x hpushed) rfl

end

section

variable {given : Option Handle} {emission : Option (Emission α)} {f₀ f : Frame α ε}
  {stack₀ rest : List (Frame α ε)} {taps : List (Option (Tap σ))} {created : List Nat}
  {ambient' : Context} {b : Bool}

/-- A call returns, and no veil is in the way. -/
theorem resume (h : Mirrored P client given emission (f₀ :: stack₀) (f :: rest))
    (hlength : taps.length = P.depth)
    (hmanned : ∀ j < P.depth, (State.alone taps created client ambient'
      (given.toList.map (·.behind P.depth)) emission (f :: rest) (.back b)).Manned given
        (Going emission (f₀ :: stack₀)) j)
    (halike : f₀.Alike P f)
    (hoffering : f₀.isOffering = true → client.conditional = true ∧ atEmission stack₀ = true)
    (hveiled : Veiled P client.conditional stack₀ rest)
    (hstep : (State.solo client ambient given.toList emission (f₀ :: stack₀) (.back b) :
      State σ α ε).step? P.bare = some (U₀, events)) :
    heardBy 0 events = [] ∧ ∃ U events',
      (State.alone taps created client ambient' (given.toList.map (·.behind P.depth)) emission
        (f :: rest) (.back b)).step? P = some (U, events') ∧ heardBy 0 events' = [] ∧
      Mirrors P client ambient U₀ U := by
  have hpopped := h.pop hveiled
  have hgoing : Going emission stack₀ → Going emission (f₀ :: stack₀) :=
    fun hgoing => hgoing.imp_right fun ⟨x, hx⟩ => ⟨x, List.mem_cons_of_mem _ hx⟩
  cases halike with
  | ending x =>
      rw [State.step?_end, sourceSignal_bare] at hstep
      cases hstep
      refine ⟨rfl, _, _, State.step?_end, rfl, ?_⟩
      obtain ⟨rfl, -, herror, hstack | ⟨s, -, hstack⟩⟩ := h.ending x List.mem_cons_self
      · cases hstack
        exact .sending (s := .ofEnd x) hpopped ⟨taps, rfl, hlength⟩
          (fun j hj => ((hmanned j hj).weaken fun _ => .inr ⟨x, List.mem_cons_self⟩).of_alone)
          (.ofEnd herror) rfl
      · cases hstack
  | emitting m last =>
      obtain ⟨e, rfl, hlast⟩ := h.emitting m last List.mem_cons_self
      have hattached : e.attached = true → Going (some e) (.emitting 0 m last :: stack₀) :=
        fun hattached => .inl ⟨e, rfl, hattached⟩
      cases last with
      | true =>
          rw [State.step?_last] at hstep
          cases hstep
          refine ⟨rfl, _, _, State.step?_last, rfl, ?_⟩
          exact complete hpopped hlength
            (fun j hj => ((hmanned j hj).weaken hattached).of_alone) (hlast rfl)
      | false =>
          rw [State.step?_goOn] at hstep
          cases hstep
          refine ⟨rfl, _, _, State.step?_goOn, rfl, ?_⟩
          exact .looping hpopped ⟨taps, rfl, hlength⟩
            (fun j hj => ((hmanned j hj).weaken hgoing).of_alone) rfl
  | completing =>
      rw [State.step?_completed] at hstep
      cases hstep
      refine ⟨rfl, _, _, State.step?_completed, rfl, ?_⟩
      exact .back hpopped ⟨taps, rfl, hlength⟩
        (fun j hj => ((hmanned j hj).weaken hgoing).of_alone) (fun hb => nomatch hb) rfl
  | client s =>
      rw [State.step?_handOver .callback] at hstep
      cases hstep
      refine ⟨rfl, _, _, State.step?_handOver .callback, rfl, ?_⟩
      refine .outside h ⟨taps, rfl, hlength⟩ (fun j hj => (hmanned j hj).of_alone)
        (.client (fun hs => hoffering ?_) hveiled) rfl
      cases s <;> exact hs

theorem comeBack (hP : P.Faultless) (h : Mirrored P client given emission stack₀ S.stack)
    (hlined : S.Lined P client (given.toList.map (·.behind P.depth)) emission)
    (hmanned : ∀ j < P.depth, S.Manned given (Going emission stack₀) j)
    (hb : b = false → client.conditional = true ∧ atEmission stack₀ = true)
    (hfocus : S.focus = .back b)
    (hstep : (State.solo client ambient given.toList emission stack₀ (.back b) :
      State σ α ε).step? P.bare = some (U₀, events)) :
    Matched P client ambient S U₀ events := by
  have hreleased : ∀ {veil rest : List (Frame α ε)}, S.stack = veil ++ rest →
      ∀ f ∈ veil, f.isReleased = true → ¬Going emission stack₀ := by
    intro veil rest hstack f hf
    exact h.released f (by rw [hstack]; exact List.mem_append_left _ hf)
  have hveiled := h.veiled
  generalize hstack : S.stack = stack at hveiled
  cases hveiled with
  | nil hveil =>
      rw [← List.append_nil stack] at hstack
      obtain ⟨T, hsteps, hT, hTfocus, hTstack, hmannedT⟩ :=
        hlined.lift hP hfocus hstack hveil (fun hfalse => nomatch (hb hfalse).2)
          (hreleased hstack) hmanned
      obtain ⟨taps, created, ambient', stack', focus, hlength, rfl⟩ := hT.eq_alone
      obtain rfl : focus = .back b := hTfocus
      obtain rfl : stack' = [] := hTstack
      rw [State.step?_handOver .nil] at hstep
      cases hstep
      refine .of_quiet hsteps (State.step?_handOver .nil) rfl rfl ?_
      have hbare : Mirrored P client given emission [] [] :=
        h.uncover (.nil fun f hf => absurd hf List.not_mem_nil)
          fun f hf => absurd hf List.not_mem_nil
      exact .outside hbare ⟨taps, rfl, hlength⟩ (fun j hj => (hmannedT j hj).of_alone) .nil rfl
  | @cons f₀ f stack₀ rest veil hveil hoffered halike hoffering hrest =>
      obtain ⟨T, hsteps, hT, hTfocus, hTstack, hmannedT⟩ :=
        hlined.lift hP hfocus hstack hveil
          (fun hfalse => hoffered (hb hfalse).1 (hb hfalse).2) (hreleased hstack) hmanned
      obtain ⟨taps, created, ambient', stack', focus, hlength, rfl⟩ := hT.eq_alone
      obtain rfl : focus = .back b := hTfocus
      obtain rfl : stack' = f :: rest := hTstack
      have hbare : Mirrored P client given emission (f₀ :: stack₀) (f :: rest) := by
        refine h.uncover (hrest.push halike hoffering) fun g hg => ?_
        rw [hstack]
        exact List.mem_append_right _ hg
      obtain ⟨hquiet, U, events', hstep', hquiet', hU⟩ :=
        resume hbare hlength hmannedT halike hoffering hrest hstep
      exact .of_quiet hsteps hstep' hquiet hquiet' hU

end

/-- A step of the machine without taps is matched. -/
theorem step (hP : P.Faultless) (hdriven : P.isDriven = false) (h : Mirrors P client ambient S₀ S)
    (hstep : S₀.step? P.bare = some (U₀, events)) : Matched P client ambient S U₀ events := by
  cases h with
  | joining hlined hstack hfocus => exact join hP hdriven hlined hstack hfocus hstep
  | sending h hlined hmanned hdue hfocus => exact hear hP h hlined hmanned hdue hfocus hstep
  | asking h hlined hmanned hcancel htop hfocus =>
      exact ask hP h hlined hmanned hcancel htop hfocus hstep
  | looping h hlined hmanned hfocus => exact loop h hlined hmanned hfocus hstep
  | back h hlined hmanned hb hfocus => exact comeBack hP h hlined hmanned hb hfocus hstep
  | outside h hlined hmanned hbared hfocus => cases hstep

/-- The client has the turn in both machines, or in neither. -/
theorem turn_iff (h : Mirrors P client ambient S₀ S) :
    (∃ b, S₀.focus = .outside b) ↔ ∃ b, S.focus = .outside b := by
  cases h with
  | outside _ _ _ _ hfocus => exact ⟨fun _ => ⟨_, hfocus⟩, fun _ => ⟨_, rfl⟩⟩
  | joining _ _ hfocus | sending _ _ _ _ hfocus | asking _ _ _ _ _ hfocus
  | looping _ _ _ hfocus | back _ _ _ _ hfocus =>
      rw [hfocus]
      constructor
      · rintro ⟨b, hb⟩
        cases hb
      · rintro ⟨b, hb⟩
        cases hb

/-- Both clients are in a callback with the same kind of signal, or in none. -/
theorem callback (h : Mirrors P client ambient S₀ S) {b : Bool} (hturn : S.focus = .outside b) :
    S₀.callback?.map Signal.isSubscribe = S.callback?.map Signal.isSubscribe := by
  obtain ⟨b₀, hturn₀⟩ := h.turn_iff.mpr ⟨b, hturn⟩
  cases h with
  | outside h hlined hmanned hbared hfocus =>
      unfold State.callback?
      generalize S.stack = stack at hbared
      cases hbared with
      | nil => rfl
      | @client s =>
          have hsubscribe := P.delivered_isSubscribe s
          cases s <;> exact congrArg some hsubscribe.symm
  | _ => cases hturn₀

/-- The client uses its handle, and does not end a stream without items before it has begun. -/
theorem use (h : Mirrors P client ambient S₀ S) (nth : Nat) {c : Control}
    (hcancel : c.isCancel = true → P.hasItems = false →
      ∀ s, S₀.callback? = some s → s.isSubscribe = false) {b : Bool}
    (hturn : S.focus = .outside b) :
    Option.Rel (Mirrors P client ambient) (S₀.move? P.bare (.control 0 nth c))
      (S.move? P (.control 0 nth c)) := by
  obtain ⟨b₀, hturn₀⟩ := h.turn_iff.mpr ⟨b, hturn⟩
  cases h with
  | @outside _ given emission stack₀ _ h hlined hmanned hbared hfocus =>
      obtain ⟨taps, created, ambient', stack, focus, hlength, rfl⟩ := hlined.eq_alone
      obtain rfl : focus = .outside _ := hfocus
      change Bared P client.conditional stack₀ stack at hbared
      have htop : atEmission stack₀ = false := by cases hbared <;> rfl
      have hending : c.isCancel = true → ∀ x, .ending 0 x ∉ stack₀ := by
        intro hc x hx
        obtain ⟨-, hitems, -, hstack | ⟨s, hs, hstack⟩⟩ := h.ending x hx
        · rw [hstack] at hbared
          cases hbared
        · have hfalse := hcancel hc hitems s (by rw [hstack]; rfl)
          rw [hs] at hfalse
          cases hfalse
      cases given with
      | none => exact .none
      | some handle =>
          cases nth with
          | succ nth => exact .none
          | zero =>
              refine .some (.asking h ⟨taps, rfl, hlength⟩ (fun j hj => ?_) hending htop rfl)
              exact (hmanned j hj).of_alone
  | _ => cases hturn₀

/-- The client returns from a callback. -/
theorem answer (h : Mirrors P client ambient S₀ S) (answered : Bool) {b : Bool}
    (hturn : S.focus = .outside b) :
    Option.Rel (Mirrors P client ambient) (S₀.move? P.bare (.answer answered))
      (S.move? P (.answer answered)) := by
  obtain ⟨b₀, hturn₀⟩ := h.turn_iff.mpr ⟨b, hturn⟩
  cases h with
  | outside h hlined hmanned hbared hfocus =>
      obtain ⟨taps, created, ambient', stack, focus, hlength, rfl⟩ := hlined.eq_alone
      obtain rfl : focus = .outside _ := hfocus
      change Bared P client.conditional _ stack at hbared
      cases hbared with
      | nil => exact .none
      | @client s stack₀ rest hoffering hveiled =>
          have hanswer : ∀ s' : Signal α (TapError ε), s'.isOffer = s.isOffer →
              (Callback.client 0 s' : Callback α ε).answer answered = (!s.isOffer || answered) := by
            intro s' hs'
            rw [Callback.answer, Signal.answer, hs']
          refine .some ?_
          rw [hanswer _ (P.delivered_isOffer s), hanswer _ (by cases s <;> rfl)]
          refine .back (h.pop hveiled) ⟨taps, rfl, hlength⟩ (fun j hj => ?_) (fun hfalse => ?_) rfl
          · refine ((hmanned j hj).weaken fun hgoing => ?_).of_alone
            exact hgoing.imp_right fun ⟨x, hx⟩ => ⟨x, List.mem_cons_of_mem _ hx⟩
          · refine hoffering ?_
            simpa using (Bool.or_eq_false_iff.mp hfalse).1
  | _ => cases hturn₀

end Mirrors

end Wiretap

import Wiretap.Proofs.Machine.Matching
import Wiretap.Scenario.Kinds

/-!
# Taps are transparent

A client cannot tell a source behind taps from the bare source, as long as no listener fails: it can
have just the same dialogues with both. So whatever a client does on account of what it has heard
and said, it hears the same. Only an error comes wrapped as often as there are taps.

A source without items is an exception while the client is given its handle. Such a source ends the
stream whether or not the client cancels there, and a tap does not pass on the end of a stream that
has been cancelled.
-/

namespace Wiretap

section

variable {K : Kinds} {σ α ε : Type}

namespace Conduct

/-- A client that does what it likes. -/
def any : Conduct α ε := fun _ _ => true

/-- A client that does not cancel while it is given its handle. -/
def stays : Conduct α ε := fun callback u =>
  match u with
  | .used .cancel => callback.map Signal.isSubscribe != some true
  | _ => true

/-- The client may do what it likes, or it stays while it is given the handle of a source without
items. -/
def Suits (conduct : Conduct α ε) (P : Plan σ α ε) : Prop :=
  conduct = any ∧ P.hasItems = true ∨ conduct = stays

variable {conduct : Conduct α ε} {P : Plan σ α ε}

theorem Suits.eq (h : conduct.Suits P) {first second : Option (Signal α (TapError ε))}
    (hkind : first.map Signal.isSubscribe = second.map Signal.isSubscribe) (u : Utterance α ε) :
    conduct first u = conduct second u := by
  rcases h with ⟨rfl, -⟩ | rfl
  · rfl
  · unfold stays
    rw [hkind]

theorem Suits.remains (h : conduct.Suits P) {callback : Option (Signal α (TapError ε))}
    {c : Control} (hused : conduct callback (.used c) = true) (hc : c.isCancel = true)
    (hitems : P.hasItems = false) (s : Signal α (TapError ε)) (hs : callback = some s) :
    s.isSubscribe = false := by
  subst hs
  rcases h with ⟨-, hsome⟩ | rfl
  · rw [hitems] at hsome
    cases hsome
  · cases c with
    | request n => cases hc
    | cancel =>
        cases s with
        | subscribe h => cases hused
        | _ => rfl

end Conduct

/-- By the time it has the turn, the client can have had this dialogue. -/
def Hosts (P : Plan σ α ε) (conduct : Conduct α ε) (client : Client) (ambient : Context)
    (d : List (Utterance α ε)) : Prop :=
  ∃ U b, Talks P conduct client ambient d U ∧ U.focus = .outside b

namespace Talks

variable {P : Plan σ α ε} {conduct : Conduct α ε} {client : Client} {ambient : Context}
  {d d₀ later : List (Utterance α ε)} {S T U S₀ : State σ α ε}

theorem steps (h : Talks P conduct client ambient d S) (hsteps : State.Steps P S later U) :
    Talks P conduct client ambient (d ++ later) U := by
  induction hsteps generalizing d with
  | refl S => simpa using h
  | step hstep _ ih =>
      rw [← List.append_assoc]
      exact ih (h.step hstep)

theorem strides (h : Talks P conduct client ambient d S) (hstrides : S.Strides P later U) :
    Talks P conduct client ambient (d ++ later) U := by
  obtain ⟨T, events, rest, hstep, hrest, rfl⟩ := hstrides
  exact h.steps (.step hstep hrest)

/-- The machines of both plans mirror each other when the client has subscribed. -/
theorem mirrors_hosting (P : Plan σ α ε) (client : Client) (ambient : Context) :
    Mirrors P client ambient (State.hosting P.bare client ambient)
      (State.hosting P client ambient) := by
  rw [State.hosting_solo rfl]
  exact .joining ⟨_, rfl, by simp [Plan.depth]⟩ rfl rfl

variable (hP : P.Faultless) (hdriven : P.isDriven = false) (hconduct : conduct.Suits P)
include hP hdriven hconduct

/-- What can be had with the bare source is conveyed by the taps. -/
theorem tapped (h : Talks P.bare conduct client ambient d₀ S₀) :
    ∃ d S, Talks P conduct client ambient d S ∧ Mirrors P client ambient S₀ S ∧
      P.Conveys d₀ d := by
  induction h with
  | subscribe hmove =>
      cases hmove
      exact ⟨[], _, .subscribe rfl, mirrors_hosting P client ambient, .nil⟩
  | @step d₀ T U events _ hstep ih =>
      obtain ⟨d, S, htalks, hmirrors, hconveys⟩ := ih
      obtain ⟨S', later, hstrides, hmirrors', hconveys'⟩ := hmirrors.step hP hdriven hstep
      exact ⟨d ++ later, S', htalks.strides hstrides, hmirrors', hconveys.append hconveys'⟩
  | @use d₀ T U nth c _ hused hmove ih =>
      obtain ⟨d, S, htalks, hmirrors, hconveys⟩ := ih
      obtain ⟨b, hturn⟩ := hmirrors.turn_iff.mp (State.move?_control_eq_some hmove).1
      have hmoves := hmirrors.use nth (hconduct.remains hused) hturn
      rw [hmove] at hmoves
      generalize hmove' : S.move? P (.control 0 nth c) = moved at hmoves
      cases hmoves with
      | @some _ S' hmirrors' =>
          rw [hconduct.eq (hmirrors.callback hturn)] at hused
          exact ⟨_, S', htalks.use hused hmove', hmirrors', hconveys.append (.said rfl)⟩
  | @answer d₀ T U answered _ hanswered hmove ih =>
      obtain ⟨d, S, htalks, hmirrors, hconveys⟩ := ih
      obtain ⟨b, hturn⟩ := hmirrors.turn_iff.mp (State.move?_answer_eq_some hmove).1
      have hmoves := hmirrors.answer answered hturn
      rw [hmove] at hmoves
      generalize hmove' : S.move? P (.answer answered) = moved at hmoves
      cases hmoves with
      | @some _ S' hmirrors' =>
          rw [hconduct.eq (hmirrors.callback hturn)] at hanswered
          exact ⟨_, S', htalks.answer hanswered hmove', hmirrors', hconveys.append (.said rfl)⟩

/-- Every dialogue through the taps gets, by steps of the machine, to one that can be had with the
bare source. -/
theorem untapped (h : Talks P conduct client ambient d T) :
    ∃ d₀ S₀ later U, Talks P.bare conduct client ambient d₀ S₀ ∧ State.Steps P T later U ∧
      Mirrors P client ambient S₀ U ∧ P.Conveys d₀ (d ++ later) := by
  induction h with
  | subscribe hmove =>
      cases hmove
      exact ⟨[], _, [], _, .subscribe rfl, .refl _, mirrors_hosting P client ambient, .nil⟩
  | @step d T T' events _ hstep ih =>
      obtain ⟨d₀, S₀, later, U, htalks, hsteps, hmirrors, hconveys⟩ := ih
      cases hsteps with
      | refl =>
          -- The bare machine was waiting, and this step is the first one to match its next one.
          have hbusy : S₀.step? P.bare ≠ none := by
            rw [Ne, State.step?_eq_none_iff, hmirrors.turn_iff, ← State.step?_eq_none_iff P, hstep]
            exact nofun
          obtain ⟨⟨U₀, events₀⟩, hstep₀⟩ := Option.ne_none_iff_exists'.mp hbusy
          obtain ⟨U, _, ⟨_, _, rest, hfirst, hrest, rfl⟩, hmirrors', hconveys'⟩ :=
            hmirrors.step hP hdriven hstep₀
          rw [hstep] at hfirst
          cases hfirst
          refine ⟨_, U₀, rest, U, htalks.step hstep₀, hrest, hmirrors', ?_⟩
          rw [List.append_assoc]
          rw [List.append_nil] at hconveys
          exact hconveys.append hconveys'
      | @step _ _ _ _ rest hfirst hrest =>
          rw [hstep] at hfirst
          cases hfirst
          rw [← List.append_assoc] at hconveys
          exact ⟨d₀, S₀, rest, U, htalks, hrest, hmirrors, hconveys⟩
  | @use d T T' nth c _ hused hmove ih =>
      obtain ⟨d₀, S₀, later, U, htalks, hsteps, hmirrors, hconveys⟩ := ih
      obtain ⟨b, hturn⟩ := (State.move?_control_eq_some hmove).1
      obtain ⟨rfl, rfl⟩ := hsteps.of_turn hturn
      rw [← hconduct.eq (hmirrors.callback hturn)] at hused
      have hmoves := hmirrors.use nth (hconduct.remains hused) hturn
      rw [hmove] at hmoves
      generalize hmove₀ : S₀.move? P.bare (.control 0 nth c) = moved at hmoves
      cases hmoves with
      | @some U₀ _ hmirrors' =>
          refine ⟨_, U₀, [], T', htalks.use hused hmove₀, .refl T', hmirrors', ?_⟩
          rw [List.append_nil] at hconveys ⊢
          exact hconveys.append (.said rfl)
  | @answer d T T' answered _ hanswered hmove ih =>
      obtain ⟨d₀, S₀, later, U, htalks, hsteps, hmirrors, hconveys⟩ := ih
      obtain ⟨b, hturn⟩ := (State.move?_answer_eq_some hmove).1
      obtain ⟨rfl, rfl⟩ := hsteps.of_turn hturn
      rw [← hconduct.eq (hmirrors.callback hturn)] at hanswered
      have hmoves := hmirrors.answer answered hturn
      rw [hmove] at hmoves
      generalize hmove₀ : S₀.move? P.bare (.answer answered) = moved at hmoves
      cases hmoves with
      | @some U₀ _ hmirrors' =>
          refine ⟨_, U₀, [], T', htalks.answer hanswered hmove₀, .refl T', hmirrors', ?_⟩
          rw [List.append_nil] at hconveys ⊢
          exact hconveys.append (.said rfl)

end Talks

namespace Hosts

variable {P : Plan σ α ε} {conduct : Conduct α ε} {client : Client} {ambient : Context}
  {d d₀ : List (Utterance α ε)}

theorem of_idle {U : State σ α ε} (h : Talks P conduct client ambient d U)
    (hidle : U.isIdle = true) : Hosts P conduct client ambient d := by
  obtain ⟨-, b, hturn⟩ := State.isIdle_iff.mp hidle
  exact ⟨U, b, h, hturn⟩

variable (hP : P.Faultless) (hdriven : P.isDriven = false) (hconduct : conduct.Suits P)
include hP hdriven hconduct

theorem tapped (h : Hosts P.bare conduct client ambient d₀) :
    ∃ d, Hosts P conduct client ambient d ∧ P.Conveys d₀ d := by
  obtain ⟨S₀, b₀, htalks, hturn⟩ := h
  obtain ⟨d, S, htalks', hmirrors, hconveys⟩ := htalks.tapped hP hdriven hconduct
  obtain ⟨b, hturn'⟩ := hmirrors.turn_iff.mp ⟨b₀, hturn⟩
  exact ⟨d, ⟨S, b, htalks', hturn'⟩, hconveys⟩

theorem untapped (h : Hosts P conduct client ambient d) :
    ∃ d₀, Hosts P.bare conduct client ambient d₀ ∧ P.Conveys d₀ d := by
  obtain ⟨T, b, htalks, hturn⟩ := h
  obtain ⟨d₀, S₀, later, U, htalks₀, hsteps, hmirrors, hconveys⟩ :=
    htalks.untapped hP hdriven hconduct
  obtain ⟨rfl, rfl⟩ := hsteps.of_turn hturn
  obtain ⟨b₀, hturn₀⟩ := hmirrors.turn_iff.mpr ⟨b, hturn⟩
  rw [List.append_nil] at hconveys
  exact ⟨d₀, ⟨S₀, b₀, htalks₀, hturn₀⟩, hconveys⟩

/-- Behind taps that never fail, a source and its client can have just the dialogues that they can
have without the taps. The error of a source that fails is wrapped by each tap, and nothing else is
changed. -/
theorem transparent :
    (Hosts P conduct client ambient d ↔
        ∃ d₀, Hosts P.bare conduct client ambient d₀ ∧ d = d₀.map (.mapError P.wrap)) ∧
      ((∀ e, P.source ≠ .failed e) →
        (Hosts P conduct client ambient d ↔ Hosts P.bare conduct client ambient d)) := by
  refine ⟨⟨fun h => ?_, ?_⟩, fun hsource => ⟨fun h => ?_, fun h => ?_⟩⟩
  · obtain ⟨d₀, hd₀, hconveys⟩ := h.untapped hP hdriven hconduct
    exact ⟨d₀, hd₀, hconveys.eq⟩
  · rintro ⟨d₀, hd₀, rfl⟩
    obtain ⟨d, hd, hconveys⟩ := hd₀.tapped hP hdriven hconduct
    rwa [← hconveys.eq]
  · obtain ⟨d₀, hd₀, hconveys⟩ := h.untapped hP hdriven hconduct
    rwa [hconveys.same hsource]
  · obtain ⟨d', hd', hconveys⟩ := h.tapped hP hdriven hconduct
    rwa [← hconveys.same hsource]

end Hosts

end

open scoped Scenario

/-- A source behind two taps that never fail. An error grows by one on its way from one to the
other. -/
def Plan.overheard (source : Source Nat Nat) : Plan Unit Nat Nat where
  source := source
  taps := [.brittle [], .brittle []]
  adapt e := e.source?.getD 0 + 1

theorem Plan.faultless_overheard (source : Source Nat Nat) : (overheard source).Faultless := by
  have hbrittle : (TapPlan.brittle [] : TapPlan Unit Nat Nat).Faultless :=
    ⟨fun _ _ _ => ⟨(), rfl⟩, fun _ => ⟨fun _ _ => rfl, fun _ context => ⟨context, rfl⟩⟩⟩
  intro p hp
  simp only [overheard, List.mem_cons, List.not_mem_nil, or_false, or_self] at hp
  rwa [hp]

/-- A client that asks for two items and cancels inside the first one does not notice the taps. A
client of a source that fails gets the error wrapped. -/
theorem Hosts.transparent_overheard :
    Hosts (.overheard (.sequence ([1, 2, 3][·]?))) .any .plain .empty
        [.heard (.subscribe .empty), .used (.request 2), .heard (.next 1), .used .cancel,
          .answered true, .answered true] ∧
      Hosts (.overheard (.failed 7)) .stays .plain .empty
        [.heard (.subscribe .empty), .answered true, .heard (.error (.source 8)),
          .answered true] := by
  constructor
  · obtain ⟨d, U, htalks, hd, hidle⟩ := Talks.of_converse
      (Plan.overheard (.sequence ([1, 2, 3][·]?))).bare .any .plain .empty 20
      [.used (.request 2), .used .cancel, .answered true, .answered true]
      (fun d U => d = [.heard (.subscribe .empty), .used (.request 2), .heard (.next 1),
        .used .cancel, .answered true, .answered true] ∧ U.isIdle = true) (by decide +kernel)
    subst hd
    have hsource : ∀ e, (Plan.overheard (.sequence ([1, 2, 3][·]?))).source ≠ .failed e :=
      fun _ heq => nomatch heq
    exact ((Hosts.transparent (Plan.faultless_overheard _) rfl (.inl ⟨rfl, rfl⟩)).2 hsource).mpr
      (.of_idle htalks hidle)
  · obtain ⟨d, U, htalks, hd, hidle⟩ := Talks.of_converse
      (Plan.overheard (.failed 7)).bare .stays .plain .empty 20 [.answered true, .answered true]
      (fun d U => d = [.heard (.subscribe .empty), .answered true, .heard (.error (.source 7)),
        .answered true] ∧ U.isIdle = true) (by decide +kernel)
    subst hd
    exact (Hosts.transparent (Plan.faultless_overheard _) rfl (.inr rfl)).1.mpr
      ⟨_, .of_idle htalks hidle, rfl⟩

end Wiretap

import Wiretap.Proofs.Chain.Pacing
import Wiretap.Proofs.Machine.Counters
import Wiretap.Scenario.Kinds

/-!
# The loop of a sequence comes to its end

The loop that hands out the items of a list calls its receiver again and again, and what happens
while it waits may change all that it looks at. It ends nevertheless if the calls do, for every
round uses up an item; its counters stay in their bounds; and when it has ended, nothing that was
asked for is left over, so that the next request starts it again.
-/

namespace Wiretap

section

variable {K : Kinds} {σ α ε : Type} {P : Plan σ α ε} {S U : State σ α ε} {line : Nat}
  {ambient : Context} {history : List (Entry α ε)} {pull : Nat → Option α} {all : List α}
  {e : Emission α} {rest : List (Frame α ε)}

/-! ## The loop ends -/

/-- The loop of a line's emission, called above the frames `rest`, returns if its own calls do. It
steps until it has returned; where it sends its receiver a signal, it waits in a frame, and does so
whatever has happened by the time when the call returns. -/
inductive Drains (P : Plan σ α ε) (line : Nat) (rest : List (Frame α ε)) : State σ α ε → Prop
  /-- It has returned. -/
  | returned {S : State σ α ε} {b : Bool} (hstack : S.stack = rest) (hfocus : S.focus = .back b) :
    Drains P line rest S
  /-- It makes a step. -/
  | step {S U : State σ α ε} {events : List (Event α ε)} (hstep : S.step? P = some (U, events))
    (h : Drains P line rest U) : Drains P line rest S
  /-- It calls its receiver. -/
  | calls {S : State σ α ε} {s : Signal α ε} {f : Frame α ε}
    (hfocus : S.focus = .call (P.sourceSignal line s)) (hstack : S.stack = f :: rest)
    (h : ∀ later U b, Run P S later U → U.stack = f :: rest → U.focus = .back b →
      Drains P line rest U) : Drains P line rest S

theorem Drains.of_completing (hfocus : S.focus = .call (P.sourceSignal line .complete))
    (hstack : S.stack = .completing line :: rest) : Drains P line rest S := by
  refine .calls hfocus hstack fun later U b hlater hwaits hback => ?_
  have hstep : U.step? P = some (({ U with stack := rest } : State σ α ε).back true, []) := by
    simp [State.step?, hback, hwaits, State.resume]
  exact .step hstep (.returned rfl rfl)

theorem Run.tallied (hsource : P.source = .sequence (all[·]?)) (hitems : all[0]? ≠ none)
    (hlength : all.length < 2 ^ 64) (hrun : Run P (.start P ambient) history S) :
    Tallied all line S :=
  (Tallied.of_start ambient).run (.of_start ambient) (.start ambient) hsource hitems hlength hrun

/-- The loop goes round only where an item is left. -/
theorem Run.pulled_le (hsource : P.source = .sequence (all[·]?)) (hitems : all[0]? ≠ none)
    (hlength : all.length < 2 ^ 64) (hrun : Run P (.start P ambient) history S) {m : UInt64}
    (hfocus : S.focus = .call (.emit line m)) (hemission : S.emission? line = some e) :
    e.pulled ≤ all.length := by
  have hpaced : Paced line S := hrun.paced hsource hitems
  obtain ⟨e', hsome, -, -, -, ⟨-, -, hahead⟩ | ⟨b, -, hback, -⟩⟩ :=
    hpaced.emitting (.inl ⟨m, hfocus, rfl⟩)
  · obtain rfl := Option.some.inj (hemission.symm.trans hsome)
    obtain ⟨before, hhands, -⟩ := hrun.tallied hsource hitems hlength e hemission
    rw [hhands.ahead, ne_eq, List.getElem?_eq_none_iff] at hahead
    rw [hhands.pulled]
    omega
  · rw [hfocus] at hback
    cases hback

/-- Every round uses up an item, so there are no more rounds than items are left. -/
theorem Run.drains_within (hsource : P.source = .sequence (all[·]?)) (hitems : all[0]? ≠ none)
    (hlength : all.length < 2 ^ 64) (rounds : Nat) (hrun : Run P (.start P ambient) history S)
    {m : UInt64} (hfocus : S.focus = .call (.emit line m)) (hemission : S.emission? line = some e)
    (hrounds : all.length < e.pulled + rounds) : Drains P line S.stack S := by
  induction rounds generalizing S history m e with
  | zero =>
      have hleft := hrun.pulled_le hsource hitems hlength hfocus hemission
      omega
  | succ rounds ih =>
      obtain ⟨⟨U, events⟩, hstep⟩ : ∃ outcome, S.step? P = some outcome :=
        ⟨_, by rw [State.step?, hfocus]⟩
      apply Drains.step hstep
      cases State.step?_rounds hsource (.inl ⟨m, hfocus, rfl⟩) hemission hstep with
      | leave _ _ hstack hnext => exact .returned hstack hnext
      | complete _ _ hstack hnext => exact .of_completing hnext hstack
      | settle _ _ _ hstack hnext => exact .returned hstack hnext
      | goOn hback => rw [hfocus] at hback; cases hback
      | deliver _ _ _ hadvanced hstack hnext =>
          refine .calls hnext hstack fun later V b hlater hwaits hback => ?_
          -- The receiver has returned, and meanwhile the sequence has been asked no less.
          have hsofar := hrun.step hstep
          obtain ⟨e', hlast, honward⟩ := (hsofar.paced hsource hitems).onward
            ((State.Assembled.start ambient).run hsofar) hsource hitems hadvanced hlater
          have hpulled : e.pulled + 1 ≤ e'.pulled := honward.pulled
          obtain ⟨⟨W, events'⟩, hstep'⟩ : ∃ outcome, V.step? P = some outcome :=
            ⟨_, by rw [State.step?, hback, hwaits]⟩
          apply Drains.step hstep'
          cases State.step?_rounds hsource (.inr ⟨b, _, _, hback, hwaits⟩) hlast hstep' with
          | leave _ _ hstack hnext => exact .returned hstack hnext
          | complete _ _ hstack hnext => exact .of_completing hnext hstack
          | settle hloops => rw [hback] at hloops; cases hloops
          | deliver hloops => rw [hback] at hloops; cases hloops
          | goOn _ _ hgoes hstack hnext =>
              rw [← hstack]
              exact ih ((hsofar.trans hlater).step hstep') hnext hgoes (by omega)

/-! ## What is left when it has ended -/

/-- A list without items is not emitted at all. -/
theorem Run.unfed (hsource : P.source = .sequence pull) (hitems : pull 0 = none)
    (hrun : Run P (.start P ambient) history S) :
    S.emission? line = none ∧ (∀ m, S.focus ≠ .call (.emit line m)) ∧ Unrounded line S.stack := by
  induction hrun with
  | refl => exact ⟨rfl, by simp [State.start], fun _ hf => absurd hf List.not_mem_nil⟩
  | @step history T U events hbefore hstep ih =>
      obtain ⟨hnone, hloop, hrounds⟩ := ih
      have hquiet : ∀ rest, ¬T.Emitting line rest := fun _ => hrounds.not_emitting hloop
      have hsome : ∀ {e}, T.emission? line ≠ some e := by simp [hnone]
      cases State.step?_feeds ((State.Assembled.start ambient).run hbefore) hsource
          (fun rest hrest => absurd hrest (hquiet rest)) hstep with
      | aside haside hemission hnext =>
          exact ⟨hemission.trans hnone, hnext, hrounds.step (State.step?_stepped hstep) haside⟩
      | start _ hpull => rw [hitems] at hpull; cases hpull
      | request _ _ hemission => exact absurd hemission hsome
      | cancel _ hemission => exact absurd hemission hsome
      | deliver _ hemission => exact absurd hemission hsome
      | settle _ hemission => exact absurd hemission hsome
      | finish _ hemission => exact absurd hemission hsome
      | goOn hback hwaits => exact absurd (.inr ⟨_, _, _, hback, hwaits⟩) (hquiet _)
  | move hbefore hmove ih =>
      have hmoved := State.move?_moved hmove
      exact ⟨(State.move_emission? hmoved).trans ih.1, State.move_ne_emit hmoved,
        ih.2.2.move hmoved⟩

/-- A receiver is let go when it cancels or gets the completion, and not before. -/
theorem Run.detached (hsource : P.source = .sequence pull) (hitems : pull 0 ≠ none)
    (hrun : Run P (.start P ambient) history S) (hemission : S.emission? line = some e)
    (hdetached : e.attached = false) : e.cancelled = true ∨
      ∃ before T later, Run P (.start P ambient) before T ∧
        T.focus = .call (P.sourceSignal line .complete) ∧ Run P T later S := by
  induction hrun generalizing e with
  | refl => cases hemission
  | @step history S U events hrun hstep ih =>
      have hlater : ∀ {e'}, S.emission? line = some e' → e'.attached = false →
          e'.cancelled = e.cancelled → e.cancelled = true ∨
            ∃ before T later, Run P (.start P ambient) before T ∧
              T.focus = .call (P.sourceSignal line .complete) ∧ Run P T later U := by
        intro e' hsome hgone hsame
        refine (ih hsome hgone).imp hsame.symm.trans ?_
        rintro ⟨before, T, later, hbefore, hfocus, hlater⟩
        exact ⟨before, T, _, hbefore, hfocus, hlater.step hstep⟩
      have hpaced : Paced line S := hrun.paced hsource hitems
      have hthere : ∀ rest, S.Emitting line rest → S.emission? line ≠ none := by
        intro rest hemitting
        obtain ⟨e, hsome, -⟩ := hpaced.emitting hemitting
        simp [hsome]
      have hnow : ∀ {e'}, U.emission? line = some e' → e = e' := fun hsome =>
        Option.some.inj (hemission.symm.trans hsome)
      cases State.step?_feeds ((State.Assembled.start ambient).run hrun) hsource hthere hstep with
      | aside _ hsame => exact hlater (hsame.symm.trans hemission) hdetached rfl
      | start _ _ hsome => obtain rfl := hnow hsome; cases hdetached
      | request _ _ hbefore hsome => obtain rfl := hnow hsome; exact hlater hbefore hdetached rfl
      | cancel _ _ hsome => obtain rfl := hnow hsome; exact .inl rfl
      | deliver _ hbefore _ _ hsome =>
          obtain rfl := hnow hsome
          exact hlater hbefore hdetached rfl
      | settle _ hbefore _ hsome => obtain rfl := hnow hsome; exact hlater hbefore hdetached rfl
      | finish _ hbefore hafter =>
          rcases hafter with ⟨hsome, -⟩ | ⟨hsome, -, hnext⟩
          · obtain rfl := hnow hsome
            exact hlater hbefore hdetached rfl
          · exact .inr ⟨_, U, [], hrun.step hstep, hnext, .refl⟩
      | goOn _ _ hsame => exact hlater (hsame.symm.trans hemission) hdetached rfl
  | @move history S U m hrun hmove ih =>
      refine (ih ((State.move_emission? (State.move?_moved hmove)).symm.trans hemission)
        hdetached).imp_right ?_
      rintro ⟨before, T, later, hbefore, hfocus, hlater⟩
      exact ⟨before, T, _, hbefore, hfocus, hlater.move hmove⟩

namespace State

theorem step?_handOut {m : UInt64} {x : α} (hsource : P.source = .sequence pull)
    (hfocus : S.focus = .call (.emit line m)) (hemission : S.emission? line = some e)
    (hverdict : e.verdict m = .deliver) (hahead : e.ahead = some x) :
    ∃ U events s, S.step? P = some (U, events) ∧ U.focus = .call (P.sourceSignal line s) ∧
      s.item? = some x := by
  have hstep : S.step? P = some (emit P S line m) := by
    rw [step?, hfocus]
    rfl
  rw [hstep]
  simp only [emit, hsource, hemission, hverdict, hahead]
  refine ⟨_, _, .handOut (S.isConditional line) x, rfl, rfl, ?_⟩
  cases S.isConditional line <;> rfl

/-- A request that finds the emission at rest makes it hand out the item ahead. -/
theorem step?_resumed {x : α} {position : Nat} {n : UInt64}
    (hsource : P.source = .sequence pull) (hemission : S.emission? line = some e)
    (hattached : e.attached = true) (hstaying : e.cancelled = false) (hrequested : e.requested = 0)
    (hahead : e.ahead = some x) (hn : n ≠ 0)
    (hfocus : S.focus = .call (.control line position .emission (.request n))) :
    ∃ T U events events' s, S.step? P = some (T, events) ∧ T.step? P = some (U, events') ∧
      U.focus = .call (P.sourceSignal line s) ∧ s.item? = some x := by
  have hstep : S.step? P = some ((S.setEmission line (e.request n)).call (.emit line 0),
      [.controlled line position (.request n)]) := by
    simp [step?, hfocus, make, control, controlEmission, hemission, Demand.isPositive, hn,
      Emission.startsLoop_of_idle hrequested hattached]
  have hverdict : (e.request n).verdict 0 = .deliver := by
    have hopen : (e.request n).requested ≠ 0 := Emission.request_ne_zero (.inr hn)
    have hstays : (e.request n).cancelled = false := hstaying
    rw [Emission.verdict, if_pos (.inr hopen.symm), hstays]
    rfl
  obtain ⟨U, events, s, hthen, hnext, hitem⟩ :=
    step?_handOut (S := (S.setEmission line (e.request n)).call (.emit line 0)) hsource rfl
      (setEmission_emission?_self (lt_of_emission? hemission) _) hverdict hahead
  exact ⟨_, U, _, events, s, hstep, hthen, hnext, hitem⟩

end State

/-- A loop that has ended while its receiver is attached has left no demand over. -/
theorem Run.rests (hsource : P.source = .sequence pull) (hitems : pull 0 ≠ none)
    (hrun : Run P (.start P ambient) history S) (hemission : S.emission? line = some e)
    (hattached : e.attached = true) (hloop : ∀ m, S.focus ≠ .call (.emit line m))
    (hwaits : ∀ f ∈ S.stack, f.isSending line = false) :
    e.requested = 0 ∧ e.ahead ≠ none ∧ e.cancelled = false := by
  have hpaced : Paced line S := hrun.paced hsource hitems
  have hclear : sending line S.stack = [] := sending_eq_nil.mpr hwaits
  cases hpaced with
  | unborn hnone => rw [hnone] at hemission; cases hemission
  | resting hsome hleft _ _ hdone =>
      obtain rfl := Option.some.inj (hsome.symm.trans hemission)
      refine ⟨(hdone hattached).1, (hdone hattached).2, ?_⟩
      by_contra hcancelled
      rw [hleft (by simpa using hcancelled)] at hattached
      cases hattached
  | looping _ _ _ hfocus => exact absurd hfocus (hloop _)
  | handing _ _ hout => rw [hclear] at hout; cases hout
  | completing _ hout => rw [hclear] at hout; cases hout

theorem Run.counts (hsource : P.source = .sequence (all[·]?)) (hitems : all[0]? ≠ none)
    (hlength : all.length < 2 ^ 64) (hrun : Run P (.start P ambient) history S)
    (hemission : S.emission? line = some e) :
    (∀ m, S.focus = .call (.emit line m) →
      (m.toNat ≤ e.requested.toNat ∨ e.requested = Demand.unbounded) ∧
      (e.verdict m = .settle → (e.settle m).requested.toNat + m.toNat = e.requested.toNat)) ∧
    ∀ m last, .emitting line m last ∈ S.stack →
      (m.toNat < e.requested.toNat ∨ e.requested = Demand.unbounded) ∧
      (m + 1).toNat = m.toNat + 1 := by
  obtain ⟨before, hhands, hcounts, hout⟩ := hrun.tallied hsource hitems hlength e hemission
  have hfew : before.length < 2 ^ 64 := Nat.lt_of_le_of_lt hhands.isPrefix.length_le hlength
  refine ⟨fun m hfocus => ⟨(hcounts m hfocus).asked, fun hverdict => ?_⟩, fun m last hmem => ?_⟩
  · rw [Emission.requested_settle hverdict, (Emission.closed_of_settle hverdict).2]
    exact Nat.zero_add _
  · exact ⟨(hout m last hmem).asked, (hout m last hmem).toNat_succ hfew⟩

/-- The loop that hands out the items of a list, be it one of no items, returns if the calls that it
makes do, whatever is asked for or cancelled meanwhile. As long as it runs, no more items have been
taken than are asked for, unless the demand is unbounded, and one less while an item is out; so the
settlement takes off no more than there is, and counting does not wrap. Unbounded demand stays. The
receiver is let go when it cancels or gets the completion, and not before; until then there is no
demand left over whenever the loop does not run, and whoever asks for items is given the next one at
once. -/
theorem Run.counters_sound (hsource : P.source = .sequence (all[·]?))
    (hlength : all.length < 2 ^ 64) (hrun : Run P (.start P ambient) history S) (line : Nat) :
    (∀ m, S.focus = .call (.emit line m) → Drains P line S.stack S) ∧
    ∀ e, S.emission? line = some e →
      (∀ m, S.focus = .call (.emit line m) →
        (m.toNat ≤ e.requested.toNat ∨ e.requested = Demand.unbounded) ∧
        (e.verdict m = .settle → (e.settle m).requested.toNat + m.toNat = e.requested.toNat)) ∧
      (∀ m last, .emitting line m last ∈ S.stack →
        (m.toNat < e.requested.toNat ∨ e.requested = Demand.unbounded) ∧
        (m + 1).toNat = m.toNat + 1) ∧
      (e.requested = Demand.unbounded → ∀ later U, Run P S later U →
        ∃ e', U.emission? line = some e' ∧ e'.requested = Demand.unbounded) ∧
      (e.attached = false → e.cancelled = true ∨
        ∃ before T later, Run P (.start P ambient) before T ∧
          T.focus = .call (P.sourceSignal line .complete) ∧ Run P T later S) ∧
      (e.attached = true → (∀ m, S.focus ≠ .call (.emit line m)) →
        (∀ f ∈ S.stack, f.isSending line = false) →
        e.requested = 0 ∧ ∀ position n, n ≠ 0 →
          S.focus = .call (.control line position .emission (.request n)) →
          ∃ T U events events' s, S.step? P = some (T, events) ∧ T.step? P = some (U, events') ∧
            U.focus = .call (P.sourceSignal line s) ∧ s.item? = e.ahead ∧ e.ahead ≠ none) := by
  by_cases hitems : all[0]? = none
  · have hnone : S.emission? line = none := (hrun.unfed hsource hitems).1
    have hloop : ∀ m, S.focus ≠ .call (.emit line m) := (hrun.unfed hsource hitems).2.1
    exact ⟨fun m hfocus => absurd hfocus (hloop m), by simp [hnone]⟩
  refine ⟨fun m hfocus => ?_, fun e hemission => ?_⟩
  · have hpaced : Paced line S := hrun.paced hsource hitems
    obtain ⟨e, hemission, -⟩ := hpaced.emitting (.inl ⟨m, hfocus, rfl⟩)
    exact hrun.drains_within hsource hitems hlength (all.length + 1) hfocus hemission (by omega)
  obtain ⟨hloops, hwaits⟩ := hrun.counts hsource hitems hlength hemission
  refine ⟨hloops, hwaits, fun hall later U hlater => ?_,
    hrun.detached hsource hitems hemission, fun hattached hloop hclear => ?_⟩
  · have hpaced : Paced line S := hrun.paced hsource hitems
    obtain ⟨e', hsome, honward⟩ := hpaced.onward ((State.Assembled.start ambient).run hrun) hsource
      hitems hemission hlater
    exact ⟨e', hsome, honward.unbounded hall⟩
  · obtain ⟨hrequested, hahead, hstaying⟩ :=
      hrun.rests hsource hitems hemission hattached hloop hclear
    refine ⟨hrequested, fun position n hn hfocus => ?_⟩
    obtain ⟨x, hx⟩ := Option.ne_none_iff_exists'.mp hahead
    obtain ⟨T, U, events, events', s, hstep, hnext, hsent, hitem⟩ :=
      State.step?_resumed hsource hemission hattached hstaying hrequested hx hn hfocus
    exact ⟨T, U, events, events', s, hstep, hnext, hsent, hitem.trans hx.symm, hahead⟩

/-- The line whose loop goes round, and how many items it has taken. -/
def Focus.loop? : Focus α ε → Option (Nat × UInt64)
  | .call (.emit line m) => some (line, m)
  | _ => none

theorem Focus.loop?_eq_some {focus : Focus α ε} {m : UInt64} :
    focus.loop? = some (line, m) ↔ focus = .call (.emit line m) := by
  cases focus with
  | call c => cases c <;> simp [loop?]
  | _ => simp [loop?]

/-- The line whose loop waits in the frame, how many items it had taken, and whether the one that is
out is the last. -/
def Frame.round? : Frame α ε → Option (Nat × UInt64 × Bool)
  | .emitting line m last => some (line, m, last)
  | _ => none

theorem Frame.round?_eq_some {f : Frame α ε} {m : UInt64} {last : Bool} :
    f.round? = some (line, m, last) ↔ f = .emitting line m last := by
  cases f <;> simp [round?]

end

open scoped Scenario

/-- A client asks for one item, and from inside this item for two more, which it then gets in the
same loop. When the loop has ended, it asks for another one, and is given the fourth. -/
theorem Run.counters_sound_counting :
    (∃ history S, Run (.brittleCounting []) (.start (.brittleCounting []) .empty) history S ∧
      S.focus = .call (.emit 0 0) ∧ Drains (.brittleCounting []) 0 S.stack S) ∧
    (∃ history S e, Run (.brittleCounting []) (.start (.brittleCounting []) .empty) history S ∧
      asked 0 history = [1, 2] ∧ S.emission? 0 = some e ∧ .emitting 0 0 false ∈ S.stack ∧
      (0 < e.requested.toNat ∨ e.requested = Demand.unbounded)) ∧
    ∃ history S e T U events events' s,
      Run (.brittleCounting []) (.start (.brittleCounting []) .empty) history S ∧
      asked 0 history = [1, 2, 1] ∧ S.emission? 0 = some e ∧ e.requested = 0 ∧
      S.step? (.brittleCounting []) = some (T, events) ∧
      T.step? (.brittleCounting []) = some (U, events') ∧
      U.focus = .call (Plan.sourceSignal (.brittleCounting []) 0 s) ∧ s.item? = some 4 := by
  refine ⟨?_, ?_, ?_⟩
  · obtain ⟨history, S, hplay, hloops⟩ := Play.of_followTo (P := .brittleCounting [])
      (S := .start (.brittleCounting []) .empty) 20 [.subscribe .plain]
      (.control 0 0 (.request 1)) 1 (fun _ S => S.focus.loop? = some (0, 0)) (by decide +kernel)
    have hfocus : S.focus = .call (.emit 0 0) := Focus.loop?_eq_some.mp hloops
    exact ⟨history, S, hplay.run, hfocus,
      (Run.counters_sound rfl (by decide) hplay.run 0).1 0 hfocus⟩
  · obtain ⟨history, S, hplay, hasked, hemission, hwaits⟩ := Play.of_follow
      (P := .brittleCounting []) (S := .start (.brittleCounting []) .empty) 20
      [.subscribe .plain, .control 0 0 (.request 1), .control 0 0 (.request 2)]
      (fun history S => asked 0 history = [1, 2] ∧ (S.emission? 0).isSome = true ∧
        S.stack.any (fun f => f.round? = some (0, 0, false)) = true)
      (by decide +kernel)
    obtain ⟨e, he⟩ := Option.isSome_iff_exists.mp hemission
    obtain ⟨f, hf, hround⟩ := List.any_eq_true.mp hwaits
    have hmem : .emitting 0 0 false ∈ S.stack :=
      Frame.round?_eq_some.mp (of_decide_eq_true hround) ▸ hf
    have hcounts := ((Run.counters_sound rfl (by decide) hplay.run 0).2 e he).2.1 0 false hmem
    exact ⟨history, S, e, hplay.run, hasked, he, hmem, hcounts.1⟩
  · obtain ⟨history, S, hplay, hasked, hreceived, hemission, hclear, hmoves⟩ := Play.of_follow
      (P := .brittleCounting []) (S := .start (.brittleCounting []) .empty) 20
      [.subscribe .plain, .control 0 0 (.request 1), .control 0 0 (.request 2), .answer true,
        .answer true, .answer true]
      (fun history S => asked 0 history = [1, 2] ∧ S.received? 0 0 = some .emission ∧
        (S.emission? 0).any (fun e => e.attached && e.ahead == some 4) = true ∧
        S.stack.all (fun f => !f.isSending 0) = true ∧
        (S.move? (.brittleCounting []) (.control 0 0 (.request 1))).isSome = true)
      (by decide +kernel)
    obtain ⟨V, hmove⟩ := Option.isSome_iff_exists.mp hmoves
    obtain ⟨e, he, hready⟩ := (Option.any_eq_true _ _).mp hemission
    obtain ⟨hattached, hahead⟩ := Bool.and_eq_true_iff.mp hready
    cases State.move?_moved hmove with
    | control hturn hhandle hlines hstack hnext =>
        obtain rfl := Option.some.inj (hreceived.symm.trans hhandle)
        have hrun := hplay.run.move hmove
        have hsome : V.emission? 0 = some e := (State.emission?_eq hlines 0).trans he
        have hquiet : ∀ f ∈ V.stack, f.isSending 0 = false := by
          intro f hf
          simpa using List.all_eq_true.mp hclear f (hstack ▸ hf)
        obtain ⟨hrequested, hresumes⟩ :=
          ((Run.counters_sound rfl (by decide) hrun 0).2 e hsome).2.2.2.2 hattached
            (by simp [hnext]) hquiet
        obtain ⟨T, U, events, events', s, hstep, hthen, hsent, hitem, -⟩ :=
          hresumes 0 1 (by decide) hnext
        refine ⟨_, V, e, T, U, events, events', s, hrun, ?_, hsome, hrequested, hstep, hthen, hsent,
          hitem.trans (beq_iff_eq.mp hahead)⟩
        rw [asked_append, asked_move, hasked]
        rfl

end Wiretap

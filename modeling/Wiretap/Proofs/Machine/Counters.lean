import Wiretap.Proofs.Emission.Counters
import Wiretap.Proofs.Machine.Pacing

/-!
# The counters of a line

The number of items taken is kept by the loop of an emission and by the frame in which it waits, and
the demand by the emission itself. Requests change the demand while the loop waits, so that the two
agree is not a matter of the loop alone: it is shown here for every step.
-/

namespace Wiretap

variable {K : Kinds} {σ α ε : Type} {P : Plan σ α ε} {S U : State σ α ε} {line : Nat} {all : List α}
  {pull : Nat → Option α} {events : List (Event α ε)} {e : Emission α}

theorem emitting_not_mem {stack : List (Frame α ε)} (hclear : sending line stack = [])
    (emitted : UInt64) (last : Bool) : .emitting line emitted last ∉ stack := by
  intro hmem
  have hquiet := sending_eq_nil.mp hclear _ hmem
  simp [Frame.isSending] at hquiet

namespace State

/-- Nobody but the loop makes it wait. -/
theorem step?_rounded (hsource : P.source = .sequence pull) (hitems : pull 0 ≠ none)
    (hpaced : Paced line S) (hstep : S.step? P = some (U, events))
    (haside : ∀ rest, ¬S.Emitting line rest) {emitted : UInt64} {last : Bool}
    (hmem : .emitting line emitted last ∈ U.stack) : .emitting line emitted last ∈ S.stack := by
  have hsends : .emitting line emitted last ∈ sending line U.stack :=
    List.mem_filter.mpr ⟨hmem, beq_self_eq_true line⟩
  have hbefore : .emitting line emitted last ∈ sending line S.stack := by
    rcases step?_sending hsource hitems hpaced.endless hstep haside with hsame | hpopped
    · rwa [← hsame]
    · rw [hpopped]
      exact List.mem_cons_of_mem _ hsends
  exact (List.mem_filter.mp hbefore).1

theorem move_rounded {m : Move α ε} (hmove : Moved P S U m) {emitted : UInt64} {last : Bool}
    (hmem : .emitting line emitted last ∈ U.stack) : .emitting line emitted last ∈ S.stack := by
  have hsends : .emitting line emitted last ∈ sending line U.stack :=
    List.mem_filter.mpr ⟨hmem, beq_self_eq_true line⟩
  rw [move_sending hmove] at hsends
  exact (List.mem_filter.mp hsends).1

end State

/-- Some of the items `all` have been handed out on a line, and the loop of its emission counts
them, be it that it goes round or that it waits. -/
def Tallied (all : List α) (line : Nat) (S : State σ α ε) : Prop :=
  ∀ e, S.emission? line = some e → ∃ before, e.Hands all before ∧
    (∀ m, S.focus = .call (.emit line m) → e.Counts before m 0) ∧
    ∀ m last, .emitting line m last ∈ S.stack → e.Counts before m 1

namespace Tallied

/-- The loop does not run. -/
theorem of_idle {before : List α} (hemission : S.emission? line = some e)
    (hhands : e.Hands all before) (hloop : ∀ m, S.focus ≠ .call (.emit line m))
    (hclear : ∀ m last, .emitting line m last ∉ S.stack) : Tallied all line S := by
  intro e' hsome
  obtain rfl := Option.some.inj (hemission.symm.trans hsome)
  exact ⟨before, hhands, fun m hfocus => absurd hfocus (hloop m),
    fun m last hmem => absurd hmem (hclear m last)⟩

theorem start {context : Context} {x : α} (hpaced : Paced line S)
    (hfocus : S.focus = .call (.join line 0 context)) (hpull : all[0]? = some x)
    (hemission : U.emission? line = some (.start x)) (hstack : U.stack = S.stack)
    (hnext : U.focus = .call (P.sourceSignal line (.subscribe .emission))) :
    Tallied all line U := by
  have hhands : (Emission.start x).Hands all [] := by
    cases all with
    | nil => cases hpull
    | cons y rest =>
        cases hpull
        exact .start
  refine .of_idle hemission hhands (State.Calm.of_sourceSignal hnext).emit ?_
  exact emitting_not_mem (hstack ▸ (hpaced.joining hfocus).2)

theorem request (h : Tallied all line S) {n : UInt64} (hbefore : S.emission? line = some e)
    (hemission : U.emission? line = some (e.request n)) (hstack : U.stack = S.stack)
    (hnext : U.focus = if e.startsLoop then .call (.emit line 0) else .back true) :
    Tallied all line U := by
  intro e' hsome
  obtain rfl := Option.some.inj (hemission.symm.trans hsome)
  obtain ⟨before, hhands, -, hout⟩ := h e hbefore
  refine ⟨before, hhands.keep rfl rfl, fun m hfocus => ?_, fun m last hmem => ?_⟩
  · rw [hnext] at hfocus
    split at hfocus
    · cases hfocus
      exact .start before _
    · cases hfocus
  · rw [hstack] at hmem
    exact (hout m last hmem).request n

theorem cancel (h : Tallied all line S) (hbefore : S.emission? line = some e)
    (hemission : U.emission? line = some e.cancel) (hstack : U.stack = S.stack)
    (hnext : U.focus = .back true) : Tallied all line U := by
  intro e' hsome
  obtain rfl := Option.some.inj (hemission.symm.trans hsome)
  obtain ⟨before, hhands, -, hout⟩ := h e hbefore
  refine ⟨before, hhands.keep rfl rfl, by simp [hnext], fun m last hmem => ?_⟩
  rw [hstack] at hmem
  exact ⟨(hout m last hmem).handed, (hout m last hmem).asked⟩

/-- An item is handed out. -/
theorem deliver (h : Tallied all line S) {m : UInt64} {x : α} {last : Bool}
    (hfocus : S.focus = .call (.emit line m)) (hbefore : S.emission? line = some e)
    (hclear : sending line S.stack = []) (hverdict : e.verdict m = .deliver)
    (hahead : e.ahead = some x) (hemission : U.emission? line = some (e.advance (all[·]?)))
    (hstack : U.stack = .emitting line m last :: S.stack)
    (hloop : ∀ m, U.focus ≠ .call (.emit line m)) : Tallied all line U := by
  intro e' hsome
  obtain rfl := Option.some.inj (hemission.symm.trans hsome)
  obtain ⟨before, hhands, hcounts, -⟩ := h e hbefore
  refine ⟨before ++ [x], hhands.deliver hahead, fun m' hgoes => absurd hgoes (hloop m'), ?_⟩
  intro m' last' hmem
  rw [hstack] at hmem
  rcases List.mem_cons.mp hmem with heq | hearlier
  · cases heq
    exact (hcounts m hfocus).deliver hverdict x _
  · exact absurd hearlier (emitting_not_mem hclear m' last')

/-- The item that was out has come back, and is counted unless it was refused. -/
theorem goOn (h : Tallied all line S) (hlength : all.length < 2 ^ 64) {m n : UInt64}
    {rest : List (Frame α ε)} (hwaits : S.stack = .emitting line m false :: rest)
    (hn : n = m ∨ n = m + 1) (hclear : sending line rest = [])
    (hemission : U.emission? line = S.emission? line) (hstack : U.stack = rest)
    (hnext : U.focus = .call (.emit line n)) : Tallied all line U := by
  intro e hsome
  obtain ⟨before, hhands, -, hout⟩ := h e (hemission.symm.trans hsome)
  have hfew : before.length < 2 ^ 64 := Nat.lt_of_le_of_lt hhands.isPrefix.length_le hlength
  have hcounts := hout m false (hwaits ▸ List.mem_cons_self)
  refine ⟨before, hhands, fun m' hfocus => ?_, fun m' last' hmem => ?_⟩
  · rw [hnext] at hfocus
    cases hfocus
    rcases hn with rfl | rfl
    · exact hcounts.refuse
    · exact hcounts.count hfew
  · rw [hstack] at hmem
    exact absurd hmem (emitting_not_mem hclear m' last')

/-- A step keeps the counters in agreement. -/
theorem step (h : Tallied all line S) (hpaced : Paced line S) (hassembled : S.Assembled P)
    (hsource : P.source = .sequence (all[·]?)) (hitems : all[0]? ≠ none)
    (hlength : all.length < 2 ^ 64) (hstep : S.step? P = some (U, events)) :
    Tallied all line U := by
  have hthere : ∀ rest, S.Emitting line rest → S.emission? line ≠ none := by
    intro rest hemitting
    obtain ⟨e, hsome, -⟩ := hpaced.emitting hemitting
    simp [hsome]
  have hclear : ∀ {rest}, S.Emitting line rest → sending line rest = [] := by
    intro rest hemitting
    obtain ⟨e, -, -, hclear, -⟩ := hpaced.emitting hemitting
    exact hclear
  cases State.step?_feeds hassembled hsource hthere hstep with
  | aside haside hemission hnext =>
      intro e hsome
      obtain ⟨before, hhands, -, hout⟩ := h e (hemission.symm.trans hsome)
      refine ⟨before, hhands, fun m hfocus => absurd hfocus (hnext m), fun m last hmem => ?_⟩
      exact hout m last (State.step?_rounded hsource hitems hpaced hstep haside hmem)
  | start hfocus hpull hemission hstack hnext =>
      exact .start hpaced hfocus hpull hemission hstack hnext
  | request hfocus hn hbefore hemission hstack hnext =>
      exact h.request hbefore hemission hstack hnext
  | cancel hfocus hbefore hemission hstack hnext => exact h.cancel hbefore hemission hstack hnext
  | deliver hfocus hbefore hverdict hahead hemission hstack hnext =>
      exact h.deliver hfocus hbefore (hclear (.inl ⟨_, hfocus, rfl⟩)) hverdict hahead hemission
        hstack (State.Calm.of_sourceSignal hnext).emit
  | @settle m e hfocus hbefore hverdict hemission hstack hnext =>
      obtain ⟨before, hhands, -⟩ := h e hbefore
      refine .of_idle hemission (hhands.keep rfl rfl) (by simp [hnext]) ?_
      exact emitting_not_mem (hstack ▸ hclear (.inl ⟨_, hfocus, rfl⟩))
  | @finish rest e hemitting hbefore hafter =>
      obtain ⟨before, hhands, -⟩ := h e hbefore
      rcases hafter with ⟨hemission, hstack, hnext⟩ | ⟨hemission, hstack, hnext⟩
      · refine .of_idle hemission hhands (by simp [hnext]) ?_
        exact emitting_not_mem (hstack ▸ hclear hemitting)
      · refine .of_idle hemission (hhands.keep rfl rfl) (State.Calm.of_sourceSignal hnext).emit ?_
        intro m last hmem
        rw [hstack] at hmem
        rcases List.mem_cons.mp hmem with heq | hearlier
        · cases heq
        · exact emitting_not_mem (hclear hemitting) m last hearlier
  | goOn hfocus hwaits hemission hstack hnext =>
      refine h.goOn hlength hwaits ?_ (hclear (.inr ⟨_, _, _, hfocus, hwaits⟩)) hemission hstack
        hnext
      split
      · exact .inl rfl
      · exact .inr rfl

theorem move {m : Move α ε} (h : Tallied all line S) (hmove : Moved P S U m) :
    Tallied all line U := by
  intro e hsome
  obtain ⟨before, hhands, -, hout⟩ := h e ((State.move_emission? hmove).symm.trans hsome)
  refine ⟨before, hhands, fun m hfocus => absurd hfocus (State.move_ne_emit hmove m), ?_⟩
  exact fun m last hmem => hout m last (State.move_rounded hmove hmem)

theorem of_start (ambient : Context) : Tallied all line (State.start P ambient) :=
  fun _ hsome => nomatch hsome

theorem run {history : List (Entry α ε)} (h : Tallied all line S) (hpaced : Paced line S)
    (hassembled : S.Assembled P) (hsource : P.source = .sequence (all[·]?))
    (hitems : all[0]? ≠ none) (hlength : all.length < 2 ^ 64) (hrun : Run P S history U) :
    Tallied all line U := by
  induction hrun with
  | refl => exact h
  | step hbefore hstep ih =>
      exact ih.step (hpaced.run hassembled hsource hitems hbefore) (hassembled.run hbefore) hsource
        hitems hlength hstep
  | move hbefore hmove ih => exact ih.move (State.move?_moved hmove)

end Tallied

namespace Paced

/-- Unbounded demand stays, and the sequence is never asked less. -/
theorem step_onward (hpaced : Paced line S) (hassembled : S.Assembled P)
    (hsource : P.source = .sequence pull) (hbefore : S.emission? line = some e)
    (hstep : S.step? P = some (U, events)) : ∃ e', U.emission? line = some e' ∧ e.Onward e' := by
  have hsame : ∀ {e'}, S.emission? line = some e' → e' = e := fun hsome =>
    Option.some.inj (hsome.symm.trans hbefore)
  have hthere : ∀ rest, S.Emitting line rest → S.emission? line ≠ none := by simp [hbefore]
  cases State.step?_feeds hassembled hsource hthere hstep with
  | aside _ hemission => exact ⟨e, hemission.trans hbefore, .refl e⟩
  | start hfocus =>
      rw [(hpaced.joining hfocus).1] at hbefore
      cases hbefore
  | request _ _ hsome hemission =>
      obtain rfl := hsame hsome
      exact ⟨_, hemission, .request _ _⟩
  | cancel _ hsome hemission =>
      obtain rfl := hsame hsome
      exact ⟨_, hemission, Nat.le_refl _, id⟩
  | deliver _ hsome _ _ hemission =>
      obtain rfl := hsame hsome
      exact ⟨_, hemission, .advance _ pull⟩
  | settle _ hsome hverdict hemission =>
      obtain rfl := hsame hsome
      exact ⟨_, hemission, .settle hverdict⟩
  | finish _ hsome hafter =>
      obtain rfl := hsame hsome
      rcases hafter with ⟨hemission, -⟩ | ⟨hemission, -⟩
      · exact ⟨_, hemission, .refl _⟩
      · exact ⟨_, hemission, Nat.le_refl _, id⟩
  | goOn _ _ hemission => exact ⟨e, hemission.trans hbefore, .refl e⟩

theorem onward {history : List (Entry α ε)} (hpaced : Paced line S) (hassembled : S.Assembled P)
    (hsource : P.source = .sequence pull) (hitems : pull 0 ≠ none)
    (hbefore : S.emission? line = some e) (hrun : Run P S history U) :
    ∃ e', U.emission? line = some e' ∧ e.Onward e' := by
  induction hrun with
  | refl => exact ⟨e, hbefore, .refl e⟩
  | step hearlier hstep ih =>
      obtain ⟨e', hsome, honward⟩ := ih
      obtain ⟨e'', hemission, hnext⟩ :=
        (hpaced.run hassembled hsource hitems hearlier).step_onward (hassembled.run hearlier)
          hsource hsome hstep
      exact ⟨e'', hemission, honward.trans hnext⟩
  | move hearlier hmove ih =>
      obtain ⟨e', hsome, honward⟩ := ih
      exact ⟨e', (State.move_emission? (State.move?_moved hmove)).trans hsome, honward⟩

end Paced

end Wiretap

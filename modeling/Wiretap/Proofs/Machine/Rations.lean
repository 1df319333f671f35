import Wiretap.Proofs.Emission.Serving
import Wiretap.Proofs.Machine.Supply

/-!
# An emission keeps to what it was asked for

A line whose source is a list is in one of four phases: its emission has not been started, it rests,
its loop is about to go round, or an item is out. In each of them the items handed out so far are a
prefix of the list, and the items that the client takes are no more than the client has asked for.
Demand may get lost on its way through the line, but it does not grow there.
-/

namespace Wiretap

variable {K : Kinds} {σ α ε : Type} {P : Plan σ α ε} {S U : State σ α ε} {line : Nat}
  {events : List (Event α ε)}

/-- How many items a call asks for on a line. -/
def Call.asks (line : Nat) : Call α ε → Nat
  | .control l _ _ (.request n) => if l = line then n.toNat else 0
  | _ => 0

/-- How many items of a line are just being asked for. -/
def State.asking (S : State σ α ε) (line : Nat) : Nat :=
  match S.focus with
  | .call c => c.asks line
  | _ => 0

/-- The number of items that the client of a line asks for in a move. -/
def Move.asked? (line : Nat) : Move α ε → Option UInt64
  | .control l _ (.request n) => if l = line then some n else none
  | _ => none

/-- The machine is neither in the loop of a line's emission, nor is the line being assembled. -/
structure State.Calm (S : State σ α ε) (line : Nat) : Prop where
  emit : ∀ n, S.focus ≠ .call (.emit line n)
  join : ∀ position context, S.focus ≠ .call (.join line position context)

namespace State

theorem asking_of_call {c : Call α ε} (hfocus : S.focus = .call c) :
    S.asking line = c.asks line := by
  rw [asking, hfocus]

theorem asking_of_back {b : Bool} (hfocus : S.focus = .back b) : S.asking line = 0 := by
  rw [asking, hfocus]

theorem asking_of_outside {b : Bool} (hfocus : S.focus = .outside b) : S.asking line = 0 := by
  rw [asking, hfocus]

theorem asking_signal {l position : Nat} {s : Signal α (TapError ε)}
    (hfocus : S.focus = .call (P.signal l position s)) : S.asking line = 0 := by
  rw [asking_of_call hfocus]
  unfold Plan.signal
  split <;> rfl

theorem asking_sourceSignal {l : Nat} {s : Signal α ε}
    (hfocus : S.focus = .call (P.sourceSignal l s)) : S.asking line = 0 := by
  rw [asking_of_call hfocus]
  unfold Plan.sourceSignal
  split <;> rfl

/-- What a turn asks for was asked for. -/
theorem asking_turned {rest : List (Frame α ε)} {l place bound : Nat} {turn : Tap.Turn σ α ε}
    (hturned : Turned P S rest l place turn U)
    (hup : ∀ h n r, turn.next = .up h (.request n) r → l = line → n.toNat ≤ bound) :
    U.asking line ≤ bound := by
  have hnext := hturned.next
  cases hturn : turn.next with
  | answer b =>
      rw [hturn] at hnext
      exact asking_of_back hnext.2 ▸ Nat.zero_le _
  | down s r =>
      rw [hturn] at hnext
      exact asking_signal hnext.2 ▸ Nat.zero_le _
  | up h c r =>
      rw [hturn] at hnext
      rw [asking_of_call hnext.2]
      cases c with
      | cancel => exact Nat.zero_le _
      | request n =>
          unfold Call.asks
          dsimp only
          split
          next hline => exact hup h n r hturn hline
          next => exact Nat.zero_le _

/-- Demand does not grow on its way. -/
theorem step_asking (hstep : Stepped P S U events) : U.asking line ≤ S.asking line := by
  have hnone : U.asking line = 0 → U.asking line ≤ S.asking line := fun h => h ▸ Nat.zero_le _
  cases hstep with
  | @serve c l place input p t hfocus hinput hplan htap hturned =>
      refine asking_turned hturned fun h n r hnext hline => ?_
      cases t.serve_passes (p.listener _) (.tap place) (S.isConditional l) input with
      | inert hinert => cases (hinert.up h _ r hnext).1
      | item _ hdown => rw [hdown] at hnext; cases hnext
      | offer _ hdown => rw [hdown] at hnext; cases hnext
      | request hasked hup =>
          rw [hup] at hnext
          cases hnext
          subst hasked hline
          rw [asking_of_call hfocus]
          cases c with
          | tap l' place' s => cases hinput
          | control l' position handle c =>
              cases handle with
              | tap place' =>
                  cases hinput
                  simp [Call.asks]
              | _ => cases hinput
          | _ => cases hinput
  | @resume b l place guard r rest p t hfocus hstack hplan htap hturned =>
      refine asking_turned hturned fun h n r' hnext _ => ?_
      rcases t.resume_passes (p.listener _) r b with hinert | ⟨x, -, -, hanswer⟩
      · cases (hinert.up h _ r' hnext).1
      · rw [hanswer] at hnext
        cases hnext
  | setUp hfocus hplan hlines hstack hnext => exact hnone (asking_of_call hnext)
  | refuse hfocus hplan hlines hstack hnext => exact hnone (asking_signal hnext)
  | explain hfocus hstack hlines hrest hnext => exact hnone (asking_signal hnext)
  | hear hfocus hlines hstack hnext => exact hnone (asking_of_outside hnext)
  | callOut hfocus hcall hlines hstack hnext => exact hnone (asking_of_outside hnext)
  | endStream hfocus hlines hstack hnext => exact hnone (asking_sourceSignal hnext)
  | ended hfocus hstack hlines hrest hnext => exact hnone (asking_sourceSignal hnext)
  | startEmission hfocus hlines hstack hnext => exact hnone (asking_sourceSignal hnext)
  | emit hemitting hlines hframe hstack hnext => exact hnone (asking_sourceSignal hnext)
  | loop hemitting hlines hstack hnext => exact hnone (asking_of_call hnext)
  | idle hfocus hcall hclient hlines hstack hnext => exact hnone (asking_of_back hnext)
  | pop hfocus hstack hframe hlines hrest hnext => exact hnone (asking_of_back hnext)
  | handOver hfocus hstack hlines hsame hnext => exact hnone (asking_of_outside hnext)

/-- In a move the client asks for what it says. -/
theorem move_asking {m : Move α ε} (hmove : Moved P S U m) (hallows : S.allows P m = true) :
    U.asking line = Demand.total (m.asked? line).toList := by
  cases hmove with
  | subscribe hturn hlines hstack hnext => exact asking_of_call hnext
  | signal hturn hlines hstack hnext => exact asking_sourceSignal hnext
  | @control l nth c h b hturn hreceived hlines hstack hnext =>
      rw [asking_of_call hnext]
      cases c with
      | cancel => rfl
      | request n =>
          unfold Call.asks Move.asked?
          dsimp only
          split <;> simp
  | direct => cases hallows
  | answer hturn hstack hlines hrest hnext => exact asking_of_back hnext

theorem Calm.of_back {b : Bool} (hfocus : S.focus = .back b) : S.Calm line :=
  ⟨by simp [hfocus], by simp [hfocus]⟩

theorem Calm.of_sourceSignal {l : Nat} {s : Signal α ε}
    (hfocus : S.focus = .call (P.sourceSignal l s)) : S.Calm line where
  emit := fun n => hfocus ▸ sourceSignal_ne_emit l s n
  join := fun position context => hfocus ▸ Assembled.sourceSignal_ne_join l line position s context

/-- A line that has been assembled is not assembled again. -/
theorem Calm.aside (h : S.Calm line) (hstep : Stepped P S U events)
    (hnext : ∀ n, U.focus ≠ .call (.emit line n)) : U.Calm line where
  emit := hnext
  join := by
    intro position context hnow
    obtain ⟨context', hfocus, -⟩ := step_join hstep hnow
    exact h.join _ _ hfocus

theorem move_ne_emit {m : Move α ε} (hmove : Moved P S U m) (n : UInt64) :
    U.focus ≠ .call (.emit line n) := by
  cases hmove with
  | subscribe hturn hlines hstack hnext => simp [hnext]
  | @signal l s b hturn hlines hstack hnext => exact hnext ▸ sourceSignal_ne_emit l s n
  | control hturn hreceived hlines hstack hnext => simp [hnext]
  | direct hturn hlines hstack hnext => simp [hnext]
  | answer hturn hstack hlines hrest hnext => simp [hnext]

theorem Calm.of_move {m : Move α ε} (hmove : Moved P S U m) (hline : line < S.lines.length) :
    U.Calm line where
  emit := move_ne_emit hmove
  join := by
    intro position context hnow
    cases hmove with
    | subscribe hturn hlines hstack hnext =>
        rw [hnext] at hnow
        cases hnow
        exact Nat.lt_irrefl _ hline
    | @signal l s b hturn hlines hstack hnext =>
        exact Assembled.sourceSignal_ne_join l line position s context (hnext ▸ hnow)
    | control hturn hreceived hlines hstack hnext => simp [hnext] at hnow
    | direct hturn hlines hstack hnext => simp [hnext] at hnow
    | answer hturn hstack hlines hrest hnext => simp [hnext] at hnow

theorem move_emission? {m : Move α ε} (hmove : Moved P S U m) :
    U.emission? line = S.emission? line := by
  cases hmove with
  | subscribe hturn hlines =>
      exact (emission?_eq hlines line).trans (addLine_emission? _ line)
  | signal hturn hlines => exact emission?_eq hlines line
  | control hturn hreceived hlines => exact emission?_eq hlines line
  | direct hturn hlines => exact emission?_eq hlines line
  | answer hturn hstack hlines => exact emission?_eq hlines line

end State

/-! ## The phases -/

/-- The items `before` of the list have been handed out on a line whose client has asked for `asked`
items in all. Of the items, the client takes at most those that satisfy `q`. -/
inductive Rationed (q : α → Bool) (all : List α) (line asked : Nat) :
    List α → State σ α ε → Prop
  /-- The emission has not been started. -/
  | unborn {S : State σ α ε} (hemission : S.emission? line = none)
    (hrounds : Unrounded line S.stack) (hloop : ∀ n, S.focus ≠ .call (.emit line n))
    (hasked : S.asking line ≤ asked) : Rationed q all line asked [] S
  /-- The loop does not run. -/
  | resting {S : State σ α ε} {e : Emission α} {before : List α} {total : Nat}
    (hemission : S.emission? line = some e) (hrounds : Unrounded line S.stack)
    (hcalm : S.Calm line) (hhands : e.Hands all before) (hwithin : Emission.Within q before total)
    (hasked : total + S.asking line ≤ asked) : Rationed q all line asked before S
  /-- The loop is about to go round. -/
  | looping {S : State σ α ε} {e : Emission α} {before : List α} {total : Nat} {m : UInt64}
    (hemission : S.emission? line = some e) (hrounds : Unrounded line S.stack)
    (hfocus : S.focus = .call (.emit line m)) (hrequested : e.requested ≠ 0)
    (hhands : e.Hands all before) (hmeters : e.Meters q before m 0 total)
    (hasked : total ≤ asked) : Rationed q all line asked before S
  /-- An item is out. -/
  | handing {S : State σ α ε} {e : Emission α} {before : List α} {total : Nat} {m : UInt64}
    {x : α} (hemission : S.emission? line = some e) (hout : S.HasOut q line x m)
    (hcalm : S.Calm line) (hrequested : e.requested ≠ 0) (hhands : e.Hands all (before ++ [x]))
    (hmeters : e.Meters q before m 1 total) (hasked : total + S.asking line ≤ asked) :
    Rationed q all line asked (before ++ [x]) S

namespace Rationed

variable {q : α → Bool} {all before : List α} {asked : Nat} {e : Emission α}

/-- The loop does not run without an emission. -/
theorem there (h : Rationed q all line asked before S) {rest : List (Frame α ε)}
    (hemitting : S.Emitting line rest) : S.emission? line ≠ none := by
  cases h with
  | unborn hemission hrounds hloop =>
      rcases hemitting with ⟨n, hfocus, -⟩ | ⟨b, n, last, -, hstack⟩
      · exact absurd hfocus (hloop n)
      · have hframe := hrounds (.emitting line n last) (hstack ▸ List.mem_cons_self)
        simp [Frame.isRound] at hframe
  | resting hemission => simp [hemission]
  | looping hemission => simp [hemission]
  | handing hemission => simp [hemission]

theorem aside (h : Rationed q all line asked before S) (hstep : S.step? P = some (U, events))
    (haside : ∀ rest, ¬S.Emitting line rest) (hemission : U.emission? line = S.emission? line)
    (hnext : ∀ n, U.focus ≠ .call (.emit line n)) : Rationed q all line asked before U := by
  have hstepped := State.step?_stepped hstep
  have hasking : U.asking line ≤ S.asking line := State.step_asking hstepped
  cases h with
  | unborn hnone hrounds hloop hasked =>
      exact .unborn (hemission.trans hnone) (hrounds.step hstepped haside) hnext
        (Nat.le_trans hasking hasked)
  | resting hsome hrounds hcalm hhands hwithin hasked =>
      exact .resting (hemission.trans hsome) (hrounds.step hstepped haside)
        (hcalm.aside hstepped hnext) hhands hwithin (by omega)
  | looping hsome hrounds hfocus => exact absurd (.inl ⟨_, hfocus, rfl⟩) (haside S.stack)
  | handing hsome hout hcalm hrequested hhands hmeters hasked =>
      exact .handing (hemission.trans hsome) (hout.aside hstep haside)
        (hcalm.aside hstepped hnext) hrequested hhands hmeters (by omega)

theorem start (h : Rationed q all line asked before S) {context : Context} {x : α}
    (hfocus : S.focus = .call (.join line 0 context)) (hpull : all[0]? = some x)
    (hemission : U.emission? line = some (.start x)) (hstack : U.stack = S.stack)
    (hnext : U.focus = .call (P.sourceSignal line (.subscribe .emission))) :
    Rationed q all line asked before U := by
  cases h with
  | unborn hnone hrounds hloop hasked =>
      obtain ⟨y, rest, rfl⟩ := List.exists_cons_of_ne_nil (l := all) (by rintro rfl; cases hpull)
      cases hpull
      have hwithin : Emission.Within q ([] : List α) 0 := .inr (Nat.le_refl 0)
      refine .resting hemission (hstack ▸ hrounds) (.of_sourceSignal hnext) .start hwithin ?_
      rw [State.asking_sourceSignal hnext]
      exact Nat.zero_le _
  | resting hsome hrounds hcalm => exact absurd hfocus (hcalm.join _ _)
  | looping hsome hrounds hloop =>
      rw [hfocus] at hloop
      cases hloop
  | handing hsome hout hcalm => exact absurd hfocus (hcalm.join _ _)

theorem request (h : Rationed q all line asked before S) {position : Nat} {n : UInt64}
    (hfocus : S.focus = .call (.control line position .emission (.request n))) (hn : n ≠ 0)
    (hbefore : S.emission? line = some e) (hemission : U.emission? line = some (e.request n))
    (hstack : U.stack = S.stack)
    (hnext : U.focus = if e.startsLoop then .call (.emit line 0) else .back true) :
    Rationed q all line asked before U := by
  have hasking : S.asking line = n.toNat := by
    rw [State.asking_of_call hfocus]
    simp [Call.asks]
  cases h with
  | unborn hnone => simp [hbefore] at hnone
  | @resting _ e' _ total hsome hrounds hcalm hhands hwithin hasked =>
      obtain rfl : e' = e := Option.some.inj (hsome.symm.trans hbefore)
      have hhands' : (e'.request n).Hands all before := hhands.keep rfl rfl
      cases hstarts : e'.startsLoop with
      | true =>
          have hzero : e'.requested = 0 := by
            simp only [Emission.startsLoop, Bool.and_eq_true, beq_iff_eq] at hstarts
            exact hstarts.1
          rw [hstarts, if_pos rfl] at hnext
          exact .looping hemission (hstack ▸ hrounds) hnext (Emission.request_ne_zero (.inr hn))
            hhands' (.start hwithin hzero n) (by omega)
      | false =>
          rw [hstarts, if_neg Bool.false_ne_true] at hnext
          refine .resting hemission (hstack ▸ hrounds) (.of_back hnext) hhands'
            (hwithin.mono (Nat.le_add_right total n.toNat)) ?_
          rw [State.asking_of_back hnext]
          omega
  | looping hsome hrounds hloop =>
      rw [hfocus] at hloop
      cases hloop
  | @handing _ e' _ total m x hsome hout hcalm hrequested hhands hmeters hasked =>
      obtain rfl : e' = e := Option.some.inj (hsome.symm.trans hbefore)
      rw [Emission.startsLoop_of_busy hrequested, if_neg Bool.false_ne_true] at hnext
      refine .handing hemission (hout.keep hstack (by simp [hnext]) (by simp [hnext]))
        (.of_back hnext) (Emission.request_ne_zero (.inl hrequested)) (hhands.keep rfl rfl)
        (hmeters.request n) ?_
      rw [State.asking_of_back hnext]
      omega

theorem cancel (h : Rationed q all line asked before S) {position : Nat}
    (hfocus : S.focus = .call (.control line position .emission .cancel))
    (hbefore : S.emission? line = some e) (hemission : U.emission? line = some e.cancel)
    (hstack : U.stack = S.stack) (hnext : U.focus = .back true) :
    Rationed q all line asked before U := by
  have hasking : U.asking line = 0 := State.asking_of_back hnext
  cases h with
  | unborn hnone => simp [hbefore] at hnone
  | @resting _ e' _ total hsome hrounds hcalm hhands hwithin hasked =>
      obtain rfl : e' = e := Option.some.inj (hsome.symm.trans hbefore)
      exact .resting hemission (hstack ▸ hrounds) (.of_back hnext) (hhands.keep rfl rfl) hwithin
        (by omega)
  | looping hsome hrounds hloop =>
      rw [hfocus] at hloop
      cases hloop
  | @handing _ e' _ total m x hsome hout hcalm hrequested hhands hmeters hasked =>
      obtain rfl : e' = e := Option.some.inj (hsome.symm.trans hbefore)
      exact .handing hemission (hout.keep hstack (by simp [hnext]) (by simp [hnext]))
        (.of_back hnext) hrequested (hhands.keep rfl rfl) hmeters (by omega)

/-- The loop is about to go round whenever it is in focus. -/
theorem loops (h : Rationed q all line asked before S) {m : UInt64}
    (hfocus : S.focus = .call (.emit line m)) (hbefore : S.emission? line = some e) :
    Unrounded line S.stack ∧ e.requested ≠ 0 ∧ e.Hands all before ∧
      ∃ total, e.Meters q before m 0 total ∧ total ≤ asked := by
  cases h with
  | unborn hnone => simp [hbefore] at hnone
  | resting hsome hrounds hcalm => exact absurd hfocus (hcalm.emit m)
  | @looping _ e' _ total m' hsome hrounds hloop hrequested hhands hmeters hasked =>
      obtain rfl : e' = e := Option.some.inj (hsome.symm.trans hbefore)
      rw [hfocus] at hloop
      cases hloop
      exact ⟨hrounds, hrequested, hhands, total, hmeters, hasked⟩
  | handing hsome hout hcalm => exact absurd hfocus (hcalm.emit m)

/-- An item comes back when the loop is what a call returns to. -/
theorem comesBack (h : Rationed q all line asked before S) {b last : Bool} {m : UInt64}
    {rest : List (Frame α ε)} (hfocus : S.focus = .back b)
    (hstack : S.stack = .emitting line m last :: rest) (hbefore : S.emission? line = some e) :
    Unrounded line rest ∧ e.requested ≠ 0 ∧ e.Hands all before ∧
      ∃ first x total, before = first ++ [x] ∧ e.Meters q first m 1 total ∧ total ≤ asked ∧
        (S.isConditional line = true → b = false → q x = false) := by
  have hround : ¬Unrounded line S.stack := by
    intro hrounds
    have hframe := hrounds (.emitting line m last) (hstack ▸ List.mem_cons_self)
    simp [Frame.isRound] at hframe
  cases h with
  | unborn hnone => simp [hbefore] at hnone
  | resting hsome hrounds => exact absurd hrounds hround
  | looping hsome hrounds => exact absurd hrounds hround
  | @handing _ e' first total m' x hsome hout hcalm hrequested hhands hmeters hasked =>
      obtain rfl : e' = e := Option.some.inj (hsome.symm.trans hbefore)
      have hat := hout.out
      rw [hstack] at hat
      obtain ⟨rfl, hrest⟩ := hat.at_round
      refine ⟨hrest, hrequested, hhands, first, x, total, rfl, hmeters, by omega, ?_⟩
      rintro hconditional rfl
      exact hout.returned hfocus (by rw [hstack]; rfl) hconditional

/-- The loop ends. -/
theorem finish (h : Rationed q all line asked before S) {rest : List (Frame α ε)}
    (hemitting : S.Emitting line rest) (hbefore : S.emission? line = some e)
    (hafter : U.emission? line = some e ∧ U.stack = rest ∧ U.focus = .back true ∨
      U.emission? line = some e.detach ∧ U.stack = .completing line :: rest ∧
        U.focus = .call (P.sourceSignal line .complete)) :
    Rationed q all line asked before U := by
  obtain ⟨total, hrest, hhands, hwithin, hasked⟩ : ∃ total, Unrounded line rest ∧
      e.Hands all before ∧ Emission.Within q before total ∧ total ≤ asked := by
    rcases hemitting with ⟨n, hfocus, rfl⟩ | ⟨b, n, last, hfocus, hstack⟩
    · obtain ⟨hrounds, -, hhands, total, hmeters, hasked⟩ := h.loops hfocus hbefore
      exact ⟨total, hrounds, hhands, hmeters.within, hasked⟩
    · obtain ⟨hrest, -, hhands, first, x, total, rfl, hmeters, hasked, -⟩ :=
        h.comesBack hfocus hstack hbefore
      exact ⟨total, hrest, hhands, hmeters.within_out x, hasked⟩
  rcases hafter with ⟨hemission, hstack, hnext⟩ | ⟨hemission, hstack, hnext⟩
  · refine .resting hemission (hstack ▸ hrest) (.of_back hnext) hhands hwithin ?_
    rwa [State.asking_of_back hnext]
  · refine .resting hemission (hstack ▸ hrest.push rfl) (.of_sourceSignal hnext)
      (hhands.keep rfl rfl) hwithin ?_
    rwa [State.asking_sourceSignal hnext]

/-- The loop goes on after an item, and counts it unless the client has refused it. -/
theorem goOn (h : Rationed q all line asked before S) {b : Bool} {m : UInt64}
    {rest : List (Frame α ε)} (hfocus : S.focus = .back b)
    (hstack : S.stack = .emitting line m false :: rest)
    (hemission : U.emission? line = S.emission? line) (hrest : U.stack = rest)
    (hnext : U.focus = .call (.emit line
      (if S.isConditional line && !b then m else m + 1))) :
    Rationed q all line asked before U := by
  obtain ⟨e, hbefore⟩ := Option.ne_none_iff_exists'.mp
    (h.there (.inr ⟨b, m, false, hfocus, hstack⟩))
  obtain ⟨hrounds, hrequested, hhands, first, x, total, rfl, hmeters, hasked, hruledOut⟩ :=
    h.comesBack hfocus hstack hbefore
  rw [hbefore] at hemission
  cases hrefused : S.isConditional line && !b with
  | true =>
      rw [hrefused, if_pos rfl] at hnext
      simp only [Bool.and_eq_true, Bool.not_eq_true'] at hrefused
      exact .looping hemission (hrest ▸ hrounds) hnext hrequested hhands
        (hmeters.refuse (hruledOut hrefused.1 hrefused.2)) hasked
  | false =>
      rw [hrefused, if_neg Bool.false_ne_true] at hnext
      exact .looping hemission (hrest ▸ hrounds) hnext hrequested hhands (hmeters.count x) hasked

/-- An item is handed out. -/
theorem deliver (h : Rationed q all line asked before S) {m : UInt64} {x : α}
    {conditional last : Bool} (hfocus : S.focus = .call (.emit line m))
    (hbefore : S.emission? line = some e) (hverdict : e.verdict m = .deliver)
    (hahead : e.ahead = some x) (hemission : U.emission? line = some (e.advance (all[·]?)))
    (hstack : U.stack = .emitting line m last :: S.stack)
    (hnext : U.focus = .call (P.sourceSignal line (.handOut conditional x))) :
    Rationed q all line asked (before ++ [x]) U := by
  obtain ⟨hrounds, hrequested, hhands, total, hmeters, hasked⟩ := h.loops hfocus hbefore
  refine .handing hemission (.of_handOut hrounds hstack hnext) (.of_sourceSignal hnext) hrequested
    (hhands.deliver hahead) (hmeters.deliver hverdict _) ?_
  rwa [State.asking_sourceSignal hnext]

/-- In a step at most one item is handed out, and it is then on its way. -/
theorem step (h : Rationed q all line asked before S) (hassembled : S.Assembled P)
    (hsource : P.source = .sequence (all[·]?)) (hstep : S.step? P = some (U, events)) :
    ∃ given, Rationed q all line asked (before ++ given) U ∧ U.coming P line = given := by
  have hsame : Rationed q all line asked before U → U.coming P line = [] →
      ∃ given, Rationed q all line asked (before ++ given) U ∧ U.coming P line = given :=
    fun hnow hcoming => ⟨[], by rwa [List.append_nil], hcoming⟩
  cases State.step?_feeds hassembled hsource (fun _ => h.there) hstep with
  | aside haside hemission hnext =>
      exact hsame (h.aside hstep haside hemission hnext) (State.step?_coming hstep haside)
  | start hfocus hpull hemission hstack hnext =>
      exact hsame (h.start hfocus hpull hemission hstack hnext)
        (State.coming_of_call hnext (item?_sourceSignal _))
  | @request position n e hfocus hn hbefore hemission hstack hnext =>
      refine hsame (h.request hfocus hn hbefore hemission hstack hnext) ?_
      split at hnext
      · exact State.coming_of_call hnext rfl
      · exact State.coming_of_back hnext
  | cancel hfocus hbefore hemission hstack hnext =>
      exact hsame (h.cancel hfocus hbefore hemission hstack hnext) (State.coming_of_back hnext)
  | @deliver m e x last hfocus hbefore hverdict hahead hemission hstack hnext =>
      refine ⟨[x], h.deliver hfocus hbefore hverdict hahead hemission hstack hnext, ?_⟩
      rw [State.coming_sourceSignal hnext, if_pos rfl]
      cases S.isConditional line <;> rfl
  | settle hfocus hbefore hverdict hemission hstack hnext =>
      obtain ⟨hrounds, -, hhands, total, hmeters, hasked⟩ := h.loops hfocus hbefore
      refine hsame (.resting hemission (hstack ▸ hrounds) (.of_back hnext) (hhands.keep rfl rfl)
        hmeters.within ?_) (State.coming_of_back hnext)
      rwa [State.asking_of_back hnext]
  | finish hemitting hbefore hafter =>
      refine hsame (h.finish hemitting hbefore hafter) ?_
      rcases hafter with ⟨-, -, hnext⟩ | ⟨-, -, hnext⟩
      · exact State.coming_of_back hnext
      · exact State.coming_of_call hnext (item?_sourceSignal _)
  | goOn hfocus hbefore hemission hstack hnext =>
      exact hsame (h.goOn hfocus hbefore hemission hstack hnext) (State.coming_of_call hnext rfl)

/-- In a move the client may ask for more items. -/
theorem move {m : Move α ε} (h : Rationed q all line asked before S)
    (hsource : P.source = .sequence (all[·]?)) (hallows : S.allows P m = true)
    (hmove : S.move? P m = some U)
    (hjudges : S.isConditional line = true → ∀ b y, m = .answer b →
      S.callbacks.head? = some (.client line (.offer y)) → b = q y) :
    Rationed q all line (asked + Demand.total (m.asked? line).toList) before U := by
  have hmoved := State.move?_moved hmove
  have hasking : U.asking line = Demand.total (m.asked? line).toList :=
    State.move_asking hmoved hallows
  have hemission : U.emission? line = S.emission? line := State.move_emission? hmoved
  obtain ⟨b, hfocus⟩ := State.move_turn hmoved
  have hnow : S.asking line = 0 := State.asking_of_outside hfocus
  have hdriven : P.isDriven = false := by
    rw [Plan.isDriven, hsource]
  cases h with
  | unborn hnone hrounds hloop hasked =>
      exact .unborn (hemission.trans hnone) (hrounds.move hmoved) (State.move_ne_emit hmoved)
        (by omega)
  | resting hsome hrounds hcalm hhands hwithin hasked =>
      exact .resting (hemission.trans hsome) (hrounds.move hmoved)
        (.of_move hmoved (State.lt_of_emission? hsome)) hhands hwithin (by omega)
  | looping hsome hrounds hloop =>
      rw [hfocus] at hloop
      cases hloop
  | handing hsome hout hcalm hrequested hhands hmeters hasked =>
      exact .handing (hemission.trans hsome) (hout.move hdriven hmove hjudges)
        (.of_move hmoved (State.lt_of_emission? hsome)) hrequested hhands hmeters (by omega)

/-- What has been handed out begins the list. -/
theorem isPrefix (h : Rationed q all line asked before S) : before <+: all := by
  cases h with
  | unborn => exact List.nil_prefix
  | resting _ _ _ hhands => exact hhands.isPrefix
  | looping _ _ _ _ hhands => exact hhands.isPrefix
  | handing _ _ _ _ hhands => exact hhands.isPrefix

/-- No more items that satisfy `q` have been handed out than the client has asked for. -/
theorem within (h : Rationed q all line asked before S) : Emission.Within q before asked := by
  cases h with
  | unborn => exact .inr (Nat.zero_le _)
  | resting _ _ _ _ hwithin hasked => exact hwithin.mono (by omega)
  | looping _ _ _ _ _ hmeters hasked => exact hmeters.within.mono hasked
  | @handing _ _ _ _ _ x _ _ _ _ _ hmeters hasked => exact (hmeters.within_out x).mono (by omega)

end Rationed

end Wiretap

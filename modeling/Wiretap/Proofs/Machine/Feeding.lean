import Wiretap.Proofs.Emission.Metered
import Wiretap.Proofs.Machine.Assembly

/-!
# What a step is to an emission

An emission is started when its line is joined to the source. After that only the controls that
reach its handle and the rounds of its loop change it. This module says once what all of these do to
the emission of one line; any other step leaves it alone and does not enter its loop.
-/

namespace Wiretap

variable {K : Kinds} {σ α ε : Type} {P : Plan σ α ε} {S U : State σ α ε} {line : Nat}

/-- Does the loop of a line's emission wait in this frame? -/
def Frame.isRound (line : Nat) : Frame α ε → Bool
  | .emitting l _ _ => l == line
  | _ => false

/-- The loop of a line's emission waits nowhere. -/
def Unrounded (line : Nat) (stack : List (Frame α ε)) : Prop :=
  ∀ f ∈ stack, f.isRound line = false

/-- What the loop of an emission hands out to a receiver that can refuse items, or cannot. -/
def Signal.handOut (conditional : Bool) (x : α) : Signal α ε :=
  if conditional then .offer x else .next x

/-- From `S` the machine steps to `U`, which is this to the emission of a line whose sequence is
given by its pulls. -/
inductive Feeds (P : Plan σ α ε) (pull : Nat → Option α) (line : Nat) (S U : State σ α ε) : Prop
  /-- It concerns others. -/
  | aside (haside : ∀ rest, ¬S.Emitting line rest)
    (hemission : U.emission? line = S.emission? line)
    (hnext : ∀ n, U.focus ≠ .call (.emit line n))
  /-- The emission is started. -/
  | start {context : Context} {x : α} (hfocus : S.focus = .call (.join line 0 context))
    (hpull : pull 0 = some x) (hemission : U.emission? line = some (.start x))
    (hstack : U.stack = S.stack)
    (hnext : U.focus = .call (P.sourceSignal line (.subscribe .emission)))
  /-- Items are asked for. -/
  | request {position : Nat} {n : UInt64} {e : Emission α}
    (hfocus : S.focus = .call (.control line position .emission (.request n))) (hn : n ≠ 0)
    (hbefore : S.emission? line = some e) (hemission : U.emission? line = some (e.request n))
    (hstack : U.stack = S.stack)
    (hnext : U.focus = if e.startsLoop then .call (.emit line 0) else .back true)
  /-- The receiver cancels. -/
  | cancel {position : Nat} {e : Emission α}
    (hfocus : S.focus = .call (.control line position .emission .cancel))
    (hbefore : S.emission? line = some e) (hemission : U.emission? line = some e.cancel)
    (hstack : U.stack = S.stack) (hnext : U.focus = .back true)
  /-- An item is handed out. -/
  | deliver {emitted : UInt64} {e : Emission α} {x : α} {last : Bool}
    (hfocus : S.focus = .call (.emit line emitted)) (hbefore : S.emission? line = some e)
    (hverdict : e.verdict emitted = .deliver) (hahead : e.ahead = some x)
    (hemission : U.emission? line = some (e.advance pull))
    (hstack : U.stack = .emitting line emitted last :: S.stack)
    (hnext : U.focus = .call (P.sourceSignal line (.handOut (S.isConditional line) x)))
  /-- The loop ends, and nothing is asked for any more. -/
  | settle {emitted : UInt64} {e : Emission α} (hfocus : S.focus = .call (.emit line emitted))
    (hbefore : S.emission? line = some e) (hverdict : e.verdict emitted = .settle)
    (hemission : U.emission? line = some (e.settle emitted)) (hstack : U.stack = S.stack)
    (hnext : U.focus = .back true)
  /-- The loop ends, after the last item or because of a cancellation. -/
  | finish {rest : List (Frame α ε)} {e : Emission α} (hemitting : S.Emitting line rest)
    (hbefore : S.emission? line = some e)
    (hafter : U.emission? line = some e ∧ U.stack = rest ∧ U.focus = .back true ∨
      U.emission? line = some e.detach ∧ U.stack = .completing line :: rest ∧
        U.focus = .call (P.sourceSignal line .complete))
  /-- The loop goes on after an item. -/
  | goOn {b : Bool} {emitted : UInt64} {rest : List (Frame α ε)} (hfocus : S.focus = .back b)
    (hbefore : S.stack = .emitting line emitted false :: rest)
    (hemission : U.emission? line = S.emission? line) (hstack : U.stack = rest)
    (hnext : U.focus = .call (.emit line
      (if S.isConditional line && !b then emitted else emitted + 1)))

namespace Unrounded

variable {f : Frame α ε} {rest : List (Frame α ε)}

theorem push (h : Unrounded line rest) (hf : f.isRound line = false) :
    Unrounded line (f :: rest) := by
  intro g hg
  rcases List.mem_cons.mp hg with rfl | hg
  · exact hf
  · exact h g hg

theorem pop (h : Unrounded line (f :: rest)) : Unrounded line rest :=
  fun g hg => h g (List.mem_cons_of_mem f hg)

/-- A loop that waits nowhere and does not go round does not run. -/
theorem not_emitting (h : Unrounded line S.stack) (hloop : ∀ n, S.focus ≠ .call (.emit line n)) :
    ¬S.Emitting line rest := by
  rintro (⟨n, hfocus, -⟩ | ⟨b, n, last, -, hstack⟩)
  · exact hloop n hfocus
  · have hframe := h (.emitting line n last) (hstack ▸ List.mem_cons_self)
    simp [Frame.isRound] at hframe

theorem emitting (h : Unrounded line S.stack) {l : Nat} (hemitting : S.Emitting l rest) :
    Unrounded line rest := by
  rcases hemitting with ⟨n, -, hstack⟩ | ⟨b, n, last, -, hstack⟩
  · exact hstack ▸ h
  · rw [hstack] at h
    exact h.pop

theorem turned (h : Unrounded line rest) {l place : Nat} {turn : Tap.Turn σ α ε}
    (hturned : Turned P S rest l place turn U) : Unrounded line U.stack := by
  rcases hturned.stack with ⟨-, hstack⟩ | ⟨guard, r, -, hstack⟩
  · exact hstack ▸ h
  · exact hstack ▸ h.push rfl

/-- A step that does not concern the emission does not make its loop wait. -/
theorem step (h : Unrounded line S.stack) {events : List (Event α ε)}
    (hstep : Stepped P S U events) (haside : ∀ rest, ¬S.Emitting line rest) :
    Unrounded line U.stack := by
  have hpopped : ∀ {f : Frame α ε} {rest : List (Frame α ε)}, S.stack = f :: rest →
      Unrounded line rest := fun hstack => (hstack ▸ h : Unrounded line _).pop
  cases hstep with
  | serve hfocus hinput hplan htap hturned => exact h.turned hturned
  | resume hfocus hstack hplan htap hturned => exact (hpopped hstack).turned hturned
  | setUp hfocus hplan hlines hstack => exact hstack ▸ h.push rfl
  | refuse hfocus hplan hlines hstack => exact hstack ▸ h.push rfl
  | explain hfocus hstack hlines hrest => exact hrest ▸ hpopped hstack
  | hear hfocus hlines hstack => exact hstack ▸ h.push rfl
  | callOut hfocus hcall hlines hstack => exact hstack ▸ h.push rfl
  | endStream hfocus hlines hstack => exact hstack ▸ h.push rfl
  | ended hfocus hstack hlines hrest => exact hrest ▸ hpopped hstack
  | startEmission hfocus hlines hstack => exact hstack ▸ h
  | @emit l rest f s hemitting hlines hframe hstack =>
      refine hstack ▸ (h.emitting hemitting).push ?_
      rcases hframe with ⟨n, last, rfl⟩ | rfl
      · refine beq_false_of_ne ?_
        rintro rfl
        exact haside rest hemitting
      · rfl
  | loop hemitting hlines hstack =>
      rw [hstack]
      rcases hemitting with hemitting | ⟨position, k, -, hsame⟩
      · exact h.emitting hemitting
      · exact hsame ▸ h
  | idle hfocus hcall hclient hlines hstack => exact hstack ▸ h
  | pop hfocus hstack hframe hlines hrest => exact hrest ▸ hpopped hstack
  | handOver hfocus hstack hlines hsame => exact hsame ▸ h

theorem move (h : Unrounded line S.stack) {m : Move α ε} (hmove : Moved P S U m) :
    Unrounded line U.stack := by
  cases hmove with
  | subscribe hturn hlines hstack => exact hstack ▸ h
  | signal hturn hlines hstack => exact hstack ▸ h
  | control hturn hreceived hlines hstack => exact hstack ▸ h
  | direct hturn hlines hstack => exact hstack ▸ h
  | answer hturn hstack hlines hrest =>
      rw [hstack] at h
      exact hrest ▸ h.pop

end Unrounded

namespace State

theorem emission?_eq (hlines : U.lines = S.lines) (line : Nat) :
    U.emission? line = S.emission? line := by
  rw [emission?, emission?, hlines]

theorem modifyLine_emission? (l : Nat) {f : Line σ α → Line σ α}
    (hf : ∀ found, (f found).emission = found.emission) (line : Nat) :
    (S.modifyLine l f).emission? line = S.emission? line := by
  unfold emission? modifyLine
  dsimp only
  rw [List.getElem?_modify]
  cases S.lines[line]? with
  | none => rfl
  | some found => by_cases hline : l = line <;> simp [hline, hf]

theorem setEmission_emission?_self (hline : line < S.lines.length) (e : Emission α) :
    (S.setEmission line e).emission? line = some e := by
  simp [emission?, setEmission, modifyLine, hline]

theorem setEmission_emission?_other {l : Nat} (hother : l ≠ line) (e : Emission α) :
    (S.setEmission l e).emission? line = S.emission? line := by
  unfold emission? setEmission modifyLine
  dsimp only
  rw [List.getElem?_modify]
  cases S.lines[line]? with
  | none => rfl
  | some found => simp [hother]

theorem addLine_emission? (client : Client) (line : Nat) :
    (addLine P S client).emission? line = S.emission? line := by
  unfold emission? addLine
  dsimp only
  rcases Nat.lt_trichotomy line S.lines.length with hlt | rfl | hgt
  · rw [List.getElem?_append_left hlt]
  · simp
  · rw [List.getElem?_eq_none (by simp; omega), List.getElem?_eq_none (by omega)]

/-- An emission belongs to a line. -/
theorem lt_of_emission? {e : Emission α} (h : S.emission? line = some e) :
    line < S.lines.length := by
  obtain ⟨found, hfound, -⟩ := Option.bind_eq_some_iff.mp h
  exact (List.getElem?_eq_some_iff.mp hfound).1

/-- The emission of a line is left alone, and its loop is not entered. -/
structure Leaves (line : Nat) (S U : State σ α ε) : Prop where
  emission : U.emission? line = S.emission? line
  focus : ∀ n, U.focus ≠ .call (.emit line n)

namespace Leaves

theorem of_back {b : Bool} (hemission : U.emission? line = S.emission? line)
    (hnext : U.focus = .back b) : Leaves line S U := ⟨hemission, by simp [hnext]⟩

theorem of_outside {b : Bool} (hemission : U.emission? line = S.emission? line)
    (hnext : U.focus = .outside b) : Leaves line S U := ⟨hemission, by simp [hnext]⟩

theorem feeds {pull : Nat → Option α} (h : Leaves line S U)
    (haside : ∀ rest, ¬S.Emitting line rest) : Feeds P pull line S U :=
  .aside haside h.emission h.focus

end Leaves

theorem signal_ne_emit (l position : Nat) (s : Signal α (TapError ε)) (n : UInt64) :
    (.call (P.signal l position s) : Focus α ε) ≠ .call (.emit line n) := by
  unfold Plan.signal
  split <;> simp

theorem sourceSignal_ne_emit (l : Nat) (s : Signal α ε) (n : UInt64) :
    (.call (P.sourceSignal l s) : Focus α ε) ≠ .call (.emit line n) := by
  unfold Plan.sourceSignal
  split <;> simp

theorem setTap_emission? (l place : Nat) (t : Tap σ) (line : Nat) :
    (S.setTap l place t).emission? line = S.emission? line :=
  modifyLine_emission? (f := (·.setTap place t)) l (fun _ => rfl) line

theorem settle_leaves (l place : Nat) (guard : Guard) (turn : Tap.Turn σ α ε) :
    Leaves line S (settle P S l place guard turn).1 := by
  have htap : (S.setTap l place turn.tap).emission? line = S.emission? line :=
    setTap_emission? l place turn.tap line
  unfold settle
  cases turn.next with
  | answer b => exact ⟨htap, by simp [back]⟩
  | down s r => exact ⟨htap, fun n => signal_ne_emit l (place + 1) s n⟩
  | up h c r => exact ⟨htap, by simp [callFrom]⟩

theorem back_leaves (b : Bool) : Leaves line S (S.back b) := .of_back rfl rfl

theorem callTap_leaves (l place : Nat) (input : Tap.Input α ε) :
    Leaves line S (callTap P S l place input).1 := by
  unfold callTap
  split
  next p t hplan htap =>
    have hleaves : Leaves line { S with ambient := (p.scope.install t.context S.ambient).1 } _ :=
      settle_leaves (P := P) l place (p.scope.install t.context S.ambient).2
        (S.served p t l place input)
    exact ⟨hleaves.emission, hleaves.focus⟩
  next => exact back_leaves true

theorem resumeTap_leaves (l place : Nat) (guard : Guard) (r : Tap.Resume α ε) (b : Bool) :
    Leaves line S (resumeTap P S l place guard r b).1 := by
  unfold resumeTap
  split
  · exact settle_leaves l place guard _
  · exact back_leaves true

theorem setUpTap_leaves (l place : Nat) (context : Context) :
    Leaves line S (setUpTap P S l place context).1 := by
  unfold setUpTap
  split
  · exact back_leaves true
  · dsimp only
    split
    · exact ⟨rfl, fun n => signal_ne_emit l (place + 1) _ n⟩
    · split
      · exact ⟨rfl, fun n => signal_ne_emit l (place + 1) _ n⟩
      next t hsetUp => exact ⟨setTap_emission? l place t line, by simp [callFrom]⟩

theorem endStream_leaves (l : Nat) (e : Option ε) : Leaves line S (endStream P S l e) :=
  ⟨rfl, fun n => sourceSignal_ne_emit l _ n⟩

theorem joinSource_leaves {l : Nat} (hother : l ≠ line) :
    Leaves line S (joinSource P S l).1 := by
  unfold joinSource
  split
  · exact endStream_leaves l none
  · exact endStream_leaves l _
  · exact .of_outside rfl rfl
  · split
    · exact endStream_leaves l none
    · exact ⟨setEmission_emission?_other hother _, fun n => sourceSignal_ne_emit l _ n⟩

theorem controlEmission_leaves {l : Nat} (hother : l ≠ line) (c : Control) :
    Leaves line S (controlEmission S l c).1 := by
  unfold controlEmission
  split
  · split
    · refine ⟨?_, ?_⟩
      · dsimp only
        split <;> exact setEmission_emission?_other hother _
      · dsimp only
        split <;> simp [call, back, hother]
    · exact back_leaves true
  · exact .of_back (setEmission_emission?_other hother _) rfl
  · exact back_leaves true

theorem completeEmission_leaves {l : Nat} (hother : l ≠ line) (e : Emission α) :
    Leaves line S (completeEmission P S l e) := by
  unfold completeEmission
  split
  · exact ⟨setEmission_emission?_other hother _, fun n => sourceSignal_ne_emit l _ n⟩
  · exact back_leaves true

theorem emit_leaves {l : Nat} (hother : l ≠ line) (n : UInt64) :
    Leaves line S (emit P S l n).1 := by
  unfold emit
  split
  · split
    · exact back_leaves true
    · refine ⟨?_, ?_⟩
      · dsimp only
        split <;> exact setEmission_emission?_other hother _
      · dsimp only
        split <;> simp [call, back, hother]
    · split
      · exact completeEmission_leaves hother _
      · exact ⟨setEmission_emission?_other hother _, fun n => sourceSignal_ne_emit l _ n⟩
  · exact back_leaves true

theorem resumeEmission_leaves {l : Nat} (hother : l ≠ line) (n : UInt64) (last b : Bool) :
    Leaves line S (resumeEmission P S l n last b) := by
  unfold resumeEmission
  dsimp only
  split
  · exact completeEmission_leaves hother _
  · exact back_leaves true
  · exact ⟨rfl, by simp [call, hother]⟩

theorem joinSource_feeds {pull : Nat → Option α} {context : Context}
    (hsource : P.source = .sequence pull) (hfocus : S.focus = .call (.join line 0 context))
    (hline : line < S.lines.length) : Feeds P pull line S (joinSource P S line).1 := by
  have haside : ∀ rest, ¬S.Emitting line rest := by simp [Emitting, hfocus]
  unfold joinSource
  rw [hsource]
  dsimp only
  split
  · exact .aside haside rfl fun n => sourceSignal_ne_emit line _ n
  next x hpull => exact .start hfocus hpull (setEmission_emission?_self hline _) rfl rfl

theorem controlEmission_feeds {pull : Nat → Option α} {position : Nat} {c : Control}
    (hfocus : S.focus = .call (.control line position .emission c)) :
    Feeds P pull line S (controlEmission S line c).1 := by
  have haside : ∀ rest, ¬S.Emitting line rest := by simp [Emitting, hfocus]
  have hidle : Feeds P pull line S (S.back true) := .aside haside rfl (by simp [back])
  unfold controlEmission
  split
  next e n hbefore =>
    split
    next hpositive =>
      have hn : n ≠ 0 := by simpa [Demand.isPositive] using hpositive
      have hset := setEmission_emission?_self (lt_of_emission? hbefore) (e.request n)
      dsimp only
      split
      next hstarts => exact .request hfocus hn hbefore hset rfl (if_pos hstarts).symm
      next hbusy => exact .request hfocus hn hbefore hset rfl (if_neg hbusy).symm
    next => exact hidle
  next e hbefore =>
    exact .cancel hfocus hbefore (setEmission_emission?_self (lt_of_emission? hbefore) _) rfl rfl
  next => exact hidle

theorem completeEmission_feeds {pull : Nat → Option α} {rest : List (Frame α ε)} {e : Emission α}
    {T : State σ α ε} (hemitting : S.Emitting line rest) (hbefore : S.emission? line = some e)
    (hlines : T.lines = S.lines) (hstack : T.stack = rest) :
    Feeds P pull line S (completeEmission P T line e) := by
  have hnow : T.emission? line = some e := (emission?_eq hlines line).trans hbefore
  refine .finish hemitting hbefore ?_
  unfold completeEmission
  split
  · refine .inr ⟨setEmission_emission?_self (lt_of_emission? hnow) _, ?_, rfl⟩
    simp [callFrom, setEmission, modifyLine, hstack]
  · exact .inl ⟨hnow, hstack, rfl⟩

theorem emit_feeds {pull : Nat → Option α} {n : UInt64} {e : Emission α}
    (hsource : P.source = .sequence pull) (hfocus : S.focus = .call (.emit line n))
    (hbefore : S.emission? line = some e) : Feeds P pull line S (emit P S line n).1 := by
  have hemitting : S.Emitting line S.stack := .inl ⟨n, hfocus, rfl⟩
  have hset : ∀ e', (S.setEmission line e').emission? line = some e' :=
    setEmission_emission?_self (lt_of_emission? hbefore)
  unfold emit
  rw [hsource, hbefore]
  dsimp only
  split
  next hstop => exact .finish hemitting hbefore (.inl ⟨hbefore, rfl, rfl⟩)
  next hsettle =>
    rw [if_pos (Emission.requested_settle hsettle)]
    exact .settle hfocus hbefore hsettle (hset _) rfl rfl
  next hdeliver =>
    split
    next hnone => exact completeEmission_feeds hemitting hbefore rfl rfl
    next x hahead => exact .deliver hfocus hbefore hdeliver hahead (hset _) rfl rfl

theorem resumeEmission_feeds {pull : Nat → Option α} {n : UInt64} {last b : Bool}
    {rest : List (Frame α ε)} {e : Emission α} (hfocus : S.focus = .back b)
    (hstack : S.stack = .emitting line n last :: rest) (hbefore : S.emission? line = some e) :
    Feeds P pull line S (resumeEmission P { S with stack := rest } line n last b) := by
  have hnow : ({ S with stack := rest } : State σ α ε).emission? line = some e := hbefore
  unfold resumeEmission
  rw [hnow]
  cases last with
  | true => exact completeEmission_feeds (.inr ⟨b, n, true, hfocus, hstack⟩) hbefore rfl rfl
  | false => exact .goOn hfocus hstack rfl rfl rfl

theorem make_feeds {pull : Nat → Option α} {c : Call α ε} (hassembled : S.Assembled P)
    (hsource : P.source = .sequence pull) (hfocus : S.focus = .call c)
    (hthere : ∀ n, c = .emit line n → S.emission? line ≠ none) :
    Feeds P pull line S (make P S c).1 := by
  have haside : (∀ n, c ≠ .emit line n) → ∀ rest, ¬S.Emitting line rest := by
    intro hother rest hemitting
    rcases hemitting with ⟨n, hcall, -⟩ | ⟨b, n, last, hback, -⟩
    · rw [hfocus] at hcall
      exact hother n (Focus.call.inj hcall)
    · rw [hfocus] at hback
      cases hback
  cases c with
  | join l position context =>
      cases position with
      | succ place => exact (setUpTap_leaves l place context).feeds (haside (by simp))
      | zero =>
          by_cases hline : l = line
          · subst hline
            exact joinSource_feeds hsource hfocus (hassembled.joining _ _ _ hfocus).started
          · exact (joinSource_leaves hline).feeds (haside (by simp))
  | tap l place s => exact (callTap_leaves l place _).feeds (haside (by simp))
  | client l s =>
      refine Leaves.feeds (.of_outside (modifyLine_emission? l (fun found => ?_) line) rfl)
        (haside (by simp))
      cases s <;> rfl
  | control l position h c =>
      cases h with
      | empty => exact (back_leaves true).feeds (haside (by simp))
      | emission =>
          by_cases hline : l = line
          · subst hline
            exact controlEmission_feeds hfocus
          · exact (controlEmission_leaves hline c).feeds (haside (by simp))
      | tap place => exact (callTap_leaves l place _).feeds (haside (by simp))
      | external id => exact Leaves.feeds (.of_outside rfl rfl) (haside (by simp))
  | emit l n =>
      by_cases hline : l = line
      · subst hline
        obtain ⟨e, he⟩ := Option.ne_none_iff_exists'.mp (hthere n rfl)
        exact emit_feeds hsource hfocus he
      · exact (emit_leaves hline n).feeds (haside (by simp [hline]))

theorem resume_feeds {pull : Nat → Option α} {b : Bool} {f : Frame α ε} {rest : List (Frame α ε)}
    (hfocus : S.focus = .back b) (hstack : S.stack = f :: rest)
    (hthere : f.isRound line = true → S.emission? line ≠ none) :
    Feeds P pull line S (resume P { S with stack := rest } b f).1 := by
  have haside : f.isRound line = false → ∀ rest, ¬S.Emitting line rest := by
    intro hround rest hemitting
    rcases hemitting with ⟨n, hcall, -⟩ | ⟨b', n, last, -, hframe⟩
    · rw [hfocus] at hcall
      cases hcall
    · rw [hstack] at hframe
      cases hframe
      simp [Frame.isRound] at hround
  have hpopped : ∀ {T : State σ α ε}, Leaves line { S with stack := rest } T → Leaves line S T :=
    fun hleaves => ⟨hleaves.emission, hleaves.focus⟩
  cases f with
  | tap l place guard r => exact (hpopped (resumeTap_leaves l place guard r b)).feeds (haside rfl)
  | joining l place guard => exact Leaves.feeds (.of_back rfl rfl) (haside rfl)
  | refusing l position f =>
      exact Leaves.feeds ⟨rfl, fun n => signal_ne_emit l position _ n⟩ (haside rfl)
  | ending l e => exact Leaves.feeds ⟨rfl, fun n => sourceSignal_ne_emit l _ n⟩ (haside rfl)
  | emitting l n last =>
      by_cases hline : l = line
      · subst hline
        obtain ⟨e, he⟩ := Option.ne_none_iff_exists'.mp (hthere (by simp [Frame.isRound]))
        exact resumeEmission_feeds hfocus hstack he
      · refine (hpopped (resumeEmission_leaves hline n last b)).feeds (haside ?_)
        simp [Frame.isRound, hline]
  | completing l => exact Leaves.feeds (.of_back rfl rfl) (haside rfl)
  | outside c => exact Leaves.feeds (.of_outside rfl rfl) (haside rfl)

/-- Every step is one of these to the emission of a line, if its loop does not run without it. -/
theorem step?_feeds {pull : Nat → Option α} {events : List (Event α ε)}
    (hassembled : S.Assembled P) (hsource : P.source = .sequence pull)
    (hthere : ∀ rest, S.Emitting line rest → S.emission? line ≠ none)
    (hstep : S.step? P = some (U, events)) : Feeds P pull line S U := by
  unfold step? at hstep
  split at hstep
  · cases hstep
  next c hfocus =>
    obtain ⟨rfl, -⟩ := Prod.mk.inj (Option.some.inj hstep)
    refine make_feeds hassembled hsource hfocus fun n heq => hthere S.stack (.inl ⟨n, ?_, rfl⟩)
    rw [hfocus, heq]
  next b hfocus =>
    split at hstep
    next hstack =>
      cases hstep
      exact Leaves.feeds (.of_outside rfl rfl) (by simp [Emitting, hfocus, hstack])
    next f rest hstack =>
      obtain ⟨rfl, -⟩ := Prod.mk.inj (Option.some.inj hstep)
      refine resume_feeds hfocus hstack fun hround => hthere rest ?_
      cases f with
      | emitting l n last =>
          obtain rfl : l = line := beq_iff_eq.mp hround
          exact .inr ⟨b, n, last, hfocus, hstack⟩
      | _ => cases hround

end State

end Wiretap

import Wiretap.Proofs.Machine.Follow
import Wiretap.Proofs.Machine.Joined
import Wiretap.Proofs.Machine.Release
import Wiretap.Proofs.Machine.Visit
import Wiretap.Scenario.Kinds

/-!
# The source is released

Unless a hook for a cancellation fails, the source of a chain is told to stop before the client
learns of a fault of any listener, and before a cancellation by the client returns.
-/

namespace Wiretap

section

variable {K : Kinds} {σ α ε : Type} {P : Plan σ α ε} {S T U V : State σ α ε}
  {history during : List (Entry α ε)} {events later : List (Event α ε)} {ambient : Context}
  {line place : Nat}

/-- In the play with this history the first receiver of a line has cancelled the handle that it got
first, which is the one that the source handed out. -/
def SourceCancelled (P : Plan σ α ε) (S : State σ α ε) (history : List (Entry α ε))
    (line : Nat) : Prop :=
  ∃ before later T U events h rest, Play P S before T ∧
    T.focus = .call (.control line 0 h .cancel) ∧
    Tap.heard (deeds line 0 (happened before)) = .subscribe h :: rest ∧
    T.step? P = some (U, events) ∧ history = before ++ events.map .event ++ later

/-- An error that the tap at a place gives its receiver carries a fault of a listener: one of its
own, or one that came to it in the error of its source. -/
inductive Tainted (P : Plan σ α ε) (events : List (Event α ε)) (line : Nat) :
    Nat → TapError ε → Prop
  /-- The listener of the tap itself failed. -/
  | own {place : Nat} {err : TapError ε} (hfault : err.fault? ≠ none) :
    Tainted P events line place err
  /-- The tap before has given an error with such a fault, which is now the error of the source. -/
  | passed {place : Nat} {cause err : TapError ε}
    (hgiven : .error cause ∈ Tap.given (deeds line place events))
    (hcause : Tainted P events line place cause) (hsource : err.source? = some (P.adapt cause)) :
    Tainted P events line (place + 1) err

/-- The fault that an error carries has been given as such somewhere before. -/
theorem Tainted.origin {err : TapError ε} (h : Tainted P events line place err)
    (hgiven : .error err ∈ Tap.given (deeds line place events)) :
    ∃ q ≤ place, ∃ e : TapError ε, e.fault? ≠ none ∧
      .error e ∈ Tap.given (deeds line q events) := by
  induction h with
  | @own place err hfault => exact ⟨place, Nat.le_refl place, err, hfault, hgiven⟩
  | passed hbefore hcause hsource ih =>
      obtain ⟨q, hq, e, hfault, he⟩ := ih hbefore
      exact ⟨q, Nat.le_succ_of_le hq, e, hfault, he⟩

theorem SourceCancelled.append (h : SourceCancelled P S history line)
    (more : List (Entry α ε)) : SourceCancelled P S (history ++ more) line := by
  obtain ⟨before, later, T, U, events, handle, rest, hplay, hfocus, hheard, hstep, rfl⟩ := h
  exact ⟨before, later ++ more, T, U, events, handle, rest, hplay, hfocus, hheard, hstep,
    List.append_assoc ..⟩

namespace State

theorem Whole.of_append (h : Whole P (events ++ later) line) : Whole P events line := by
  intro place f hplace hmem
  refine h place f hplace ?_
  rw [deeds_append]
  exact List.mem_append_left _ hmem

theorem CancelsSafely.of_append (h : CancelsSafely (events ++ later) line) :
    CancelsSafely events line ∧ CancelsSafely later line := by
  constructor <;> intro place cause hmem <;> refine h place cause ?_ <;> rw [deeds_append]
  · exact List.mem_append_left _ hmem
  · exact List.mem_append_right _ hmem

/-- Where all taps are there, all of them could be set up. -/
theorem Civil.whole (h : S.Civil P events)
    (hthere : ∀ place, place < P.depth → (S.tap? line place).isSome = true) :
    Whole P events line := by
  intro place f hplace
  obtain ⟨t, htap⟩ := Option.isSome_iff_exists.mp (hthere place hplace)
  obtain ⟨p, -, hlived⟩ := h.lived htap
  exact hlived.notSetUp_not_mem f

/-- As long as no tap of a line has given up its source, no error carries a fault. -/
theorem UnharmedBelow.untainted (h : S.UnharmedBelow events line P.depth)
    (hcivil : S.Civil P events) (hwhole : Whole P events line) (hplace : place < P.depth)
    {err : TapError ε}
    (hgiven : .error err ∈ Tap.given (deeds line place events)) :
    ¬Tainted P events line place err := by
  intro htainted
  obtain ⟨q, hq, e, hfault, he⟩ := htainted.origin hgiven
  have hinside : q < P.depth := Nat.lt_of_le_of_lt hq hplace
  obtain ⟨-, t, handle, htap, hrunning⟩ := hcivil.given_begins hwhole hinside
    (fun t => h q t hinside) (List.ne_nil_of_mem he)
  obtain ⟨p, -, hlived⟩ := hcivil.lived htap
  rw [hlived.given_eq] at he
  exact hfault (hrunning.honest _ he)

/-- What is about to reach the client has been given by the last tap. -/
theorem Delivers.given_of_client (h : S.Delivers P events) (hplace : place + 1 = P.depth)
    {s : Signal α (TapError ε)} (hfocus : S.focus = .call (.client line s)) :
    s ∈ Tap.given (deeds line place events) := by
  have hclient := h.client (l := line) hplace
  have hflight : S.inFlight P line (place + 1) = [.client line s] := by
    simp [inFlight, hfocus, hplace]
  have hmem : .client line s ∈
      (Tap.given (deeds line place events)).map (.client line : _ → Call α ε) := by
    rw [← hclient, hflight]
    simp
  obtain ⟨s', hs', heq⟩ := List.mem_map.mp hmem
  cases heq
  exact hs'

theorem UnharmedBelow.move {m : Move α ε} {position : Nat}
    (h : S.UnharmedBelow events line position) (hmove : Moved P S U m) :
    U.UnharmedBelow events line position := by
  intro q t hq htap
  rw [move_tap? hmove] at htap
  have hline : line < S.lines.length := lt_of_tap? (p := q) (by simp [htap])
  obtain ⟨-, hpending, -⟩ := move_keeps hmove hline q
  rw [hpending]
  exact h q t hq htap

end State

namespace Play

/-- A cancellation is on its way to the source, or has come there. -/
def Releases (P : Plan σ α ε) (S : State σ α ε) (history : List (Entry α ε)) (U : State σ α ε)
    (line : Nat) : Prop :=
  U.Climbing (happened history) line ∨ SourceCancelled P S history line

theorem Releases.step (h : Releases P (.start P ambient) history T line)
    (hplay : Play P (.start P ambient) history T) (hstep : T.step? P = some (U, events))
    (hwhole : State.Whole P (happened history ++ events) line)
    (hsafely : State.CancelsSafely (happened history ++ events) line) :
    Releases P (.start P ambient) (history ++ events.map .event) U line := by
  rcases h with h | h
  · rcases h.step hplay.civil hwhole hsafely.of_append.2 hstep with hnow |
      ⟨handle, rest, hfocus, hheard⟩
    · left
      rwa [happened_append, happened_map_event]
    · exact .inr ⟨history, [], T, U, events, handle, rest, hplay, hfocus, hheard, hstep,
        (List.append_nil _).symm⟩
  · exact .inr (h.append _)

/-- No move is made while a cancellation is on its way. -/
theorem Releases.move {m : Move α ε} (h : Releases P (.start P ambient) history T line)
    (hmove : T.move? P m = some U) :
    Releases P (.start P ambient) (history ++ [.move m]) U line := by
  rcases h with h | h
  · obtain ⟨b, hturn⟩ := State.move_turn (State.move?_moved hmove)
    obtain hfocus | hfocus := h <;> rw [hturn] at hfocus <;> cases hfocus
  · exact .inr (h.append _)

/-- Once a cancellation is on its way to the source, nothing else happens before it comes there. -/
theorem Releases.play (h : Releases P (.start P ambient) history T line)
    (hplay : Play P (.start P ambient) history T) (hlater : Play P T during U)
    (hwhole : State.Whole P (happened (history ++ during)) line)
    (hsafely : State.CancelsSafely (happened (history ++ during)) line) :
    Releases P (.start P ambient) (history ++ during) U line := by
  induction hlater with
  | refl => simpa using h
  | step hlater hstep ih =>
      rw [← List.append_assoc, happened_append, happened_map_event] at hwhole hsafely
      rw [← List.append_assoc]
      exact (ih hwhole.of_append hsafely.of_append.1).step (hplay.trans hlater) hstep hwhole hsafely
  | move hlater hallows hmove ih =>
      rw [← List.append_assoc, happened_append, happened_move, List.append_nil] at hwhole hsafely
      rw [← List.append_assoc]
      exact (ih hwhole hsafely).move hmove

/-- As long as the source has not been cancelled, no tap has given up its source, or a cancellation
is on its way. -/
theorem release (hplay : Play P (.start P ambient) history U)
    (hwhole : State.Whole P (happened history) line)
    (hsafely : State.CancelsSafely (happened history) line) :
    U.UnharmedBelow (happened history) line P.depth ∨
      Releases P (.start P ambient) history U line := by
  induction hplay with
  | refl =>
      left
      intro q t hq htap
      simp [State.start, State.tap?] at htap
  | step hplay hstep ih =>
      rw [happened_append, happened_map_event] at hwhole hsafely
      rcases ih hwhole.of_append hsafely.of_append.1 with hunharmed | hreleases
      · rcases hplay.civil.climbs hwhole hunharmed hsafely.of_append.2
          (State.step?_stepped hstep) with hnow | hnow
        · left
          rwa [happened_append, happened_map_event]
        · refine .inr (.inl ?_)
          rwa [happened_append, happened_map_event]
      · exact .inr (hreleases.step hplay hstep hwhole hsafely)
  | move hplay hallows hmove ih =>
      rw [happened_append, happened_move, List.append_nil] at hwhole hsafely
      rcases ih hwhole hsafely with hunharmed | hreleases
      · left
        rw [happened_append, happened_move, List.append_nil]
        exact hunharmed.move (State.move?_moved hmove)
      · exact .inr (hreleases.move hmove)

/-- A cancellation by the client sets out for the source. -/
theorem releases_of_control {nth : Nat} (hplay : Play P (.start P ambient) history S)
    (hwhole : State.Whole P (happened history) line)
    (hsafely : State.CancelsSafely (happened history) line)
    (hreceived : S.received? line nth = some (.tap place))
    (hmove : S.move? P (.control line nth .cancel) = some T) :
    Releases P (.start P ambient) (history ++ [.move (.control line nth .cancel)]) T line := by
  rcases hplay.release hwhole hsafely with hunharmed | hreleases
  · obtain ⟨hdepth, hhandle⟩ := hplay.civil.handled.received line nth _ hreceived
    obtain ⟨t, htap, hsource⟩ := State.source_of_hasHandle hhandle
    have hplace : place < P.depth := by omega
    have hmoved := State.move?_moved hmove
    have hthere : T.tap? line place = some t := (State.move_tap? hmoved line place).trans htap
    have hbelow := hunharmed.move hmoved
    obtain ⟨handle, hrunning⟩ := (hbelow place t hplace hthere).running hsource
    have hfocus : T.focus = .call (.control line (place + 1) (.tap place) .cancel) := by
      cases hmoved with
      | control hturn hhanded hlines hstack hnext =>
          rw [hreceived, Option.some.injEq] at hhanded
          rw [hnext, hdepth, hhanded]
    left
    rw [happened_append, happened_move, List.append_nil]
    exact .tap hfocus hthere hrunning fun q u hq => hbelow q u (Nat.lt_trans hq hplace)
  · exact hreleases.move hmove

/-- In every play: if the source is joined at all and no hook for a cancellation has failed, then
the source has been cancelled when the client is about to get an error that carries a fault of a
listener, and when a cancellation that the client has asked of its tap returns. -/
theorem source_released {more : List (Entry α ε)} {context : Context}
    (hplay : Play P (.start P ambient) history U) (hmore : Play P U more V)
    (hjoined : .joined line 0 context ∈ happened (history ++ more))
    (hsafely : ∀ place cause, .acted (.ran .cancel (some cause)) ∉
      deeds line place (happened history)) :
    (∀ err place, U.focus = .call (.client line (.error err)) → place + 1 = P.depth →
      Tainted P (happened history) line place err →
      SourceCancelled P (.start P ambient) history line) ∧
    ∀ before during nth place S T, Play P (.start P ambient) before S →
      S.received? line nth = some (.tap place) →
      S.allows P (.control line nth .cancel) = true →
      S.move? P (.control line nth .cancel) = some T → Play P T during U → T.Returned U →
      history = before ++ .move (.control line nth .cancel) :: during →
      SourceCancelled P (.start P ambient) history line := by
  -- All taps of the line have been set up when the source is joined, or will have been.
  have hwhole : State.Whole P (happened history) line := by
    have hwhole := (hplay.trans hmore).civil.whole fun place hplace =>
      Run.joined_there (.start ambient) (hplay.trans hmore).run hjoined hplace
    rw [happened_append] at hwhole
    exact hwhole.of_append
  constructor
  · intro err place hfocus hplace htainted
    rcases hplay.release hwhole hsafely with hunharmed | hclimbing | hcancelled
    · have hgiven := hplay.civil.delivers.given_of_client hplace hfocus
      exact absurd htainted (hunharmed.untainted hplay.civil hwhole (by omega) hgiven)
    · obtain hnow | hnow := hclimbing <;> rw [hfocus] at hnow <;> cases hnow
    · exact hcancelled
  · rintro before during nth place S T hbefore hreceived hallows hmove hduring ⟨-, b, hback⟩ rfl
    have hsafe : State.CancelsSafely (happened before ++ happened (_ :: during)) line :=
      happened_append .. ▸ hsafely
    have hset : State.Whole P (happened before ++ happened (_ :: during)) line :=
      happened_append .. ▸ hwhole
    have hstart := hbefore.releases_of_control hset.of_append hsafe.of_append.1 hreceived hmove
    rw [List.append_cons] at hwhole hsafely ⊢
    rcases hstart.play (hbefore.move hallows hmove) hduring hwhole hsafely with
      hclimbing | hcancelled
    · obtain hnow | hnow := hclimbing <;> rw [hback] at hnow <;> cases hnow
    · exact hcancelled

end Play

/-- Is the source of a line joined in this event? -/
def Event.isSourceJoined (line : Nat) : Event α ε → Bool
  | .joined l position _ => l == line && position == 0
  | _ => false

/-- Does a hook for a cancellation fail in this event? -/
def Event.isCancelFailure : Event α ε → Bool
  | .acted _ _ _ (.ran .cancel (some _)) => true
  | _ => false

/-- The error that the client of a line is about to get. -/
def State.impending? (S : State σ α ε) (line : Nat) : Option (TapError ε) :=
  match S.focus with
  | .call (.client l (.error e)) => if l = line then some e else none
  | _ => none

theorem focus_of_impending {err : TapError ε} (h : S.impending? line = some err) :
    S.focus = .call (.client line (.error err)) := by
  unfold State.impending? at h
  split at h
  next l e hfocus =>
    split at h
    next hline =>
      cases h
      rw [hfocus, hline]
    next => cases h
  next => cases h

theorem joined_of_any (h : events.any (Event.isSourceJoined line) = true) :
    ∃ context, .joined line 0 context ∈ events := by
  obtain ⟨e, he, hjoined⟩ := List.any_eq_true.mp h
  cases e with
  | joined l position context =>
      simp only [Event.isSourceJoined, Bool.and_eq_true, beq_iff_eq] at hjoined
      obtain ⟨rfl, rfl⟩ := hjoined
      exact ⟨context, he⟩
  | _ => cases hjoined

theorem cancelsSafely_of_any (h : events.any Event.isCancelFailure = false) (line : Nat) :
    State.CancelsSafely events line := by
  intro place cause hmem
  obtain ⟨e, he, hdeed⟩ := List.mem_filterMap.mp hmem
  have hfails := List.any_eq_false.mp h e he
  cases e <;> simp_all [Event.deed?, Event.isCancelFailure]

end

open scoped Scenario

/-- The listener of the first of two taps fails on an item, and its fault is about to reach the
client in the error of the source: the source has been cancelled. Nor does a last hook that fails
keep a cancellation by the client from the source. -/
theorem Play.source_released_brittle :
    (∃ history U err, Play (.brittle [["do_on_next"], []])
        (.start (.brittle [["do_on_next"], []]) .empty) history U ∧
      U.focus = .call (.client 0 (.error err)) ∧ err.fault? = none ∧
      Tainted (.brittle [["do_on_next"], []]) (happened history) 0 1 err ∧
      SourceCancelled (.brittle [["do_on_next"], []])
        (.start (.brittle [["do_on_next"], []]) .empty) history 0) ∧
    ∃ before S T during U, Play (.brittle [["do_finally"], ["do_finally"]])
        (.start (.brittle [["do_finally"], ["do_finally"]]) .empty) before S ∧
      S.move? (.brittle [["do_finally"], ["do_finally"]]) (.control 0 0 .cancel) = some T ∧
      Play (.brittle [["do_finally"], ["do_finally"]]) T during U ∧ T.Returned U ∧
      SourceCancelled (.brittle [["do_finally"], ["do_finally"]])
        (.start (.brittle [["do_finally"], ["do_finally"]]) .empty)
        (before ++ .move (.control 0 0 .cancel) :: during) 0 := by
  constructor
  · obtain ⟨history, U, hplay, hjoined, hsafely, himpending, hgiven⟩ := Play.of_followTo
      (P := .brittle [["do_on_next"], []]) (S := .start (.brittle [["do_on_next"], []]) .empty) 20
      [.subscribe .plain, .answer true, .signal 0 (.subscribe (.external 0)), .answer true,
        .signal 0 (.next 7)] (.answer true) 2
      (fun history U => (happened history).any (Event.isSourceJoined 0) = true ∧
        (happened history).any Event.isCancelFailure = false ∧
        U.impending? 0 = some (.source 0) ∧
        .error (.listener ⟨.hook "do_on_next", .message "do_on_next"⟩) ∈
          Tap.given (deeds 0 0 (happened history)))
      (by decide +kernel)
    obtain ⟨context, hjoined⟩ := joined_of_any hjoined
    have hfocus := focus_of_impending himpending
    have htainted : Tainted (.brittle [["do_on_next"], []]) (happened history) 0 1 (.source 0) :=
      .passed hgiven (.own (Option.some_ne_none _)) rfl
    exact ⟨history, U, _, hplay, hfocus, rfl, htainted,
      (hplay.source_released .refl (by simpa using hjoined) (cancelsSafely_of_any hsafely 0)).1
        _ 1 hfocus rfl htainted⟩
  · obtain ⟨before, S, hplay, hreceived, hallows, hidle, T, hmove, ⟨during, U⟩, hfollow, hempty,
        hback, hjoined, hsafely⟩ := Play.of_follow (P := .brittle [["do_finally"], ["do_finally"]])
      (S := .start (.brittle [["do_finally"], ["do_finally"]]) .empty) 20
      [.subscribe .plain, .answer true, .signal 0 (.subscribe (.external 0)), .answer true]
      (fun before S => S.received? 0 0 = some (.tap 1) ∧
        S.allows (.brittle [["do_finally"], ["do_finally"]]) (.control 0 0 .cancel) = true ∧
        S.stack.isEmpty = true ∧
        ∃ T ∈ S.move? (.brittle [["do_finally"], ["do_finally"]]) (.control 0 0 .cancel),
        ∃ outcome ∈ T.followTo (.brittle [["do_finally"], ["do_finally"]]) 20
            [.answer true, .answer true] (.answer true) 3,
          outcome.2.stack.isEmpty = true ∧ outcome.2.focus.isBack = true ∧
          (happened before).any (Event.isSourceJoined 0) = true ∧
          (happened (before ++ .move (.control 0 0 .cancel) :: outcome.1)).any
            Event.isCancelFailure = false)
      (by decide +kernel)
    obtain ⟨context, hjoined⟩ := joined_of_any hjoined
    have hduring := Play.followTo hfollow
    have hreturned : T.Returned U := by
      have hsame : T.stack = S.stack := by cases State.move?_moved hmove; assumption
      refine ⟨?_, Focus.isBack_iff.mp hback⟩
      rw [hsame, List.isEmpty_iff.mp hidle, List.isEmpty_iff.mp hempty]
    have hwhole := (hplay.move hallows hmove).trans hduring
    rw [List.append_assoc] at hwhole
    have hsource : .joined 0 0 context ∈
        happened (before ++ ([.move (.control 0 0 .cancel)] ++ during) ++ []) := by
      rw [List.append_nil, happened_append]
      exact List.mem_append_left _ hjoined
    exact ⟨before, S, T, during, U, hplay, hmove, hduring, hreturned,
      (hwhole.source_released .refl hsource (cancelsSafely_of_any hsafely 0)).2
        before during 0 1 S T hplay hreceived hallows hmove hduring hreturned rfl⟩

end Wiretap

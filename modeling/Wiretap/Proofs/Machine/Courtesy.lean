import Wiretap.Proofs.Machine.Mail
import Wiretap.Proofs.Machine.Nesting
import Wiretap.Proofs.Tap.Opening
import Wiretap.Proofs.Tap.Stream

/-!
# The manners of a chain

In a play the neighbours of every tap are courteous. Next to the source that is the outside's doing.
Farther on it is the doing of the tap before: what it sends begins with a handle or is nothing but
an error, and it sends nothing else while its receiver waits for a cancellation. So all that is
known of a courteous life holds of every tap in every play.
-/

namespace Wiretap

variable {K : Kinds} {σ α ε : Type}

/-- The manners of the neighbours in a chain. -/
def Tap.Life.courtesy (σ α ε : Type) : Nat → Tap.Life.Manners σ α ε :=
  fun place => Tap.Courteous place

theorem Tap.SetUpFails.given {f : Fault} {shown : List (Tap.Deed α ε)}
    (h : Tap.SetUpFails f shown) :
    Tap.given (shown ++ [.notSetUp f]) = [.subscribe .empty, .error (.listener f)] := by
  cases h <;> rfl

theorem Signal.lawful_nil : Signal.Lawful ([] : List (Signal α ε)) :=
  ⟨Nat.zero_le 1, Nat.zero_le 1, by simp⟩

theorem Signal.lawful_refusal (h : Handle) (e : ε) :
    Signal.Lawful [(.subscribe h : Signal α ε), .error e] :=
  ⟨Nat.le_refl 1, Nat.le_refl 1, by simp [Signal.isTerminal]⟩

namespace State

variable {P : Plan σ α ε} {S U : State σ α ε} {line place : Nat} {events : List (Event α ε)}
  {before : List (Event α ε)} {manners : Nat → Tap.Life.Manners σ α ε}

namespace Peopled

/-- Behind every place the stream obeys the protocol. -/
theorem given_lawful (h : S.Peopled P manners events) (line place : Nat) :
    Signal.Lawful (Tap.given (deeds line place events)) := by
  rcases h.fate line place with ⟨-, -, hdeeds⟩ | ⟨-, -, -, hfails, hdeeds⟩ | ⟨-, -, hlived⟩
  · rw [hdeeds]
    exact Signal.lawful_nil
  · rw [hdeeds, hfails.given]
    exact Signal.lawful_refusal _ _
  · have hlawful := hlived.lawful
    rwa [← hlived.given_eq] at hlawful

theorem given_begins (h : S.Peopled P (Tap.Life.courtesy σ α ε) events) (line place : Nat) :
    Tap.given (deeds line place events) = [] ∨
      Signal.Opens Signal.isSubscribe (Tap.given (deeds line place events)) ∨
      Signal.Opens Signal.isError (Tap.given (deeds line place events)) := by
  rcases h.fate line place with ⟨-, -, hdeeds⟩ | ⟨-, -, -, hfails, hdeeds⟩ | ⟨-, -, hlived⟩
  · rw [hdeeds]
    exact .inl rfl
  · rw [hdeeds, hfails.given]
    exact .inr (.inl rfl)
  · have hbegins := Tap.Life.Opening.begins (Tap.Life.Lived.opening hlived)
    rwa [← hlived.given_eq] at hbegins

/-- What comes to a tap without a handle begins its stream. -/
theorem first_signal (h : S.Peopled P (Tap.Life.courtesy σ α ε) events)
    (hdelivers : S.Delivers P events) (hplace : place + 1 < P.depth) {t : Tap σ} {s : Signal α ε}
    (htap : S.tap? line (place + 1) = some t) (hsource : t.source = none)
    (hfocus : S.focus = .call (.tap line (place + 1) s)) :
    Tap.heard (deeds line (place + 1) events) = [] ∧
      (s.isSubscribe = true ∨ s.isError = true) := by
  have hmail := hdelivers.heard_concat hplace hfocus
  have hlawful := h.given_lawful line place
  have hbegins := h.given_begins line place
  have hunhandled : Tap.heard (deeds line (place + 1) events) = [] ∨
      Signal.Opens Signal.isError (Tap.heard (deeds line (place + 1) events)) := by
    rcases h.fate line (place + 1) with ⟨hnone, -⟩ | ⟨-, hnone, -⟩ | ⟨-, hsome, hlived⟩
    · rw [htap] at hnone
      cases hnone
    · rw [htap] at hnone
      cases hnone
    · rw [htap] at hsome
      cases hsome
      exact (Tap.Life.Lived.opening hlived).unhandled hsource
  obtain ⟨later, hlater⟩ := hmail
  cases hgiven : Tap.given (deeds line place events) with
  | nil => simp [hgiven] at hlater
  | cons first rest =>
      rw [hgiven] at hlater hlawful hbegins
      rcases hunhandled with hheard | hheard
      · refine ⟨hheard, ?_⟩
        rw [hheard] at hlater
        obtain rfl : s = first.mapError P.adapt := by simpa using congrArg List.head? hlater
        rcases hbegins with hnil | hbegins | hbegins
        · cases hnil
        · left
          cases first <;> first | rfl | cases hbegins
        · right
          cases first <;> first | rfl | cases hbegins
      · -- After an error nothing more is sent.
        cases hlist : Tap.heard (deeds line (place + 1) events) with
        | nil =>
            rw [hlist] at hheard
            cases hheard
        | cons error others =>
            rw [hlist] at hlater hheard
            have hsame : error = first.mapError P.adapt := by
              simpa using congrArg List.head? hlater
            have hterminal : first.isTerminal = true := by
              rw [hsame] at hheard
              cases first <;> first | rfl | cases hheard
            have hlength := congrArg List.length hlater
            rw [hlawful.alone hterminal] at hlength
            simp at hlength

/-- The neighbours are courteous to every tap. -/
theorem mannerly (h : S.Peopled P (Tap.Life.courtesy σ α ε) events) (hassembled : S.Assembled P)
    (hhandled : S.Handled P) (hcomposed : S.Composed P) (hdelivers : S.Delivers P events) :
    S.Mannerly (Tap.Life.courtesy σ α ε) events := by
  intro line place t input htap hcalls
  refine ⟨hcomposed.waiting hhandled hcalls, fun hsource => ?_⟩
  dsimp only at hsource
  have hunhandled : S.hasHandle line place = false := by simp [hasHandle, htap, hsource]
  obtain ⟨c, hfocus, hinput⟩ := hcalls
  have hadmits := hhandled.called c hfocus
  obtain ⟨p, hplan⟩ := hassembled.planned (S := S) (by rw [htap]; rfl)
  have hinside : place < P.depth := (List.getElem?_eq_some_iff.mp hplan).1
  cases c with
  | tap l q s =>
      cases hinput
      cases place with
      | zero =>
          have hsubscribe : s.isSubscribe = true := by
            by_contra hother
            have hbegun := hadmits.begun line (by simp [Call.begun?, hother])
            rw [hasBegun, if_pos hinside, hunhandled] at hbegun
            cases hbegun
          refine ⟨?_, .inl ?_⟩
          · rcases h.fate line 0 with ⟨hnone, -⟩ | ⟨-, hnone, -⟩ | ⟨-, hsome, hlived⟩
            · rw [htap] at hnone
              cases hnone
            · rw [htap] at hnone
              cases hnone
            · rw [htap] at hsome
              cases hsome
              exact Tap.Life.Lived.unheard hlived hsource
          · cases s <;> first | rfl | cases hsubscribe
      | succ place =>
          obtain ⟨hheard, hs⟩ := h.first_signal hdelivers hinside htap hsource hfocus
          refine ⟨hheard, ?_⟩
          rcases hs with hs | hs
          · left
            cases s <;> first | rfl | cases hs
          · right
            cases s <;> first | exact ⟨Nat.succ_pos place, rfl⟩ | cases hs
  | control l q handle ctl =>
      cases handle with
      | tap place' =>
          cases hinput
          have hgrants := hadmits.grants line q (.tap place) rfl
          rw [hgrants.2] at hunhandled
          cases hunhandled
      | _ => cases hinput
  | _ => cases hinput

end Peopled

/-- All that is known of a moment in a play. -/
structure Civil (P : Plan σ α ε) (S : State σ α ε) (events : List (Event α ε)) : Prop where
  assembled : S.Assembled P
  handled : S.Handled P
  composed : S.Composed P
  delivers : S.Delivers P events
  peopled : S.Peopled P (Tap.Life.courtesy σ α ε) events

namespace Civil

variable {history : List (Entry α ε)}

theorem mannerly (h : S.Civil P events) : S.Mannerly (Tap.Life.courtesy σ α ε) events :=
  h.peopled.mannerly h.assembled h.handled h.composed h.delivers

theorem start (ambient : Context) : (State.start P ambient).Civil P [] :=
  ⟨.start ambient, .start ambient, .start ambient, .nothing rfl rfl, .start ambient⟩

theorem step (h : S.Civil P before) (hstep : Stepped P S U events) :
    U.Civil P (before ++ events) where
  assembled := h.assembled.step hstep
  handled := h.handled.step h.assembled hstep
  composed := h.composed.step h.handled hstep
  delivers := Delivers.step h.assembled h.delivers hstep
  peopled := Peopled.step h.assembled h.peopled h.mannerly hstep

theorem move {m : Move α ε} (h : S.Civil P before) (hallows : S.allows P m = true)
    (hmove : Moved P S U m) : U.Civil P before where
  assembled := h.assembled.move hmove
  handled := h.handled.move hallows hmove
  composed := h.composed.move hallows hmove
  delivers := h.delivers.move hmove
  peopled := h.peopled.move hmove

theorem play (h : S.Civil P before) (hplay : Play P S history U) :
    U.Civil P (before ++ happened history) := by
  induction hplay with
  | refl => simpa using h
  | step _ hstep ih =>
      rw [happened_append, happened_map_event, ← List.append_assoc]
      exact ih.step (step?_stepped hstep)
  | move _ hallows hmove ih =>
      rw [happened_append, happened_move, List.append_nil]
      exact ih.move hallows (move?_moved hmove)

theorem lived {t : Tap σ} (h : S.Civil P events) (htap : S.tap? line place = some t) :
    ∃ p, P.taps[place]? = some p ∧
      Tap.Life.Lived p.listener (.tap place) (S.isConditional line) (Tap.Courteous place)
        ⟨t, S.pending line place, deeds line place events⟩ := by
  rcases h.peopled.fate line place with ⟨hnone, -, -⟩ | ⟨-, hnone, -, -, -⟩ |
    ⟨hplan, hsome, hlived⟩
  · rw [htap] at hnone
    cases hnone
  · rw [htap] at hnone
    cases hnone
  · rw [htap] at hsome
    cases hsome
    exact ⟨_, hplan, hlived⟩

/-- In a step a tap that is there rests or takes a turn of its life. -/
theorem turn {p : TapPlan σ α ε} {t : Tap σ} (h : S.Civil P before)
    (hplan : P.taps[place]? = some p) (htap : S.tap? line place = some t)
    (hstep : Stepped P S U events) : ∃ u, U.tap? line place = some u ∧
      (u = t ∧ U.pending line place = S.pending line place ∧ deeds line place events = [] ∨
        Tap.Life.Step p.listener (.tap place) (S.isConditional line) (Tap.Courteous place)
          ⟨t, S.pending line place, deeds line place before⟩
          ⟨u, U.pending line place, deeds line place before ++ deeds line place events⟩) := by
  rcases step_progress h.assembled hstep line place with
    ⟨hsame, hpending, hdeeds⟩ | ⟨hplan', htap', hnext, hturn⟩ | ⟨hfocus, -, -, -, -⟩ |
    ⟨hfocus, -, -, -, -⟩
  · exact ⟨t, hsame.trans htap, .inl ⟨rfl, hpending, hdeeds⟩⟩
  · rw [hplan] at hplan'
    rw [htap] at htap'
    cases hplan'
    cases htap'
    refine ⟨_, hnext, .inr ?_⟩
    exact hturn (Tap.Courteous place) _ fun input hcalls =>
      h.mannerly line place t input htap hcalls
  -- The other steps set a tap up where there is none.
  all_goals
    have hnone := (h.assembled.joining _ _ _ hfocus).before place (Nat.lt_succ_self place)
    rw [htap] at hnone
    cases hnone

/-- Of a tap that is there, a play contains a piece of its life. -/
theorem lives {p : TapPlan σ α ε} {t : Tap σ} (h : S.Civil P before)
    (hplan : P.taps[place]? = some p) (htap : S.tap? line place = some t)
    (hplay : Play P S history U) :
    U.isConditional line = S.isConditional line ∧ ∃ u, U.tap? line place = some u ∧
      Relation.ReflTransGen
        (Tap.Life.Step p.listener (.tap place) (S.isConditional line) (Tap.Courteous place))
        ⟨t, S.pending line place, deeds line place before⟩
        ⟨u, U.pending line place, deeds line place (before ++ happened history)⟩ := by
  induction hplay with
  | refl =>
      refine ⟨rfl, t, htap, ?_⟩
      simpa using Relation.ReflTransGen.refl
  | @step history T U events hplay hstep ih =>
      obtain ⟨hsame, u, hu, hlife⟩ := ih
      have hstepped := step?_stepped hstep
      refine ⟨(step_isConditional hstepped line).trans hsame, ?_⟩
      rw [happened_append, happened_map_event, ← List.append_assoc, deeds_append]
      obtain ⟨v, hv, ⟨rfl, hpending, hdeeds⟩ | hturn⟩ := (h.play hplay).turn hplan hu hstepped
      · refine ⟨v, hv, ?_⟩
        rwa [hpending, hdeeds, List.append_nil]
      · rw [hsame] at hturn
        exact ⟨v, hv, hlife.tail hturn⟩
  | @move history T U m hplay hallows hmove ih =>
      obtain ⟨hsame, u, hu, hlife⟩ := ih
      have hline : line < T.lines.length := lt_of_tap? (p := place) (by rw [hu]; rfl)
      obtain ⟨htap', hpending, hconditional⟩ := move_keeps (move?_moved hmove) hline place
      refine ⟨hconditional.trans hsame, u, htap'.trans hu, ?_⟩
      rwa [happened_append, happened_move, List.append_nil, hpending]

end Civil

end State

theorem Play.civil {P : Plan σ α ε} {U : State σ α ε} {history : List (Entry α ε)}
    {ambient : Context} (hplay : Play P (.start P ambient) history U) :
    U.Civil P (happened history) := by
  simpa using (State.Civil.start ambient).play hplay

end Wiretap

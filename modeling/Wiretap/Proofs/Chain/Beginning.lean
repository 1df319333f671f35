import Wiretap.Proofs.Machine.Courtesy
import Wiretap.Proofs.Machine.Follow
import Wiretap.Scenario.Kinds

/-!
# How the streams of a chain begin

The stream that reaches a client begins with the handle, unless an error overtakes the refusal of a
handle somewhere on the way. That takes two taps: one whose hook for the handle fails, and one
before it that answers the cancellation with a fault of its own. The error then goes down to the
client, which has not got any handle, and nothing else can come after it.
-/

namespace Wiretap

section

variable {K : Kinds} {σ α ε : Type}

/-- A stream that has not begun with anything but a handle. -/
def Signal.WellBegun (signals : List (Signal α ε)) : Prop :=
  signals = [] ∨ Signal.Opens Signal.isSubscribe signals

theorem Signal.WellBegun.of_isPrefix {first all : List (Signal α ε)} (h : Signal.WellBegun all)
    (hfirst : first <+: all) : Signal.WellBegun first := by
  rcases h with rfl | hopens
  · exact .inl (List.prefix_nil.mp hfirst)
  · exact hopens.of_isPrefix hfirst

theorem Tap.SetUpFails.refusal {f : Fault} {shown : List (Tap.Deed α ε)}
    (h : Tap.SetUpFails f shown) : Tap.refusal (shown ++ [.notSetUp f]) = .settled := by
  cases h <;> rfl

namespace State

variable {P : Plan σ α ε} {S U : State σ α ε} {events : List (Event α ε)} {line place : Nat}

namespace Civil

/-- What a tap has heard begins as what was given behind the place before. -/
theorem heard_opens (h : S.Civil P events) (hplace : place + 1 < P.depth)
    (hopens : Signal.Opens Signal.isError (Tap.heard (deeds line (place + 1) events))) :
    Signal.Opens Signal.isError (Tap.given (deeds line place events)) := by
  have hheard : Tap.heard (deeds line (place + 1) events) <+: _ := h.delivers.heard_given hplace
  obtain ⟨rest, hrest⟩ := hheard
  rw [← Signal.Opens.mapError (Signal.isError_mapError P.adapt), ← hrest]
  exact hopens.append rest

/-- If no error overtook the refusal at a place, it takes an error before to have one behind. -/
theorem given_or_heard (h : S.Civil P events)
    (hnone : Tap.refusal (deeds line place events) ≠ .overtaken) :
    Signal.WellBegun (Tap.given (deeds line place events)) ∨
      Signal.Opens Signal.isError (Tap.heard (deeds line place events)) := by
  rcases h.peopled.fate line place with ⟨-, -, hdeeds⟩ | ⟨-, -, -, hfails, hdeeds⟩ |
    ⟨-, -, hlived⟩
  · rw [hdeeds]
    exact .inl (.inl rfl)
  · rw [hdeeds, hfails.given]
    exact .inl (.inr rfl)
  · rw [hlived.given_eq]
    rcases (Tap.Life.Lived.opening hlived).begins_of_not_overtaken hnone with
      hnil | hbegun | herror
    · exact .inl (.inl hnil)
    · exact .inl (.inr hbegun)
    · exact .inr herror

theorem heard_not_isError (h : S.Civil P events) :
    ¬Signal.Opens Signal.isError (Tap.heard (deeds line 0 events)) := by
  intro herror
  rcases h.peopled.fate line 0 with ⟨-, -, hdeeds⟩ | ⟨-, -, -, hfails, hdeeds⟩ | ⟨-, -, hlived⟩
  · rw [hdeeds] at herror
    cases herror
  · rw [hdeeds] at herror
    cases hfails <;> cases herror
  · exact Tap.Life.Lived.heard_not_isError hlived herror

/-- Behind a place the stream begins with a handle, if no error overtook a refusal so far. -/
theorem given_wellBegun (h : S.Civil P events) (hplace : place < P.depth)
    (hnone : ∀ q, q ≤ place → Tap.refusal (deeds line q events) ≠ .overtaken) :
    Signal.WellBegun (Tap.given (deeds line place events)) := by
  induction place with
  | zero =>
      rcases h.given_or_heard (hnone 0 (Nat.le_refl 0)) with hbegun | herror
      · exact hbegun
      · exact absurd herror h.heard_not_isError
  | succ place ih =>
      rcases h.given_or_heard (hnone _ (Nat.le_refl _)) with hbegun | herror
      · exact hbegun
      · -- The error would have come from behind the place before.
        have hgiven := h.heard_opens hplace herror
        rcases ih (by omega) fun q hq => hnone q (by omega) with hnil | hsubscribe
        · exact absurd hnil hgiven.ne_nil
        · exact absurd hgiven hsubscribe.not_isError

theorem lived_of_overtaken (h : S.Civil P events)
    (hover : Tap.refusal (deeds line place events) = .overtaken) :
    ∃ (p : TapPlan σ α ε) (t : Tap σ), S.tap? line place = some t ∧
      Tap.Life.Lived p.listener (.tap place) (S.isConditional line) (Tap.Courteous place)
        ⟨t, S.pending line place, deeds line place events⟩ := by
  rcases h.peopled.fate line place with ⟨-, -, hdeeds⟩ | ⟨-, -, -, hfails, hdeeds⟩ |
    ⟨-, htap, hlived⟩
  · rw [hdeeds] at hover
    cases hover
  · rw [hdeeds, hfails.refusal] at hover
    cases hover
  · exact ⟨_, _, htap, hlived⟩

/-- Behind a tap where an error overtook the refusal of a handle every tap is there, too. -/
theorem lived_behind (h : S.Civil P events)
    (hover : Tap.refusal (deeds line place events) = .overtaken) {q : Nat} (hle : place ≤ q)
    (hq : q < P.depth) : ∃ (p : TapPlan σ α ε) (t : Tap σ),
      Tap.Life.Lived p.listener (.tap q) (S.isConditional line) (Tap.Courteous q)
        ⟨t, S.pending line q, deeds line q events⟩ := by
  obtain ⟨-, t, htap, -⟩ := h.lived_of_overtaken hover
  have hhere : (S.tap? line place).isSome = true := by
    rw [htap]
    rfl
  have hthere : (S.tap? line q).isSome = true := by
    rcases Nat.eq_or_lt_of_le hle with rfl | hlt
    · exact hhere
    · exact h.assembled.behind line place q hhere hlt hq
  obtain ⟨u, hu⟩ := Option.isSome_iff_exists.mp hthere
  obtain ⟨p, -, hlived⟩ := h.lived hu
  exact ⟨p, u, hlived⟩

/-- Before the tap where an error overtook the refusal of a handle there is another one. -/
theorem pos_of_overtaken (h : S.Civil P events)
    (hover : Tap.refusal (deeds line place events) = .overtaken) : 0 < place := by
  cases place with
  | succ place => exact Nat.succ_pos place
  | zero =>
      obtain ⟨p, t, -, hlived⟩ := h.lived_of_overtaken hover
      exact absurd hover (Tap.Life.Lived.not_overtaken hlived)

/-- From the place on where an error overtook the refusal of a handle, streams begin with it. -/
theorem given_error (h : S.Civil P events)
    (hover : Tap.refusal (deeds line place events) = .overtaken) {q : Nat} (hle : place ≤ q)
    (hq : q < P.depth) :
    Tap.given (deeds line q events) = [] ∨
      Signal.Opens Signal.isError (Tap.given (deeds line q events)) := by
  induction hle with
  | refl =>
      obtain ⟨p, t, hlived⟩ := h.lived_behind hover (Nat.le_refl place) hq
      rw [hlived.given_eq]
      rcases (Tap.Life.Lived.opening hlived).begins_of_overtaken hover with ⟨hnil, -⟩ | herror
      · exact .inl hnil
      · exact .inr herror
  | @step q hle ih =>
      obtain ⟨p, t, hlived⟩ := h.lived_behind hover (Nat.le_succ_of_le hle) hq
      rw [hlived.given_eq]
      have hheard : Tap.heard (deeds line (q + 1) events) = [] ∨
          Signal.Opens Signal.isError (Tap.heard (deeds line (q + 1) events)) := by
        have hgiven : Tap.heard (deeds line (q + 1) events) <+: _ := h.delivers.heard_given hq
        rcases ih (by omega) with hnil | herror
        · rw [hnil] at hgiven
          exact .inl (List.prefix_nil.mp hgiven)
        · apply Signal.Opens.of_isPrefix _ hgiven
          exact (Signal.Opens.mapError (Signal.isError_mapError P.adapt)).mpr herror
      rcases (Tap.Life.Lived.opening hlived).begins_of_error hheard with ⟨hnil, -⟩ | herror
      · exact .inl hnil
      · exact .inr herror

/-- At rest such a stream has begun. -/
theorem given_error_idle (h : S.Civil P events) (hidle : S.isIdle = true)
    (hover : Tap.refusal (deeds line place events) = .overtaken) {q : Nat} (hle : place ≤ q)
    (hq : q < P.depth) : Signal.Opens Signal.isError (Tap.given (deeds line q events)) := by
  obtain ⟨hstack, b, hfocus⟩ := isIdle_iff.mp hidle
  induction hle with
  | refl =>
      obtain ⟨p, t, hlived⟩ := h.lived_behind hover (Nat.le_refl place) hq
      rw [hlived.given_eq]
      rcases (Tap.Life.Lived.opening hlived).begins_of_overtaken hover with ⟨-, hpending⟩ | herror
      · exact absurd (by simp [pending, hstack]) hpending
      · exact herror
  | @step q hle ih =>
      obtain ⟨p, t, hlived⟩ := h.lived_behind hover (Nat.le_succ_of_le hle) hq
      rw [hlived.given_eq]
      have hheard : Signal.Opens Signal.isError (Tap.heard (deeds line (q + 1) events)) := by
        rw [h.delivers.heard_eq hstack hfocus hq,
          Signal.Opens.mapError (Signal.isError_mapError P.adapt)]
        exact ih (by omega)
      rcases (Tap.Life.Lived.opening hlived).begins_of_error (.inr hheard) with ⟨-, hnil⟩ | herror
      · exact absurd hnil hheard.ne_nil
      · exact herror

end Civil

end State

namespace Play

variable {P : Plan σ α ε} {U : State σ α ε} {history : List (Entry α ε)} {ambient : Context}

/-- Without any tap the source itself gives the client a handle first. -/
theorem client_wellBegun (hplay : Play P (.start P ambient) history U) (hdepth : P.depth = 0)
    (line : Nat) : Signal.WellBegun (heardBy line (happened history)) ∧
      ((U.received? line 0).isSome = true → heardBy line (happened history) ≠ []) := by
  induction hplay with
  | refl => exact ⟨.inl rfl, by simp [State.start, State.received?]⟩
  | @step history T V events hplay hstep ih =>
      obtain ⟨hbegun, hhandle⟩ := ih
      have hcivil := (State.Civil.start ambient).play hplay
      rw [happened_append, happened_map_event, heardBy_append]
      rcases State.step_client (State.step?_stepped hstep) with hsame | ⟨l, s, hfocus, hlines, rfl⟩
      · obtain ⟨hnone, hreceived⟩ := hsame line
        rw [hnone, List.append_nil, hreceived]
        exact ⟨hbegun, hhandle⟩
      · by_cases hline : l = line
        · subst hline
          have hheard : heardBy l [(.called (.client l s) T.ambient : Event α ε)] = [s] := by
            simp [Event.heard?]
          rw [hheard]
          refine ⟨?_, fun _ => by simp⟩
          rcases hbegun with hnil | hopens
          · right
            rw [hnil]
            -- Anything but a handle comes only after a handle.
            cases hs : s.isSubscribe with
            | true => exact hs
            | false =>
                have hearly := (hcivil.handled.called _ hfocus).begun l
                  (by simp [Call.begun?, hdepth, hs])
                rw [State.hasBegun, if_neg (by omega)] at hearly
                exact absurd hnil (hhandle hearly)
          · exact .inr (hopens.append _)
        · have hheard : heardBy line [(.called (.client l s) T.ambient : Event α ε)] = [] := by
            simp [Event.heard?, hline]
          rw [hheard, List.append_nil]
          refine ⟨hbegun, fun hsome => hhandle ?_⟩
          rcases State.receive_received? hlines line with hsame | ⟨heq, -⟩
          · rwa [hsame] at hsome
          · exact absurd heq hline
  | @move history T V m hplay hallows hmove ih =>
      rw [happened_append, happened_move, List.append_nil]
      refine ⟨ih.1, fun hsome => ih.2 ?_⟩
      rwa [State.move_received? (State.move?_moved hmove)] at hsome

theorem heardBy_wellBegun (hplay : Play P (.start P ambient) history U) {line : Nat}
    (hnone : ∀ place < P.depth, Tap.refusal (deeds line place (happened history)) ≠ .overtaken) :
    Signal.WellBegun (heardBy line (happened history)) := by
  rcases Nat.eq_zero_or_pos P.depth with hdepth | hdepth
  · exact (hplay.client_wellBegun hdepth line).1
  · have hcivil := (State.Civil.start ambient).play hplay
    rw [List.nil_append] at hcivil
    have hlast : P.depth - 1 + 1 = P.depth := by omega
    have hgiven : Signal.WellBegun (Tap.given (deeds line (P.depth - 1) (happened history))) :=
      hcivil.given_wellBegun (by omega) fun q hq => hnone q (by omega)
    exact hgiven.of_isPrefix (hcivil.delivers.heardBy_given hlast)

/-- Once the client has heard anything, or everything is done, an error that overtook the refusal
of a handle has come to the client first. -/
theorem heardBy_error (hplay : Play P (.start P ambient) history U) {line place : Nat}
    (hplace : place < P.depth)
    (hover : Tap.refusal (deeds line place (happened history)) = .overtaken)
    (hseen : heardBy line (happened history) ≠ [] ∨ U.isIdle = true) :
    Signal.Opens Signal.isError (heardBy line (happened history)) := by
  have hcivil := (State.Civil.start ambient).play hplay
  rw [List.nil_append] at hcivil
  have hlast : P.depth - 1 + 1 = P.depth := by omega
  rcases hseen with hheard | hidle
  · have hpart : heardBy line (happened history) <+: _ := hcivil.delivers.heardBy_given hlast
    rcases hcivil.given_error hover (q := P.depth - 1) (by omega) (by omega) with hnil | hopens
    · rw [hnil] at hpart
      exact absurd (List.prefix_nil.mp hpart) hheard
    · rcases hopens.of_isPrefix hpart with hnil | herror
      · exact absurd hnil hheard
      · exact herror
  · obtain ⟨hstack, b, hfocus⟩ := State.isIdle_iff.mp hidle
    rw [hcivil.delivers.heardBy_eq hstack hfocus hlast]
    exact hcivil.given_error_idle hidle hover (by omega) (by omega)

/-- Once the client has heard anything, or everything is done, its stream is in order exactly if at
no tap an error has overtaken the refusal of the handle. Such a tap has another one before it.
Behind a tap no stream has two handles. -/
theorem stream_begins (hplay : Play P (.start P ambient) history U) (line : Nat) :
    (heardBy line (happened history) ≠ [] ∨ U.isIdle = true →
      (Signal.WellBegun (heardBy line (happened history)) ↔
        ∀ place < P.depth, Tap.refusal (deeds line place (happened history)) ≠ .overtaken)) ∧
    (∀ place, Tap.refusal (deeds line place (happened history)) = .overtaken → 0 < place) ∧
    (0 < P.depth → (heardBy line (happened history)).countP Signal.isSubscribe ≤ 1) := by
  have hcivil := (State.Civil.start ambient).play hplay
  rw [List.nil_append] at hcivil
  refine ⟨fun hseen => ⟨?_, hplay.heardBy_wellBegun⟩, fun _ => hcivil.pos_of_overtaken, ?_⟩
  · intro hbegun place hplace hover
    have herror := hplay.heardBy_error hplace hover hseen
    rcases hbegun with hnil | hsubscribe
    · exact herror.ne_nil hnil
    · exact hsubscribe.not_isError herror
  · intro hdepth
    have hlast : P.depth - 1 + 1 = P.depth := by omega
    have hlawful : Signal.Lawful (heardBy line (happened history)) := by
      apply (hcivil.peopled.given_lawful line (P.depth - 1)).of_isPrefix
      exact hcivil.delivers.heardBy_given hlast
    exact hlawful.handle

end Play

end

open scoped Scenario

/-- A tap fails on the handle and the one before it on the cancellation. The client gets an error,
and no handle. -/
theorem Play.stream_begins_brittle : ∃ history U,
    Play (.brittlePair "do_on_subscription") (.start (.brittlePair "do_on_subscription") .empty)
      history U ∧
    U.isIdle = true ∧ heardBy 0 (happened history) = [.error (.source 0)] ∧
    Tap.refusal (deeds 0 1 (happened history)) = .overtaken ∧
    ¬Signal.WellBegun (heardBy 0 (happened history)) := by
  obtain ⟨history, U, hplay, hidle, hheard, hover⟩ := Play.of_follow
    (P := .brittlePair "do_on_subscription")
    (S := .start (.brittlePair "do_on_subscription") .empty) 20
    [.subscribe .plain, .signal 0 (.subscribe (.external 0)), .answer true, .answer true]
    (fun history U => U.isIdle = true ∧ heardBy 0 (happened history) = [.error (.source 0)] ∧
      Tap.refusal (deeds 0 1 (happened history)) = .overtaken) (by decide +kernel)
  obtain ⟨hexact, -⟩ := hplay.stream_begins 0
  refine ⟨history, U, hplay, hidle, hheard, hover, fun hbegun => ?_⟩
  exact (hexact (.inr hidle)).mp hbegun 1 (by decide) hover

end Wiretap

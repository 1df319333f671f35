import Wiretap.Proofs.Machine.Joined
import Wiretap.Proofs.Machine.Meanwhile

/-!
# Lines that are given up

A line is assembled from its client towards the source. Where a tap cannot be set up the assembly
stops for good: nothing has happened before that place, and nothing ever will. What the taps behind
it get from there on is the handle and the error that stand in for the missing tap.
-/

namespace Wiretap

variable {K : Kinds} {σ α ε : Type} {P : Plan σ α ε} {S T U : State σ α ε}
  {line place : Nat} {f : Fault} {before events : List (Event α ε)}

/-- The assembly of a line has come to an end at a place. -/
structure GivenUp (line place : Nat) (f : Fault) (events : List (Event α ε)) : Prop where
  /-- Nobody has been joined to the source, or to a tap before the place. -/
  unjoined : ∀ position ≤ place, ∀ context, .joined line position context ∉ events
  /-- No listener has been created before the place, and nothing else has happened there. -/
  untouched : ∀ q < place, deeds line q events = []
  /-- At the place there is what setting up the tap has shown, and nothing else. -/
  here : ∃ shown, Tap.SetUpFails f shown ∧ deeds line place events = shown ++ [.notSetUp f]

/-! ## Until the assembly has ended -/

theorem Shows.mem_here {l p : Nat} {shown : List (Tap.Deed α ε)} {d : Tap.Deed α ε}
    (h : Shows l p shown events) (hd : d ∈ deeds line place events) :
    (line = l ∧ place = p) ∧ d ∈ shown := by
  by_cases hhere : line = l ∧ place = p
  · refine ⟨hhere, ?_⟩
    obtain ⟨rfl, rfl⟩ := hhere
    rwa [h.here] at hd
  · rw [h.elsewhere _ _ hhere] at hd
    cases hd

/-- A tap that hears a signal in a step was to be called with it. -/
theorem State.focus_of_heard (hassembled : S.Assembled P) (hstep : Stepped P S U events)
    {s : Signal α ε} (hs : s ∈ Tap.heard (deeds line place events)) :
    S.focus = .call (.tap line place s) := by
  cases step_progress hassembled hstep line place with
  | same htap hpending hdeeds => simp [hdeeds] at hs
  | turn hplan htap hnow hlives =>
      have hlife := hlives (fun _ input => S.Calls line place input) [] fun _ hcalls => hcalls
      generalize deeds line place events = shown at hs hlife
      generalize S.pending line place = waiting at hlife
      generalize hnext : (⟨_, _, [] ++ shown⟩ : Tap.Life σ α ε) = next at hlife
      have hshown : shown = next.deeds := by simpa using congrArg Tap.Life.deeds hnext
      rw [hshown] at hs
      cases hlife with
      | @serve _ _ _ input _ hcalls =>
          obtain ⟨c, hfocus, hinput⟩ := hcalls
          cases input with
          | control ctl => simp [Tap.Life.take, Tap.Deed.heard?] at hs
          | signal s' =>
              obtain rfl : s = s' := by simpa [Tap.Life.take, Tap.Deed.heard?] using hs
              cases c with
              | tap l p s' =>
                  cases hinput
                  exact hfocus
              | control l p handle ctl => cases handle <;> cases hinput
              | _ => cases hinput
      | resume b => simp [Tap.Life.take] at hs
  | born hfocus hplan hnow hpending hdeeds => simp [hdeeds, Tap.Deed.heard?] at hs
  | stillborn hfocus htap hpending hfails hdeeds =>
      rw [hdeeds] at hs
      cases hfails <;> simp [Tap.Deed.heard?] at hs

/-- In a step the tap at a place could not be set up. -/
structure State.Refuses (P : Plan σ α ε) (S U : State σ α ε) (events : List (Event α ε))
    (line place : Nat) (f : Fault) : Prop where
  focus : ∃ context, S.focus = .call (.join line (place + 1) context)
  lines : U.lines = S.lines
  stack : U.stack = .refusing line (place + 1) f :: S.stack
  next : U.focus = .call (P.signal line (place + 1) (.subscribe .empty))
  shows : ∃ shown, Tap.SetUpFails f shown ∧ Shows line place (shown ++ [.notSetUp f]) events

theorem Tap.SetUpFails.unique {f' : Fault} {shown : List (Tap.Deed α ε)}
    (h : Tap.SetUpFails f shown) (hmem : .notSetUp f' ∈ shown ++ [.notSetUp f]) : f' = f := by
  cases h <;> simpa using hmem

theorem State.refuses (hstep : Stepped P S U events)
    (hfailed : .notSetUp f ∈ deeds line place events) : S.Refuses P U events line place f := by
  cases hstep with
  | @refuse l p context plan f' shown hfocus hplan hlines hstack hnext hfails hshows =>
      obtain ⟨⟨rfl, rfl⟩, hmem⟩ := hshows.mem_here hfailed
      obtain rfl := hfails.unique hmem
      exact ⟨⟨context, hfocus⟩, hlines, hstack, hnext, shown, hfails, hshows⟩
  | serve hfocus hinput hplan htap hturned hshows =>
      have hmem := (hshows.mem_here hfailed).2
      simp [Tap.Turn.notSetUp_not_mem] at hmem
  | resume hfocus hstack hplan htap hturned hshows =>
      exact absurd (hshows.mem_here hfailed).2 (Tap.Turn.notSetUp_not_mem _)
  | setUp hfocus hplan hlines hstack hnext hshows =>
      have hmem := (hshows.mem_here hfailed).2
      simp at hmem
  | hear hfocus hlines hstack hnext hevents =>
      rw [hevents] at hfailed
      cases hfailed
  | explain hfocus hstack hlines hrest hnext hquiet => simp [hquiet.deeds] at hfailed
  | callOut hfocus hcall hlines hstack hnext hquiet => simp [hquiet.deeds] at hfailed
  | endStream hfocus hlines hstack hnext hquiet => simp [hquiet.deeds] at hfailed
  | ended hfocus hstack hlines hrest hnext hs hquiet => simp [hquiet.deeds] at hfailed
  | startEmission hfocus hlines hstack hnext hquiet => simp [hquiet.deeds] at hfailed
  | emit hemitting hlines hframe hstack hnext hs hquiet => simp [hquiet.deeds] at hfailed
  | loop hemitting hlines hstack hnext hquiet => simp [hquiet.deeds] at hfailed
  | idle hfocus hcall hclient hlines hstack hnext hquiet => simp [hquiet.deeds] at hfailed
  | pop hfocus hstack hframe hlines hrest hnext hquiet => simp [hquiet.deeds] at hfailed
  | handOver hfocus hstack hlines hsame hnext hquiet => simp [hquiet.deeds] at hfailed

/-- A line that is being assembled. -/
structure State.Budding (S : State σ α ε) (events : List (Event α ε)) : Prop where
  /-- No tap of it has heard anything. -/
  unheard : ∀ line position context, S.focus = .call (.join line position context) →
    ∀ place, Tap.heard (deeds line place events) = []
  /-- Nobody has been joined before the receiver that is about to be. -/
  unjoined : ∀ line position context, S.focus = .call (.join line position context) →
    ∀ q ≤ position, ∀ c, .joined line q c ∉ events
  made : ∀ line q c, .joined line q c ∈ events → line < S.lines.length

namespace State.Budding

theorem start (ambient : Context) : (State.start P ambient).Budding [] where
  unheard line position context hfocus := by cases hfocus
  unjoined line position context hfocus := by cases hfocus
  made line q c hmem := by cases hmem

theorem step (h : S.Budding before) (hassembled : S.Assembled P)
    (hstep : S.step? P = some (U, events)) : U.Budding (before ++ events) where
  unheard line position context hfocus place := by
    obtain ⟨context', hthen, -⟩ := step_join (step?_stepped hstep) hfocus
    rw [deeds_append, Tap.heard_append, h.unheard _ _ _ hthen place, List.nil_append]
    refine List.eq_nil_iff_forall_not_mem.mpr fun s hs => ?_
    have hcalled := focus_of_heard hassembled (step?_stepped hstep) hs
    rw [hthen] at hcalled
    cases hcalled
  unjoined line position context hfocus q hq c hmem := by
    obtain ⟨context', hthen, -⟩ := step_join (step?_stepped hstep) hfocus
    rcases List.mem_append.mp hmem with hmem | hmem
    · exact h.unjoined _ _ _ hthen q (Nat.le_succ_of_le hq) c hmem
    · have hjoined := step?_joined hstep hmem
      rw [hthen] at hjoined
      cases hjoined
      exact Nat.not_succ_le_self _ hq
  made line q c hmem := by
    rw [step_length (step?_stepped hstep)]
    rcases List.mem_append.mp hmem with hmem | hmem
    · exact h.made line q c hmem
    · exact (hassembled.joining _ _ _ (step?_joined hstep hmem)).started

theorem move {m : Move α ε} (h : S.Budding before) (hcivil : S.Civil P before)
    (hmove : Moved P S U m) : U.Budding before where
  unheard line position context hfocus place := by
    rw [hcivil.peopled.unmade ((move_lines hmove).2 line position context hfocus)]
    rfl
  unjoined line position context hfocus q hq c hmem :=
    absurd (h.made line q c hmem)
      (Nat.not_lt.mpr ((move_lines hmove).2 line position context hfocus))
  made line q c hmem := Nat.lt_of_lt_of_le (h.made line q c hmem) (move_lines hmove).1

theorem play {ambient : Context} {history : List (Entry α ε)}
    (h : Play P (.start P ambient) history U) : U.Budding (happened history) := by
  induction h with
  | refl => exact .start ambient
  | step hplay hstep ih =>
      rw [happened_append, happened_map_event]
      exact ih.step hplay.civil.assembled hstep
  | move hplay _ hmove ih =>
      rw [happened_append, happened_move, List.append_nil]
      exact ih.move hplay.civil (move?_moved hmove)

end State.Budding

/-! ## Once the assembly has ended -/

/-- A line that has been given up is not assembled any further. -/
structure State.Forsakes (P : Plan σ α ε) (S : State σ α ε) (line place : Nat) (f : Fault)
    (events : List (Event α ε)) : Prop extends GivenUp line place f events where
  started : line < S.lines.length
  before : ∀ q ≤ place, S.tap? line q = none
  behind : ∀ q, place < q → q < P.depth → (S.tap? line q).isSome = true
  ended : ∀ position context, S.focus ≠ .call (.join line position context)

/-- Where a tap cannot be set up the line is given up. -/
theorem State.Refuses.forsakes (h : S.Refuses P U events line place f) (hcivil : S.Civil P before)
    (hbudding : S.Budding before) (hstep : S.step? P = some (U, events)) :
    U.Forsakes P line place f (before ++ events) := by
  obtain ⟨context, hfocus⟩ := h.focus
  obtain ⟨shown, hfails, hshows⟩ := h.shows
  have hjoining := hcivil.assembled.joining _ _ _ hfocus
  have huntouched := hcivil.peopled.untouched _ _ _ hfocus
  refine ⟨⟨fun position hposition c hmem => ?_, fun q hq => ?_, shown, hfails, ?_⟩, ?_, ?_, ?_, ?_⟩
  · rcases List.mem_append.mp hmem with hmem | hmem
    · exact hbudding.unjoined _ _ _ hfocus position (Nat.le_succ_of_le hposition) c hmem
    · have hjoined := step?_joined hstep hmem
      rw [hfocus] at hjoined
      cases hjoined
      exact Nat.not_succ_le_self _ hposition
  · rw [deeds_append, huntouched q (Nat.lt_succ_of_lt hq), List.nil_append]
    exact hshows.elsewhere line q fun hhere => Nat.ne_of_lt hq hhere.2
  · rw [deeds_append, huntouched place (Nat.lt_succ_self place), hshows.here, List.nil_append]
  · rw [h.lines]
    exact hjoining.started
  · intro q hq
    rw [tap?_eq h.lines]
    exact hjoining.before q (Nat.lt_succ_of_le hq)
  · intro q hq
    rw [tap?_eq h.lines]
    exact hjoining.behind q hq
  · rw [h.next]
    exact fun position context => Assembled.signal_ne_join _ _ _ _ _ _

namespace State.Forsakes

/-- Nothing can be seen in a step of a place where there is no tap. -/
theorem unseen (h : S.Forsakes P line place f before) (hassembled : S.Assembled P)
    (hstep : Stepped P S U events) {q : Nat} (hq : q ≤ place) :
    deeds line q events = [] ∧ U.tap? line q = S.tap? line q := by
  cases step_progress hassembled hstep line q with
  | same htap hpending hdeeds => exact ⟨hdeeds, htap⟩
  | turn hplan htap => simp [h.before q hq] at htap
  | born hfocus => exact absurd hfocus (h.ended _ _)
  | stillborn hfocus => exact absurd hfocus (h.ended _ _)

theorem step (h : S.Forsakes P line place f before) (hassembled : S.Assembled P)
    (hstep : S.step? P = some (U, events)) : U.Forsakes P line place f (before ++ events) := by
  have hstepped := step?_stepped hstep
  obtain ⟨shown, hfails, hhere⟩ := h.here
  refine ⟨⟨fun position hposition c hmem => ?_, fun q hq => ?_, shown, hfails, ?_⟩, ?_, ?_, ?_, ?_⟩
  · rcases List.mem_append.mp hmem with hmem | hmem
    · exact h.unjoined position hposition c hmem
    · exact h.ended _ _ (step?_joined hstep hmem)
  · rw [deeds_append, h.untouched q hq, (h.unseen hassembled hstepped (Nat.le_of_lt hq)).1]
    rfl
  · rw [deeds_append, (h.unseen hassembled hstepped (Nat.le_refl place)).1, List.append_nil, hhere]
  · rw [step_length hstepped]
    exact h.started
  · intro q hq
    rw [(h.unseen hassembled hstepped hq).2]
    exact h.before q hq
  · exact fun q hq hinside => step_there hassembled hstepped (h.behind q hq hinside)
  · intro position context hnow
    obtain ⟨context', hthen, -⟩ := step_join hstepped hnow
    exact h.ended _ _ hthen

theorem move {m : Move α ε} (h : S.Forsakes P line place f before) (hmove : Moved P S U m) :
    U.Forsakes P line place f before := by
  refine ⟨h.toGivenUp, Nat.lt_of_lt_of_le h.started (move_lines hmove).1, ?_, ?_, ?_⟩
  · intro q hq
    rw [move_tap? hmove]
    exact h.before q hq
  · intro q hq
    rw [move_tap? hmove]
    exact h.behind q hq
  · intro position context hnow
    exact absurd h.started (Nat.not_lt.mpr ((move_lines hmove).2 _ _ _ hnow))

theorem play {history : List (Entry α ε)} (h : S.Forsakes P line place f before)
    (hcivil : S.Civil P before) (hplay : Play P S history U) :
    U.Forsakes P line place f (before ++ happened history) := by
  induction hplay with
  | refl => simpa using h
  | step hplay hstep ih =>
      rw [happened_append, happened_map_event, ← List.append_assoc]
      exact ih.step (hcivil.play hplay).assembled hstep
  | move hplay _ hmove ih =>
      rw [happened_append, happened_move, List.append_nil]
      exact ih.move (move?_moved hmove)

end State.Forsakes

/-- What can be seen of a tap during a call has happened in some step of it. -/
theorem Meanwhile.exists_step {during : List (Entry α ε)} (h : Meanwhile P T during U)
    {d : Tap.Deed α ε} (hd : d ∈ deeds line place (happened during)) :
    ∃ first S V events later, Meanwhile P T first S ∧ S.step? P = some (V, events) ∧
      d ∈ deeds line place events ∧ Play P V later U ∧
      during = first ++ events.map .event ++ later := by
  induction h with
  | refl => cases hd
  | @step first S V events hfirst hunreturned hstep ih =>
      rw [happened_append, happened_map_event, deeds_append] at hd
      rcases List.mem_append.mp hd with hd | hd
      · obtain ⟨before, S', V', now, later, hbefore, hthen, hnow, hlater, rfl⟩ := ih hd
        exact ⟨before, S', V', now, _, hbefore, hthen, hnow, hlater.step hstep, by simp⟩
      · exact ⟨first, S, V, events, [], hfirst, hstep, hd, .refl, by simp⟩
  | move hfirst hallows hmove ih =>
      rw [happened_append, happened_move, List.append_nil] at hd
      obtain ⟨before, S', V', now, later, hbefore, hthen, hnow, hlater, rfl⟩ := ih hd
      exact ⟨before, S', V', now, _, hbefore, hthen, hnow, hlater.move hallows hmove, by simp⟩

end Wiretap

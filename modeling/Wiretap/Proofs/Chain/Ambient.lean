import Wiretap.Proofs.Machine.Carried
import Wiretap.Proofs.Machine.Follow
import Wiretap.Scenario.Kinds

/-!
# The ambient context along a chain

Every tap of a chain carries the context of its receiver with its own augmentation, made once, and
this is what it shows to its source. Whatever calls are in progress around it, whatever fails, and
whatever the outside does with the ambient context between its callbacks: a tap whose scope derives
a context runs its hooks, and a last tap also delivers, under exactly that context; and a call that
returns leaves the ambient context as it found it.
-/

namespace Wiretap

section

variable {K : Kinds} {σ α ε : Type} {P : Plan σ α ε}

namespace State

variable {S U : State σ α ε} {events before : List (Event α ε)} {line place : Nat}

/-- A client that has a tap before it is told something by this tap, which waits. -/
def Backed (P : Plan σ α ε) (S : State σ α ε) : Prop :=
  ∀ line s place, S.focus = .call (.client line s) → place + 1 = P.depth →
    (S.tap? line place).isSome = true → ∃ guard r rest, S.stack = .tap line place guard r :: rest

theorem backed_of_ne (h : ∀ line s, S.focus ≠ .call (.client line s)) : S.Backed P :=
  fun line s _ hfocus => absurd hfocus (h line s)

theorem backed_of_sourceSignal {s : Signal α ε} (h : S.focus = .call (P.sourceSignal line s)) :
    S.Backed P := by
  intro l s' place hfocus hplace _
  have hpositive : 0 < P.depth := by omega
  rw [h, Plan.sourceSignal, if_pos hpositive] at hfocus
  cases hfocus

theorem backed_of_signal {q : Nat} {s : Signal α (TapError ε)} (hq : q ≤ P.depth)
    (h : S.focus = .call (P.signal line q s))
    (hbacked : ∀ place, q = place + 1 → (S.tap? line place).isSome = true →
      ∃ guard r rest, S.stack = .tap line place guard r :: rest) : S.Backed P := by
  intro l s' place hfocus hplace hsome
  rw [h, Plan.signal] at hfocus
  split at hfocus
  · cases hfocus
  · cases hfocus
    exact hbacked place (by omega) hsome

theorem turned_backed {rest : List (Frame α ε)} {turn : Tap.Turn σ α ε} (hplace : place < P.depth)
    (h : Turned P S rest line place turn U) : U.Backed P := by
  have hnext := h.next
  cases hturn : turn.next with
  | answer b =>
      rw [hturn] at hnext
      exact backed_of_ne (by simp [hnext.2])
  | down s r =>
      rw [hturn] at hnext
      obtain ⟨⟨guard, hstack⟩, hfocus⟩ := hnext
      refine backed_of_signal hplace hfocus fun p hp _ => ?_
      cases hp
      exact ⟨guard, r, rest, hstack⟩
  | up h c r =>
      rw [hturn] at hnext
      exact backed_of_ne (by simp [hnext.2])

theorem step_backed (hassembled : S.Assembled P) (hstep : Stepped P S U events) : U.Backed P := by
  cases hstep with
  | serve hfocus hinput hplan htap hturned =>
      exact turned_backed (List.getElem?_eq_some_iff.mp hplan).1 hturned
  | resume hfocus hstack hplan htap hturned =>
      exact turned_backed (List.getElem?_eq_some_iff.mp hplan).1 hturned
  | setUp hfocus hplan hlines hstack hnext => exact backed_of_ne (by simp [hnext])
  | @refuse line place context p f shown hfocus hplan hlines hstack hnext =>
      have hjoining := hassembled.joining _ _ _ hfocus
      refine backed_of_signal hjoining.inside hnext fun q hq hsome => ?_
      cases hq
      rw [tap?_eq hlines, hjoining.before place (Nat.lt_succ_self place)] at hsome
      cases hsome
  | @explain b line position f rest hfocus hstack hlines hrest hnext =>
      obtain ⟨-, place, rfl, hinside, hnone, -⟩ :=
        hassembled.refusing line position f (hstack ▸ List.mem_cons_self)
      refine backed_of_signal hinside hnext fun q hq hsome => ?_
      cases hq
      rw [tap?_eq hlines, hnone] at hsome
      cases hsome
  | endStream hfocus hlines hstack hnext => exact backed_of_sourceSignal hnext
  | ended hfocus hstack hlines hrest hnext => exact backed_of_sourceSignal hnext
  | startEmission hfocus hlines hstack hnext => exact backed_of_sourceSignal hnext
  | emit hemitting hlines hframe hstack hnext => exact backed_of_sourceSignal hnext
  | hear hfocus hlines hstack hnext => exact backed_of_ne (by simp [hnext])
  | callOut hfocus hcall hlines hstack hnext => exact backed_of_ne (by simp [hnext])
  | loop hemitting hlines hstack hnext => exact backed_of_ne (by simp [hnext])
  | idle hfocus hcall hclient hlines hstack hnext => exact backed_of_ne (by simp [hnext])
  | pop hfocus hstack hframe hlines hrest hnext => exact backed_of_ne (by simp [hnext])
  | handOver hfocus hstack hlines hsame hnext => exact backed_of_ne (by simp [hnext])

theorem move_backed {m : Move α ε} (hmove : Moved P S U m) : U.Backed P := by
  cases hmove with
  | subscribe hturn hlines hstack hnext => exact backed_of_ne (by simp [hnext])
  | signal hturn hlines hstack hnext => exact backed_of_sourceSignal hnext
  | control hturn hreceived hlines hstack hnext => exact backed_of_ne (by simp [hnext])
  | direct hturn hlines hstack hnext => exact backed_of_ne (by simp [hnext])
  | answer hturn hstack hlines hrest hnext => exact backed_of_ne (by simp [hnext])

/-! ## Whole runs -/

/-- What the client of a line is told by a tap, it is told under what fits the tap. -/
def TellsFit (P : Plan σ α ε) (S : State σ α ε) (events : List (Event α ε)) : Prop :=
  ∀ line s ambient place, .called (.client line s) ambient ∈ events → place + 1 = P.depth →
    S.Fits P line place ambient

/-- What is known of the contexts at any moment. -/
structure Minds (P : Plan σ α ε) (S : State σ α ε) (events : List (Event α ε))
    (found : List Context) : Prop where
  assembled : S.Assembled P
  peopled : S.Peopled P (fun _ => .any) events
  delivers : S.Delivers P events
  poised : S.Poised P [] none found
  bears : S.Bears P events
  backed : S.Backed P
  works : S.WorkFits P events
  tells : S.TellsFit P events

/-- What fits a tap that is not being set up fits it after the step. -/
theorem Fits.later {ambient : Context} (h : S.Fits P line place ambient)
    (hassembled : S.Assembled P) (hstep : Stepped P S U events)
    (hborn : ∀ context, S.focus ≠ .call (.join line (place + 1) context)) :
    U.Fits P line place ambient := by
  cases hthen : S.tap? line place with
  | some t => exact h.step hassembled hstep (by simp [hthen])
  | none =>
      intro p t derived _ hnow
      rcases step_progress hassembled hstep line place with
        ⟨hsame, -, -⟩ | ⟨-, htap, -, -⟩ | ⟨hfocus, -, -, -, -⟩ | ⟨hfocus, -, -, -, -⟩
      · rw [hsame, hthen] at hnow
        cases hnow
      · rw [hthen] at htap
        cases htap
      · exact absurd hfocus (hborn _)
      · exact absurd hfocus (hborn _)

namespace Minds

variable {found : List Context}

/-- A client that has been told something has a tap before it that has done something. -/
theorem deeds_of_told (h : S.Minds P before found) {s : Signal α (TapError ε)} {ambient : Context}
    (hcalled : .called (.client line s) ambient ∈ before) (hplace : place + 1 = P.depth) :
    deeds line place before ≠ [] := by
  intro hnone
  have hgiven : heardBy line before <+: Tap.given (deeds line place before) :=
    h.delivers.heardBy_given hplace
  rw [hnone] at hgiven
  have hheard : s ∈ heardBy line before :=
    List.mem_filterMap.mpr ⟨_, hcalled, by simp [Event.heard?]⟩
  rw [List.prefix_nil.mp hgiven] at hheard
  cases hheard

theorem step (h : S.Minds P before found) (hstep : S.step? P = some (U, events)) :
    U.Minds P (before ++ events) ((called events).map Prod.snd ++ found) := by
  have hstepped := step?_stepped hstep
  obtain ⟨hpoised, hworks⟩ := h.poised.step h.assembled hstep fun _ _ _ => ⟨rfl, rfl⟩
  have hlater : ∀ {line place : Nat} {ambient : Context}, S.Fits P line place ambient →
      deeds line place before ≠ [] → U.Fits P line place ambient :=
    fun hfits hdeeds => hfits.later h.assembled hstepped fun _ hfocus =>
      hdeeds (h.peopled.vacant h.assembled hfocus).2.2
  constructor
  · exact h.assembled.step hstepped
  · exact h.peopled.step h.assembled (fun _ _ _ _ _ _ => trivial) hstepped
  · exact h.delivers.step h.assembled hstepped
  · exact hpoised
  · exact h.bears.step h.assembled (fun l p c hfocus => (h.peopled.vacant h.assembled hfocus).2.2)
      hstep
  · exact step_backed h.assembled hstepped
  · intro l p ambient act hact hwork
    rcases List.mem_append.mp hact with hact | hact
    · refine hlater (h.works l p ambient act hact hwork) fun hnone => ?_
      have hdeed : .acted act ∈ deeds l p before :=
        List.mem_filterMap.mpr ⟨_, hact, by simp [Event.deed?]⟩
      rw [hnone] at hdeed
      cases hdeed
    · exact hworks l p ambient act hact hwork
  · intro l s ambient place hcalled hplace
    rcases List.mem_append.mp hcalled with hcalled | hcalled
    · exact hlater (h.tells l s ambient place hcalled hplace) (h.deeds_of_told hcalled hplace)
    · -- The tap that tells it is on top of the calls that wait.
      obtain ⟨hfocus, rfl, -⟩ := step?_tells hstep hcalled
      refine Fits.later ?_ h.assembled hstepped (by simp [hfocus])
      cases hthen : S.tap? l place with
      | none =>
          intro p t derived _ hnow
          rw [hthen] at hnow
          cases hnow
      | some u =>
          obtain ⟨guard, r, rest, hstack⟩ := h.backed l s place hfocus hplace (by simp [hthen])
          have hlayered := h.poised.layered
          rw [hstack] at hlayered
          exact (hlayered.of_frame (List.cons_ne_nil _ _) rfl).1 l place guard r rfl

/-- A move of the outside changes no tap. -/
theorem fits_move {m : Move α ε} {ambient : Context} (hmove : Moved P S U m)
    (h : S.Fits P line place ambient) : U.Fits P line place ambient := by
  intro p t derived hplan hnow
  exact h p t derived hplan ((move_tap? hmove line place).symm.trans hnow)

theorem move {m : Move α ε} {later : List Context} (h : S.Minds P before found)
    (hmove : S.move? P m = some U) (hpoised : U.Poised P [] none later) :
    U.Minds P before later := by
  have hmoved := move?_moved hmove
  constructor
  · exact h.assembled.move hmoved
  · exact h.peopled.move hmoved
  · exact h.delivers.move hmoved
  · exact hpoised
  · exact h.bears.move hmoved
  · exact move_backed hmoved
  · exact fun l p ambient act hact hwork => fits_move hmoved (h.works l p ambient act hact hwork)
  · exact fun l s ambient p hcalled hplace =>
      fits_move hmoved (h.tells l s ambient p hcalled hplace)

theorem change (h : S.Minds P before found) {b : Bool} (hfocus : S.focus = .outside b)
    (ambient : Context) : State.Minds P { S with ambient } before found where
  assembled := h.assembled.pass rfl (fun f hf => .inl hf) (by simp [hfocus]) (by simp [hfocus])
  peopled := h.peopled.keep (fun _ _ => rfl) (fun _ _ => rfl) (Nat.le_refl _) (fun _ _ => rfl)
    (by simp [hfocus])
  delivers := h.delivers
  poised := h.poised.change hfocus ambient
  bears := h.bears.change ambient
  backed := h.backed
  works := h.works
  tells := h.tells

theorem start (P : Plan σ α ε) (ambient : Context) : (State.start P ambient).Minds P [] [] where
  assembled := .start ambient
  peopled := .start ambient
  delivers := .nothing rfl rfl
  poised := ⟨.base nofun, fun _ _ => .inr ⟨rfl, rfl⟩⟩
  bears := .start ambient
  backed := backed_of_ne nofun
  works := workFits_nil
  tells := nofun

end Minds

end State

namespace Visit

variable {inside : State σ α ε → Prop} {ambient : Context} {history : List (Entry α ε)}
  {found : List Context} {U : State σ α ε}

theorem minds (hvisit : Visit P inside (.start P ambient) history found U) :
    U.Minds P (happened history) found := by
  induction hvisit with
  | refl => exact .start P ambient
  | step _ _ hstep ih =>
      rw [happened_append, happened_map_event]
      exact ih.step hstep
  | move _ hm hmove ih =>
      rw [happened_append, happened_move, List.append_nil]
      exact ih.move hmove (ih.poised.call ih.assembled hmove hm)
  | answer _ hmove ih =>
      rw [happened_append, happened_move, List.append_nil]
      exact ih.move hmove (ih.poised.answer ih.assembled hmove)
  | change ambient _ hfocus ih => exact ih.change hfocus ambient

/-- In every run in which the outside puts back what its callbacks have found: every tap carries the
context of its receiver as augmented once, and is joined with it to what is before it; a tap whose
scope derives a context does everything under that one, except for its set-up, and so does the last
tap when it tells the client something; and whatever call is made, when it returns the ambient
context is what it was when the call was made. -/
theorem contexts_kept (hvisit : Visit P inside (.start P ambient) history found U) :
    (∀ line place t, U.tap? line place = some t →
      U.Carries P (happened history) line place t.context) ∧
    (∀ line position context, .joined line position context ∈ happened history →
      U.Carries P (happened history) line position context) ∧
    (∀ line place now act p context derived,
      .acted line place now act ∈ happened history → act.isWork = true →
      P.taps[place]? = some p → (U.tap? line place).isSome = true →
      U.Carries P (happened history) line place context → p.scope.derive? context = some derived →
      now = derived) ∧
    (∀ line s now place p context derived,
      .called (.client line s) now ∈ happened history → place + 1 = P.depth →
      P.taps[place]? = some p → (U.tap? line place).isSome = true →
      U.Carries P (happened history) line place context → p.scope.derive? context = some derived →
      now = derived) ∧
    ∀ c later between V, U.focus = .call c →
      Visit P (fun T => ¬U.Returned T) U later between V → U.Returned V →
        V.ambient = U.ambient := by
  have hminds := hvisit.minds
  have hfits : ∀ {line place : Nat} {now : Context}, U.Fits P line place now →
      ∀ p context derived, P.taps[place]? = some p → (U.tap? line place).isSome = true →
        U.Carries P (happened history) line place context →
        p.scope.derive? context = some derived → now = derived := by
    intro line place now hfits p context derived hplan hthere hcarries hderived
    obtain ⟨t, htap⟩ := Option.isSome_iff_exists.mp hthere
    have hcontext : context = t.context := hcarries.unique (hminds.bears.taps line place t htap)
    exact hfits p t derived hplan htap (hcontext ▸ hderived)
  refine ⟨hminds.bears.taps, hminds.bears.joined, ?_, ?_, ?_⟩
  · intro line place now act p context derived hact hwork
    exact hfits (hminds.works line place now act hact hwork) p context derived
  · intro line s now place p context derived hcalled hplace
    exact hfits (hminds.tells line s now place hcalled hplace) p context derived
  · intro c later between V hfocus hlater hreturned
    exact hlater.restores hminds.assembled hfocus hreturned

end Visit

end

open scoped Scenario

/-- A tap that adds an entry to the context. -/
def TapPlan.labelling (scope : Scope) (key : String) (failing : List String) :
    TapPlan Unit Nat Nat where
  scope
  create _ _ _ := .ok ()
  listener _ := { Listener.brittle failing with
    augment s c := (s, .ok (c.insert key (.bool true))) }

/-- A source driven by hand with two taps on it, each of which adds an entry; the first one shows
its own entry only, and fails when an item comes. -/
def Plan.labelled : Plan Unit Nat Nat where
  source := .manual
  taps := [.labelling (.keys ["inner"]) "inner" ["do_on_next"], .labelling .all "outer" []]
  adapt e := e.source?.getD 0

/-- The client changes the ambient context in its first callback, asks for items there, and puts
back what it has found. The request returns to what the client has made ambient, though the first
tap has run its hook under its own entry alone, inside the call of the second tap. -/
theorem Visit.contexts_kept_nested : ∃ history found U later between V,
    Visit .labelled (fun _ => True) (.start .labelled .empty) history found U ∧
    found = [.singleton "outer" (.bool true)] ∧
    Visit .labelled (fun T => ¬U.Returned T) U later between V ∧ U.Returned V ∧
    .singleton "inner" (.bool true) ∈ (called (happened later)).map Prod.snd ∧
    U.ambient = .singleton "own" ⟨.bool, true⟩ ∧ V.ambient = U.ambient := by
  -- The request is followed until it returns, from the state in which it is made.
  obtain ⟨history, found, U, hvisit, htest⟩ := Visit.of_errands (P := .labelled)
    (S := .start .labelled .empty) (fun _ (_ : true = true) => trivial) 20
    [.move (.subscribe .plain), .wait, .move (.answer true), .wait,
      .move (.signal 0 (.subscribe (.external 0))), .wait, .change (.singleton "own" ⟨.bool, true⟩),
      .move (.control 0 0 (.request 3))]
    (fun now => now.2.1 = [.singleton "outer" ⟨.bool, true⟩] ∧ now.2.2.focus.isCall = true ∧
      now.2.2.ambient = .singleton "own" ⟨.bool, true⟩ ∧
      (Visit.run? .labelled (Visit.isUnderWay now.2.2) 20 [.wait, .move (.answer true), .wait]
        ([], [], now.2.2)).any (fun later =>
          later.2.2.stack.length = now.2.2.stack.length ∧ later.2.2.focus.isBack = true ∧
          .singleton "inner" ⟨.bool, true⟩ ∈ (called (happened later.1)).map Prod.snd) = true)
    (by decide +kernel)
  obtain ⟨hfound, hcall, hambient, hrequest⟩ := of_decide_eq_true htest
  obtain ⟨later, between, V, hlater, hreturns⟩ := Visit.of_errands
    (fun _ => Visit.not_returned_of_isUnderWay) 20 _ _ hrequest
  obtain ⟨hlength, hback, hinner⟩ := of_decide_eq_true hreturns
  obtain ⟨c, hfocus⟩ : ∃ c, U.focus = .call c := by
    cases hnow : U.focus with
    | call c => exact ⟨c, rfl⟩
    | _ =>
        rw [hnow] at hcall
        cases hcall
  have hreturned := hlater.returned hvisit.minds.assembled hfocus hlength hback
  obtain ⟨-, -, -, -, hrestores⟩ := hvisit.contexts_kept
  exact ⟨history, found, U, later, between, V, hvisit, hfound, hlater, hreturned, hinner, hambient,
    hrestores c later between V hfocus hlater hreturned⟩

end Wiretap

import Wiretap.Proofs.Machine.Assembly

/-!
# The lives of taps in a run

Seen from one place of a line, a step of the machine is a call to the tap there, or the return of a
call that it made, or the birth of the tap, or nothing at all. So every run of the machine contains
a life of every tap that has been set up, and all that is known of lives holds of runs.
-/

namespace Wiretap

variable {K : Kinds} {σ α ε : Type}

/-- The point at which the tap at a place resumes, if the frame is its own. -/
def Frame.resume? (line place : Nat) : Frame α ε → Option (Tap.Resume α ε)
  | .tap l p _ r => if l = line ∧ p = place then some r else none
  | _ => none

namespace State

variable {P : Plan σ α ε} {S U : State σ α ε} {line place : Nat} {events : List (Event α ε)}

/-- Where the tap at a place resumes when its calls return, the innermost one first. -/
def pending (S : State σ α ε) (line place : Nat) : List (Tap.Resume α ε) :=
  S.stack.filterMap (Frame.resume? line place)

/-- The tap at a place is called next. -/
def Calls (S : State σ α ε) (line place : Nat) (input : Tap.Input α ε) : Prop :=
  ∃ c, S.focus = .call c ∧ c.input? = some (line, place, input)

theorem pending_eq (hstack : U.stack = S.stack) (line place : Nat) :
    U.pending line place = S.pending line place := by
  rw [pending, pending, hstack]

/-- A frame that does not belong to the tap is pushed or popped. -/
theorem pending_cons {f : Frame α ε} {rest : List (Frame α ε)} (hstack : U.stack = f :: rest)
    (hf : f.resume? line place = none) :
    U.pending line place = rest.filterMap (Frame.resume? line place) := by
  rw [pending, hstack, List.filterMap_cons_none hf]

theorem resume?_foreign {f : Frame α ε} (hf : f.isForeign = true) :
    f.resume? line place = none := by
  cases f with
  | tap => cases hf
  | _ => rfl

theorem resume?_other {l p : Nat} (hother : ¬(l = line ∧ p = place)) (guard : Guard)
    (r : Tap.Resume α ε) : (Frame.tap line place guard r).resume? l p = none := by
  have hne : ¬(line = l ∧ place = p) := fun h => hother ⟨h.1.symm, h.2.symm⟩
  simp [Frame.resume?, hne]

/-- What a step is to the tap at a place. -/
inductive Progress (P : Plan σ α ε) (S U : State σ α ε) (events : List (Event α ε))
    (line place : Nat) : Prop
  /-- Nothing. -/
  | same (htap : U.tap? line place = S.tap? line place)
    (hpending : U.pending line place = S.pending line place)
    (hdeeds : deeds line place events = [])
  /-- A turn. -/
  | turn {p : TapPlan σ α ε} {t u : Tap σ} (hplan : P.taps[place]? = some p)
    (htap : S.tap? line place = some t) (hnow : U.tap? line place = some u)
    (hstep : ∀ (manners : Tap.Life.Manners σ α ε) (before : List (Tap.Deed α ε)),
      (∀ input, S.Calls line place input →
        manners ⟨t, S.pending line place, before⟩ input) →
      Tap.Life.Step p.listener (.tap place) (S.isConditional line) manners
        ⟨t, S.pending line place, before⟩
        ⟨u, U.pending line place, before ++ deeds line place events⟩)
  /-- Its birth. -/
  | born {p : TapPlan σ α ε} {listener : σ} {context augmented : Context}
    (hfocus : S.focus = .call (.join line (place + 1) context)) (hplan : P.taps[place]? = some p)
    (hnow : U.tap? line place = some (.start listener augmented))
    (hpending : U.pending line place = S.pending line place)
    (hdeeds : deeds line place events =
      [.created none, .acted (.ran .first none), .acted (.augmented none)])
  /-- The failure of its birth. -/
  | stillborn {f : Fault} {shown : List (Tap.Deed α ε)} {context : Context}
    (hfocus : S.focus = .call (.join line (place + 1) context))
    (htap : U.tap? line place = S.tap? line place)
    (hpending : U.pending line place = S.pending line place)
    (hfails : Tap.SetUpFails f shown)
    (hdeeds : deeds line place events = shown ++ [.notSetUp f])

theorem turned_pending {rest : List (Frame α ε)} {turn : Tap.Turn σ α ε}
    (hturned : Turned P S rest line place turn U) :
    U.pending line place =
      turn.next.resume?.toList ++ rest.filterMap (Frame.resume? line place) := by
  rcases hturned.stack with ⟨hnone, hstack⟩ | ⟨guard, r, hsome, hstack⟩
  · rw [pending, hstack, hnone]
    rfl
  · rw [pending, hstack, hsome, List.filterMap_cons_some (b := r) (by simp [Frame.resume?])]
    rfl

theorem turned_pending_other {rest : List (Frame α ε)} {turn : Tap.Turn σ α ε} {l p : Nat}
    (hother : ¬(l = line ∧ p = place)) (hturned : Turned P S rest line place turn U) :
    U.pending l p = rest.filterMap (Frame.resume? l p) := by
  rcases hturned.stack with ⟨-, hstack⟩ | ⟨guard, r, -, hstack⟩
  · rw [pending, hstack]
  · exact pending_cons hstack (resume?_other hother guard r)

/-- To every place but that of the tap whose turn it is, a turn is nothing. -/
theorem turned_other {rest : List (Frame α ε)} {turn : Tap.Turn σ α ε}
    {shown : List (Tap.Deed α ε)} {l p : Nat} (hother : ¬(l = line ∧ p = place))
    (hturned : Turned P S rest line place turn U) (hshows : Shows line place shown events)
    (hrest : rest.filterMap (Frame.resume? l p) = S.pending l p) :
    Progress P S U events l p := by
  refine .same ?_ ?_ (hshows.elsewhere l p hother)
  · rw [tap?_eq hturned.lines, setTap_tap?_other hother]
  · rw [turned_pending_other hother hturned, hrest]

theorem quiet_progress (hlines : U.lines.map Line.bare = S.lines.map Line.bare)
    (hpending : U.pending line place = S.pending line place) (hquiet : Quiet events) :
    Progress P S U events line place :=
  .same (tap?_of_bare hlines line place) hpending (hquiet.deeds line place)

theorem emitting_pending {rest : List (Frame α ε)} {l : Nat} (h : S.Emitting l rest) :
    rest.filterMap (Frame.resume? line place) = S.pending line place := by
  rcases h with ⟨n, -, rfl⟩ | ⟨b, n, last, -, hstack⟩
  · rfl
  · exact (pending_cons hstack (resume?_foreign rfl)).symm

/-- The tap of a frame is there, and the plan has one at its place, so no such frame is dropped. -/
theorem foreign_of_pop (h : S.Assembled P) {f : Frame α ε} {rest : List (Frame α ε)}
    (hstack : S.stack = f :: rest)
    (hframe : f.isPassive = true ∨ ∃ line place guard r, f = .tap line place guard r ∧
      (P.taps[place]? = none ∨ S.tap? line place = none)) : f.isForeign = true := by
  rcases hframe with hpassive | ⟨line, place, guard, r, rfl, habsent⟩
  · cases f <;> first | rfl | cases hpassive
  · have htap := h.waiting line place guard r (hstack ▸ List.mem_cons_self)
    obtain ⟨p, hplan⟩ := h.planned htap
    rcases habsent with hnone | hnone
    · rw [hplan] at hnone
      cases hnone
    · rw [hnone] at htap
      cases htap

theorem step_progress (h : S.Assembled P) (hstep : Stepped P S U events) (line place : Nat) :
    Progress P S U events line place := by
  cases hstep with
  | @serve c line' place' input p t hfocus hinput hplan htap hturned hshows =>
      by_cases hhere : line = line' ∧ place = place'
      · obtain ⟨rfl, rfl⟩ := hhere
        have hplace : S.HasPlace line place := hasPlace_of_tap? (by simp [htap])
        refine .turn hplan htap ((tap?_eq hturned.lines line place).trans
          (setTap_tap?_self hplace _)) fun manners before hmanners => ?_
        have hcall := hmanners input ⟨c, hfocus, hinput⟩
        rw [turned_pending hturned, hshows.here]
        have hserve : Tap.Life.Step p.listener (.tap place) (S.isConditional line) manners _ _ :=
          .serve (S.inside p t) hcall
        simpa [Tap.Life.take, pending] using hserve
      · exact turned_other hhere hturned hshows rfl
  | @resume b line' place' guard r rest p t hfocus hstack hplan htap hturned hshows =>
      by_cases hhere : line = line' ∧ place = place'
      · obtain ⟨rfl, rfl⟩ := hhere
        have hplace : S.HasPlace line place := hasPlace_of_tap? (by simp [htap])
        refine .turn hplan htap ((tap?_eq hturned.lines line place).trans
          (setTap_tap?_self hplace _)) fun manners before _ => ?_
        have hpending : S.pending line place = r :: rest.filterMap (Frame.resume? line place) := by
          rw [pending, hstack, List.filterMap_cons_some (b := r) (by simp [Frame.resume?])]
        rw [turned_pending hturned, hshows.here, hpending]
        exact .resume S.ambient b
      · refine turned_other hhere hturned hshows ?_
        rw [pending_cons hstack (resume?_other hhere guard r)]
  | @setUp line' place' context p listener augmented guard hfocus hplan hlines hstack hnext
      hshows =>
      have hpending : U.pending line place = S.pending line place :=
        pending_cons hstack (resume?_foreign rfl)
      by_cases hhere : line = line' ∧ place = place'
      · obtain ⟨rfl, rfl⟩ := hhere
        have hjoining := h.joining _ _ _ hfocus
        have hnow : U.tap? line place = some (.start listener augmented) := by
          rw [tap?_eq hlines]
          exact setTap_tap?_self (h.hasPlace hjoining.started hjoining.inside) _
        exact .born hfocus hplan hnow hpending hshows.here
      · refine .same ?_ hpending (hshows.elsewhere line place hhere)
        rw [tap?_eq hlines, setTap_tap?_other hhere]
  | @refuse line' place' context p f shown hfocus hplan hlines hstack hnext hfails hshows =>
      have hpending : U.pending line place = S.pending line place := pending_cons hstack rfl
      by_cases hhere : line = line' ∧ place = place'
      · obtain ⟨rfl, rfl⟩ := hhere
        exact .stillborn hfocus (tap?_eq hlines line place) hpending hfails hshows.here
      · exact .same (tap?_eq hlines line place) hpending (hshows.elsewhere line place hhere)
  | explain hfocus hstack hlines hrest hnext hquiet =>
      refine quiet_progress (congrArg _ hlines) ?_ hquiet
      rw [pending_cons hstack rfl, pending, hrest]
  | hear hfocus hlines hstack hnext hevents =>
      refine .same (receive_tap? hlines line place) (pending_cons hstack (resume?_foreign rfl)) ?_
      rw [hevents]
      rfl
  | callOut hfocus hcall hlines hstack hnext hquiet =>
      exact quiet_progress (congrArg _ hlines) (pending_cons hstack (resume?_foreign rfl)) hquiet
  | endStream hfocus hlines hstack hnext hquiet =>
      exact quiet_progress (congrArg _ hlines) (pending_cons hstack (resume?_foreign rfl)) hquiet
  | ended hfocus hstack hlines hrest hnext hs hquiet =>
      refine quiet_progress (congrArg _ hlines) ?_ hquiet
      rw [pending_cons hstack (resume?_foreign rfl), pending, hrest]
  | startEmission hfocus hlines hstack hnext hquiet =>
      exact quiet_progress hlines (pending_eq hstack line place) hquiet
  | emit hemitting hlines hframe hstack hnext hs hquiet =>
      refine quiet_progress hlines ?_ hquiet
      rw [← emitting_pending hemitting]
      refine pending_cons hstack (resume?_foreign ?_)
      rcases hframe with ⟨n, last, rfl⟩ | rfl <;> rfl
  | loop hemitting hlines hstack hnext hquiet =>
      refine quiet_progress hlines ?_ hquiet
      rw [pending, hstack]
      rcases hemitting with hemitting | ⟨position, c, -, rfl⟩
      · exact emitting_pending hemitting
      · rfl
  | idle hfocus hcall hclient hlines hstack hnext hquiet =>
      exact quiet_progress hlines (pending_eq hstack line place) hquiet
  | @pop b b' f rest hfocus hstack hframe hlines hrest hnext hquiet =>
      refine quiet_progress hlines ?_ hquiet
      rw [pending_cons hstack (resume?_foreign (foreign_of_pop h hstack hframe)), pending, hrest]
  | handOver hfocus hstack hlines hsame hnext hquiet =>
      exact quiet_progress (congrArg _ hlines) (pending_eq hsame line place) hquiet

/-! ## Fates -/

/-- What has become of a place so far. -/
inductive Fate (P : Plan σ α ε) (manners : Nat → Tap.Life.Manners σ α ε) (S : State σ α ε)
    (events : List (Event α ε)) (line place : Nat) : Prop
  /-- Nothing yet. -/
  | unborn (htap : S.tap? line place = none) (hpending : S.pending line place = [])
    (hdeeds : deeds line place events = [])
  /-- There is no tap and there never will be. -/
  | stillborn {f : Fault} {shown : List (Tap.Deed α ε)} (hmade : line < S.lines.length)
    (htap : S.tap? line place = none) (hpending : S.pending line place = [])
    (hfails : Tap.SetUpFails f shown)
    (hdeeds : deeds line place events = shown ++ [.notSetUp f])
  /-- There is a tap, and it has lived. -/
  | alive {p : TapPlan σ α ε} {t : Tap σ} (hplan : P.taps[place]? = some p)
    (htap : S.tap? line place = some t)
    (hlived : Tap.Life.Lived p.listener (.tap place) (S.isConditional line) (manners place)
      ⟨t, S.pending line place, deeds line place events⟩)

/-- Every place has its fate, and where a tap is still to be set up nothing has happened. -/
structure Peopled (P : Plan σ α ε) (manners : Nat → Tap.Life.Manners σ α ε) (S : State σ α ε)
    (events : List (Event α ε)) : Prop where
  fate : ∀ line place, Fate P manners S events line place
  untouched : ∀ line position context, S.focus = .call (.join line position context) →
    ∀ place, place < position → deeds line place events = []

/-- The tap at a place is called only as the manners allow. -/
def Mannerly (manners : Nat → Tap.Life.Manners σ α ε) (S : State σ α ε)
    (events : List (Event α ε)) : Prop :=
  ∀ line place t input, S.tap? line place = some t → S.Calls line place input →
    manners place ⟨t, S.pending line place, deeds line place events⟩ input

theorem step_isConditional (hstep : Stepped P S U events) (line : Nat) :
    U.isConditional line = S.isConditional line := by
  cases hstep with
  | serve hfocus hinput hplan htap hturned =>
      rw [isConditional_eq hturned.lines, setTap_isConditional]
  | resume hfocus hstack hplan htap hturned =>
      rw [isConditional_eq hturned.lines, setTap_isConditional]
  | setUp hfocus hplan hlines => rw [isConditional_eq hlines, setTap_isConditional]
  | hear hfocus hlines => exact receive_isConditional hlines line
  | refuse hfocus hplan hlines => exact isConditional_eq hlines line
  | explain hfocus hstack hlines => exact isConditional_eq hlines line
  | callOut hfocus hcall hlines => exact isConditional_eq hlines line
  | endStream hfocus hlines => exact isConditional_eq hlines line
  | ended hfocus hstack hlines => exact isConditional_eq hlines line
  | handOver hfocus hstack hlines => exact isConditional_eq hlines line
  | startEmission hfocus hlines => exact isConditional_of_bare hlines line
  | emit hemitting hlines => exact isConditional_of_bare hlines line
  | loop hemitting hlines => exact isConditional_of_bare hlines line
  | idle hfocus hcall hclient hlines => exact isConditional_of_bare hlines line
  | pop hfocus hstack hframe hlines => exact isConditional_of_bare hlines line

/-- After a step a receiver is to be joined only if the tap behind it has just been set up. -/
theorem step_join (hstep : Stepped P S U events) {line position : Nat} {context : Context}
    (hnow : U.focus = .call (.join line position context)) :
    ∃ context', S.focus = .call (.join line (position + 1) context') ∧
      ∀ place, place < position → deeds line place events = [] := by
  have hsource : ∀ l s, U.focus = .call (P.sourceSignal l s) → False := fun l s hnext =>
    Assembled.sourceSignal_ne_join l line position s context (hnext ▸ hnow)
  have hsignal : ∀ l p s, U.focus = .call (P.signal l p s) → False := fun l p s hnext =>
    Assembled.signal_ne_join l p line position s context (hnext ▸ hnow)
  have hturned : ∀ {rest : List (Frame α ε)} {l p : Nat} {turn : Tap.Turn σ α ε},
      Turned P S rest l p turn U → False := by
    intro rest l p turn hturned
    rcases hturned.focus with ⟨b, hnext⟩ | ⟨s, hnext⟩ | ⟨handle, c, hnext⟩
    · rw [hnext] at hnow
      cases hnow
    · exact hsignal _ _ _ hnext
    · rw [hnext] at hnow
      cases hnow
  cases hstep with
  | serve hfocus hinput hplan htap ht => exact (hturned ht).elim
  | resume hfocus hstack hplan htap ht => exact (hturned ht).elim
  | setUp hfocus hplan hlines hstack hnext hshows =>
      rw [hnext] at hnow
      cases hnow
      refine ⟨_, hfocus, fun place hlt => hshows.elsewhere line place ?_⟩
      rintro ⟨-, rfl⟩
      exact Nat.lt_irrefl _ hlt
  | refuse hfocus hplan hlines hstack hnext => exact (hsignal _ _ _ hnext).elim
  | explain hfocus hstack hlines hrest hnext => exact (hsignal _ _ _ hnext).elim
  | endStream hfocus hlines hstack hnext => exact (hsource _ _ hnext).elim
  | ended hfocus hstack hlines hrest hnext => exact (hsource _ _ hnext).elim
  | startEmission hfocus hlines hstack hnext => exact (hsource _ _ hnext).elim
  | emit hemitting hlines hframe hstack hnext => exact (hsource _ _ hnext).elim
  | hear hfocus hlines hstack hnext => simp [hnext] at hnow
  | callOut hfocus hcall hlines hstack hnext => simp [hnext] at hnow
  | loop hemitting hlines hstack hnext => simp [hnext] at hnow
  | idle hfocus hcall hclient hlines hstack hnext => simp [hnext] at hnow
  | pop hfocus hstack hframe hlines hrest hnext => simp [hnext] at hnow
  | handOver hfocus hstack hlines hsame hnext => simp [hnext] at hnow

theorem step_length (hstep : Stepped P S U events) : U.lines.length = S.lines.length := by
  have hset : ∀ (line place : Nat) (t : Tap σ),
      (S.setTap line place t).lines.length = S.lines.length := by
    intro line place t
    simp [setTap, modifyLine]
  cases hstep with
  | serve hfocus hinput hplan htap hturned => rw [hturned.lines, hset]
  | resume hfocus hstack hplan htap hturned => rw [hturned.lines, hset]
  | setUp hfocus hplan hlines => rw [hlines, hset]
  | hear hfocus hlines => rw [hlines, List.length_modify]
  | refuse hfocus hplan hlines => rw [hlines]
  | explain hfocus hstack hlines => rw [hlines]
  | callOut hfocus hcall hlines => rw [hlines]
  | endStream hfocus hlines => rw [hlines]
  | ended hfocus hstack hlines => rw [hlines]
  | handOver hfocus hstack hlines => rw [hlines]
  | startEmission hfocus hlines => exact length_of_bare hlines
  | emit hemitting hlines => exact length_of_bare hlines
  | loop hemitting hlines => exact length_of_bare hlines
  | idle hfocus hcall hclient hlines => exact length_of_bare hlines
  | pop hfocus hstack hframe hlines => exact length_of_bare hlines

theorem lt_of_tap? {p : Nat} (h : (S.tap? line p).isSome = true) : line < S.lines.length := by
  obtain ⟨l, hl, -⟩ := hasPlace_of_tap? h
  exact (List.getElem?_eq_some_iff.mp hl).1

/-- No line is lost by a move, and a line that is to be joined after it is a new one. -/
theorem move_lines {m : Move α ε} (hmove : Moved P S U m) : S.lines.length ≤ U.lines.length ∧
    ∀ line position context, U.focus = .call (.join line position context) →
      S.lines.length ≤ line := by
  cases hmove with
  | subscribe hturn hlines hstack hnext =>
      refine ⟨by simp [hlines, addLine], fun line position context hfocus => ?_⟩
      rw [hnext] at hfocus
      cases hfocus
      exact Nat.le_refl _
  | signal hturn hlines hstack hnext =>
      refine ⟨Nat.le_of_eq (by rw [hlines]), fun line position context hfocus => ?_⟩
      exact (Assembled.sourceSignal_ne_join _ line position _ context (hnext ▸ hfocus)).elim
  | control hturn hreceived hlines hstack hnext =>
      refine ⟨Nat.le_of_eq (by rw [hlines]), fun line position context hfocus => ?_⟩
      rw [hnext] at hfocus
      cases hfocus
  | direct hturn hlines hstack hnext =>
      refine ⟨Nat.le_of_eq (by rw [hlines]), fun line position context hfocus => ?_⟩
      rw [hnext] at hfocus
      cases hfocus
  | answer hturn hstack hlines hrest hnext =>
      refine ⟨Nat.le_of_eq (by rw [hlines]), fun line position context hfocus => ?_⟩
      rw [hnext] at hfocus
      cases hfocus

/-- To the taps that are there a move of the outside is nothing. -/
theorem move_keeps {m : Move α ε} (hmove : Moved P S U m) (hline : line < S.lines.length)
    (place : Nat) : U.tap? line place = S.tap? line place ∧
      U.pending line place = S.pending line place ∧
      U.isConditional line = S.isConditional line := by
  have hsame : U.lines = S.lines → U.pending line place = S.pending line place →
      U.tap? line place = S.tap? line place ∧ U.pending line place = S.pending line place ∧
        U.isConditional line = S.isConditional line := fun hlines hpending =>
    ⟨tap?_eq hlines line place, hpending, isConditional_eq hlines line⟩
  cases hmove with
  | subscribe hturn hlines hstack =>
      refine ⟨(tap?_eq hlines line place).trans (addLine_tap? _ line place),
        pending_eq hstack line place, ?_⟩
      rw [isConditional_eq hlines, addLine_isConditional _ hline]
  | signal hturn hlines hstack => exact hsame hlines (pending_eq hstack line place)
  | control hturn hreceived hlines hstack => exact hsame hlines (pending_eq hstack line place)
  | direct hturn hlines hstack => exact hsame hlines (pending_eq hstack line place)
  | answer hturn hstack hlines hrest =>
      refine hsame hlines ?_
      rw [pending_cons hstack (resume?_foreign rfl), pending, hrest]

namespace Peopled

variable {manners : Nat → Tap.Life.Manners σ α ε} {before : List (Event α ε)}

/-- Where a tap is about to be set up there is nothing so far. -/
theorem vacant (hassembled : S.Assembled P) (h : S.Peopled P manners before) {context : Context}
    (hfocus : S.focus = .call (.join line (place + 1) context)) :
    S.tap? line place = none ∧ S.pending line place = [] ∧ deeds line place before = [] := by
  have hnone := (hassembled.joining _ _ _ hfocus).before place (Nat.lt_succ_self place)
  refine ⟨hnone, ?_, h.untouched _ _ _ hfocus place (Nat.lt_succ_self place)⟩
  rcases h.fate line place with ⟨-, hidle, -⟩ | ⟨-, -, hidle, -, -⟩ | ⟨-, htap, -⟩
  · exact hidle
  · exact hidle
  · rw [hnone] at htap
    cases htap

theorem step_fate (hassembled : S.Assembled P) (h : S.Peopled P manners before)
    (hmannerly : S.Mannerly manners before) (hstep : Stepped P S U events) (line place : Nat) :
    Fate P manners U (before ++ events) line place := by
  rcases step_progress hassembled hstep line place with
    ⟨htap, hpending, hdeeds⟩ | ⟨hplan, htap, hnow, hturn⟩ |
    ⟨hfocus, hplan, hnow, hpending, hdeeds⟩ | ⟨hfocus, htap, hpending, hfails, hdeeds⟩
  · have hsame : deeds line place (before ++ events) = deeds line place before := by
      rw [deeds_append, hdeeds, List.append_nil]
    rcases h.fate line place with ⟨htap', hpending', hdeeds'⟩ |
      ⟨hmade, htap', hpending', hfails, hdeeds'⟩ | ⟨hplan, htap', hlived⟩
    · exact .unborn (htap.trans htap') (hpending.trans hpending') (hsame.trans hdeeds')
    · rw [← step_length hstep] at hmade
      exact .stillborn hmade (htap.trans htap') (hpending.trans hpending') hfails
        (hsame.trans hdeeds')
    · refine .alive hplan (htap.trans htap') ?_
      rwa [step_isConditional hstep, hpending, hsame]
  · rcases h.fate line place with ⟨htap', -, -⟩ | ⟨-, htap', -, -, -⟩ | ⟨hplan', htap', hlived⟩
    · simp [htap] at htap'
    · simp [htap] at htap'
    · rw [htap] at htap'
      rw [hplan] at hplan'
      cases htap'
      cases hplan'
      refine .alive hplan hnow ?_
      rw [step_isConditional hstep, deeds_append]
      exact hlived.step (hturn _ _ fun input hcall => hmannerly line place _ input htap hcall)
  · obtain ⟨-, hidle, hempty⟩ := h.vacant hassembled hfocus
    refine .alive hplan hnow (.newborn ⟨⟨_, _, rfl⟩, hpending.trans hidle, .inr ?_⟩)
    change deeds line place (before ++ events) = _
    rw [deeds_append, hempty, hdeeds, List.nil_append]
  · obtain ⟨hnone, hidle, hempty⟩ := h.vacant hassembled hfocus
    have hmade : line < U.lines.length := by
      rw [step_length hstep]
      exact (hassembled.joining _ _ _ hfocus).started
    refine .stillborn hmade (htap.trans hnone) (hpending.trans hidle) hfails ?_
    rw [deeds_append, hempty, hdeeds, List.nil_append]

theorem step (hassembled : S.Assembled P) (h : S.Peopled P manners before)
    (hmannerly : S.Mannerly manners before) (hstep : Stepped P S U events) :
    U.Peopled P manners (before ++ events) where
  fate := h.step_fate hassembled hmannerly hstep
  untouched := by
    intro line position context hnow place hlt
    obtain ⟨context', hfocus, hnone⟩ := step_join hstep hnow
    rw [deeds_append, h.untouched _ _ _ hfocus place (by omega), hnone place hlt]
    rfl

/-- Nothing happens on a line before it is made. -/
theorem unmade (h : S.Peopled P manners before) (hline : S.lines.length ≤ line) :
    deeds line place before = [] := by
  rcases h.fate line place with ⟨-, -, hdeeds⟩ | ⟨hmade, -⟩ | ⟨-, htap, -⟩
  · exact hdeeds
  · omega
  · have hlt : line < S.lines.length := lt_of_tap? (p := place) (by simp [htap])
    omega

/-- Taps, frames of taps and clients stay as they are, and new lines may have been made. -/
theorem keep (h : S.Peopled P manners before) (htaps : ∀ l p, U.tap? l p = S.tap? l p)
    (hpending : ∀ l p, U.pending l p = S.pending l p)
    (hmade : S.lines.length ≤ U.lines.length)
    (hconditional : ∀ l, l < S.lines.length → U.isConditional l = S.isConditional l)
    (huntouched : ∀ line position context, U.focus = .call (.join line position context) →
      ∀ place, place < position → deeds line place before = []) :
    U.Peopled P manners before where
  fate := by
    intro line place
    rcases h.fate line place with ⟨htap, hidle, hdeeds⟩ | ⟨hold, htap, hidle, hfails, hdeeds⟩ |
      ⟨hplan, htap, hlived⟩
    · exact .unborn ((htaps line place).trans htap) ((hpending line place).trans hidle) hdeeds
    · exact .stillborn (Nat.lt_of_lt_of_le hold hmade) ((htaps line place).trans htap)
        ((hpending line place).trans hidle) hfails hdeeds
    · have hlt : line < S.lines.length := lt_of_tap? (p := place) (by simp [htap])
      refine .alive hplan ((htaps line place).trans htap) ?_
      rwa [hconditional line hlt, hpending]
  untouched := huntouched

theorem move {m : Move α ε} (h : S.Peopled P manners before) (hmove : Moved P S U m) :
    U.Peopled P manners before := by
  have hsame : U.lines = S.lines → (∀ l p, U.pending l p = S.pending l p) →
      (∀ line position context, U.focus ≠ .call (.join line position context)) →
      U.Peopled P manners before := fun hlines hpending hjoin =>
    h.keep (tap?_eq hlines) hpending (Nat.le_of_eq (congrArg List.length hlines).symm)
      (fun l _ => isConditional_eq hlines l)
      fun line position context hnow => absurd hnow (hjoin line position context)
  cases hmove with
  | subscribe hturn hlines hstack hnext =>
      refine h.keep (fun l p => (tap?_eq hlines l p).trans (addLine_tap? _ l p)) (pending_eq hstack)
        ?_ (fun l hlt => (isConditional_eq hlines l).trans (addLine_isConditional _ hlt)) ?_
      · rw [hlines]
        simp [addLine]
      · intro line position context hnow place _
        rw [hnext] at hnow
        cases hnow
        exact h.unmade (Nat.le_refl _)
  | signal hturn hlines hstack hnext =>
      exact hsame hlines (pending_eq hstack)
        fun l p context => hnext ▸ Assembled.sourceSignal_ne_join _ l p _ context
  | control hturn hreceived hlines hstack hnext =>
      exact hsame hlines (pending_eq hstack) (by simp [hnext])
  | direct hturn hlines hstack hnext =>
      exact hsame hlines (pending_eq hstack) (by simp [hnext])
  | answer hturn hstack hlines hrest hnext =>
      refine hsame hlines (fun l p => ?_) (by simp [hnext])
      rw [pending_cons hstack (resume?_foreign rfl), pending, hrest]

theorem start (ambient : Context) : (State.start P ambient).Peopled P manners [] where
  fate := fun line place => .unborn (by simp [State.start, tap?]) rfl rfl
  untouched := fun _ _ _ hnow => by simp [State.start] at hnow

theorem startTap {p : TapPlan σ α ε} (hplan : P.taps = [p]) (client : Client) (listener : σ)
    (context ambient : Context) :
    (State.startTap P client listener context ambient).Peopled P manners [] where
  fate := by
    intro line place
    cases line with
    | zero =>
        cases place with
        | zero =>
            refine .alive (by rw [hplan]; rfl) rfl (.newborn ?_)
            exact ⟨⟨listener, context, rfl⟩, rfl, .inl rfl⟩
        | succ place => exact .unborn rfl rfl rfl
    | succ line => exact .unborn rfl rfl rfl
  untouched := fun _ _ _ hnow => by simp [State.startTap, State.start] at hnow

/-- In any run every tap has lived. -/
theorem run {history : List (Entry α ε)} (hassembled : S.Assembled P)
    (h : S.Peopled P (fun _ => .any) before) (hrun : Run P S history U) :
    U.Peopled P (fun _ => .any) (before ++ happened history) := by
  induction hrun with
  | refl => simpa using h
  | @step history T U events hrun hstep ih =>
      rw [happened_append, happened_map_event, ← List.append_assoc]
      exact ih.step (hassembled.run hrun) (fun _ _ _ _ _ _ => trivial) (step?_stepped hstep)
  | move hrun hmove ih =>
      rw [happened_append, happened_move, List.append_nil]
      exact ih.move (move?_moved hmove)

end Peopled

end State

end Wiretap

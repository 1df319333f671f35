import Wiretap.Proofs.Machine.Courtesy
import Wiretap.Proofs.Tap.Release

/-!
# How a cancellation reaches the source

The first tap of a line that gives up its source sets off a climb: one tap after the other passes
the cancellation on before anything else can happen, because none of those before it has given up
its source yet and no hook for a cancellation fails. So when the machine is busy with something else
again, the source has been told.
-/

namespace Wiretap

variable {K : Kinds} {σ α ε : Type}

namespace State

variable {P : Plan σ α ε} {S U : State σ α ε} {events before : List (Event α ε)}
  {line place : Nat} {p : TapPlan σ α ε} {t : Tap σ}

/-! ## Turns in a run -/

/-- In a step the tap at a place takes a turn. -/
inductive Acts (P : Plan σ α ε) (S U : State σ α ε) (events : List (Event α ε))
    (line place : Nat) (p : TapPlan σ α ε) (t : Tap σ) : Prop
  /-- It is called. -/
  | serve {c : Call α ε} {input : Tap.Input α ε} (hfocus : S.focus = .call c)
    (hinput : c.input? = some (line, place, input))
    (hturned : Turned P S S.stack line place (S.served p t line place input) U)
    (hdeeds : deeds line place events = .received input :: (S.served p t line place input).deeds)
  /-- It goes on. -/
  | resume {b : Bool} {guard : Guard} {r : Tap.Resume α ε} {rest : List (Frame α ε)}
    (hfocus : S.focus = .back b) (hstack : S.stack = .tap line place guard r :: rest)
    (hturned : Turned P S rest line place (t.resume (p.listener S.ambient) r b) U)
    (hdeeds : deeds line place events = (t.resume (p.listener S.ambient) r b).deeds)

/-- What can be seen of a tap that is there is what it does in a turn. -/
theorem step_acts (hassembled : S.Assembled P) (hstep : Stepped P S U events)
    (hplan : P.taps[place]? = some p) (htap : S.tap? line place = some t)
    (hseen : deeds line place events ≠ []) : Acts P S U events line place p t := by
  have hquiet : Quiet events → Acts P S U events line place p t :=
    fun hquiet => absurd (hquiet.deeds line place) hseen
  cases hstep with
  | @serve c l q input p' t' hfocus hinput hplan' htap' hturned hshows =>
      by_cases hhere : line = l ∧ place = q
      · obtain ⟨rfl, rfl⟩ := hhere
        rw [hplan] at hplan'
        rw [htap] at htap'
        cases hplan'
        cases htap'
        exact .serve hfocus hinput hturned hshows.here
      · exact absurd (hshows.elsewhere line place hhere) hseen
  | @resume b l q guard r rest p' t' hfocus hstack hplan' htap' hturned hshows =>
      by_cases hhere : line = l ∧ place = q
      · obtain ⟨rfl, rfl⟩ := hhere
        rw [hplan] at hplan'
        rw [htap] at htap'
        cases hplan'
        cases htap'
        exact .resume hfocus hstack hturned hshows.here
      · exact absurd (hshows.elsewhere line place hhere) hseen
  | @setUp l q context p' listener augmented guard hfocus hplan' hlines hstack hnext hshows =>
      by_cases hhere : line = l ∧ place = q
      · obtain ⟨rfl, rfl⟩ := hhere
        rw [(hassembled.joining _ _ _ hfocus).before place (Nat.lt_succ_self place)] at htap
        cases htap
      · exact absurd (hshows.elsewhere line place hhere) hseen
  | @refuse l q context p' f shown hfocus hplan' hlines hstack hnext hfails hshows =>
      by_cases hhere : line = l ∧ place = q
      · obtain ⟨rfl, rfl⟩ := hhere
        rw [(hassembled.joining _ _ _ hfocus).before place (Nat.lt_succ_self place)] at htap
        cases htap
      · exact absurd (hshows.elsewhere line place hhere) hseen
  | hear hfocus hlines hstack hnext hevents =>
      rw [hevents] at hseen
      exact absurd rfl hseen
  | explain hfocus hstack hlines hrest hnext hq => exact hquiet hq
  | callOut hfocus hcall hlines hstack hnext hq => exact hquiet hq
  | endStream hfocus hlines hstack hnext hq => exact hquiet hq
  | ended hfocus hstack hlines hrest hnext hs hq => exact hquiet hq
  | startEmission hfocus hlines hstack hnext hq => exact hquiet hq
  | emit hemitting hlines hframe hstack hnext hs hq => exact hquiet hq
  | loop hemitting hlines hstack hnext hq => exact hquiet hq
  | idle hfocus hcall hclient hlines hstack hnext hq => exact hquiet hq
  | pop hfocus hstack hframe hlines hrest hnext hq => exact hquiet hq
  | handOver hfocus hstack hlines hsame hnext hq => exact hquiet hq

/-- A tap of which nothing can be seen rests. -/
theorem step_rests (hassembled : S.Assembled P) (hstep : Stepped P S U events)
    (htap : S.tap? line place = some t) (hunseen : deeds line place events = []) :
    U.tap? line place = some t ∧ U.pending line place = S.pending line place := by
  rcases step_progress hassembled hstep line place with
    ⟨hsame, hpending, -⟩ | ⟨-, -, -, hturn⟩ | ⟨hfocus, -, -, -, -⟩ | ⟨-, hsame, hpending, -, -⟩
  · exact ⟨hsame.trans htap, hpending⟩
  · have hlife := hturn .any [] fun _ _ => trivial
    exact absurd hunseen (by simpa using hlife.deeds_ne)
  · rw [(hassembled.joining _ _ _ hfocus).before place (Nat.lt_succ_self place)] at htap
    cases htap
  · exact ⟨hsame.trans htap, hpending⟩

/-- A tap that is there is served when it is called. -/
theorem step_serves (hstep : S.step? P = some (U, events)) {c : Call α ε} {input : Tap.Input α ε}
    (hplan : P.taps[place]? = some p) (htap : S.tap? line place = some t)
    (hfocus : S.focus = .call c) (hinput : c.input? = some (line, place, input)) :
    Turned P S S.stack line place (S.served p t line place input) U ∧
      Shows line place (.received input :: (S.served p t line place input).deeds) events := by
  obtain ⟨V, shown, hthen, hshows, hturned⟩ := step?_serve hfocus hinput hplan htap
  cases hthen.symm.trans hstep
  exact ⟨hturned, hshows⟩

/-- A tap that is there goes on when a call that it has made returns. -/
theorem step_resumes (hstep : S.step? P = some (U, events)) {b : Bool} {guard : Guard}
    {r : Tap.Resume α ε} {rest : List (Frame α ε)} (hplan : P.taps[place]? = some p)
    (htap : S.tap? line place = some t) (hfocus : S.focus = .back b)
    (hstack : S.stack = .tap line place guard r :: rest) :
    Turned P S rest line place (t.resume (p.listener S.ambient) r b) U ∧
      Shows line place (t.resume (p.listener S.ambient) r b).deeds events := by
  obtain ⟨V, shown, hthen, hshows, hturned⟩ := step?_resume hfocus hstack hplan htap
  cases hthen.symm.trans hstep
  exact ⟨hturned, hshows⟩

/-! ## Giving up the source -/

/-- The taps of a line before a position have not given up their sources. -/
def UnharmedBelow (S : State σ α ε) (events : List (Event α ε))
    (line position : Nat) : Prop :=
  ∀ place t, place < position → S.tap? line place = some t →
    Tap.Life.Unharmed place ⟨t, S.pending line place, deeds line place events⟩

/-- All taps of a line could be set up, as far as that has been tried. -/
def Whole (P : Plan σ α ε) (events : List (Event α ε)) (line : Nat) : Prop :=
  ∀ place f, place < P.depth → .notSetUp f ∉ deeds line place events

/-- No hook for a cancellation has failed on a line. -/
def CancelsSafely (events : List (Event α ε)) (line : Nat) : Prop :=
  ∀ place cause, .acted (.ran .cancel (some cause)) ∉ deeds line place events

/-- The tap at a place is about to cancel its source. -/
def GivesUpAt (S : State σ α ε) (events : List (Event α ε)) (line place : Nat) : Prop :=
  ∃ h rest, S.focus = .call (.control line place h .cancel) ∧
    Tap.heard (deeds line place events) = .subscribe h :: rest

theorem cancels_of_deeds {turn : Tap.Turn σ α ε} (first : List (Tap.Deed α ε))
    (hsafely : CancelsSafely events line) (hdeeds : deeds line place events = first ++ turn.deeds) :
    turn.Cancels := by
  intro cause hact
  refine hsafely place cause ?_
  rw [hdeeds, Tap.Turn.deeds]
  refine List.mem_append_right _ (List.mem_append_left _ (List.mem_map_of_mem hact))

/-- The tap at a place has not given up its source, or it is about to. -/
def Decides (S : State σ α ε) (events : List (Event α ε)) (line place : Nat) : Prop :=
  (∃ t, S.tap? line place = some t ∧
    Tap.Life.Unharmed place ⟨t, S.pending line place, deeds line place events⟩) ∨
    S.GivesUpAt events line place

theorem Turned.decides {rest : List (Frame α ε)} {turn : Tap.Turn σ α ε}
    (h : Turned P S rest line place turn U) (hplace : S.HasPlace line place) {l : Tap.Life σ α ε}
    (hpending : l.pending = rest.filterMap (Frame.resume? line place))
    (hdeeds : deeds line place events = l.deeds ++ turn.deeds)
    (hl : (l.take turn).Unharmed place ∨ l.GivesUp turn) : U.Decides events line place := by
  rcases hl with hl | ⟨handle, r, later, hnext, hheard⟩
  · refine .inl ⟨turn.tap, (tap?_eq h.lines line place).trans (setTap_tap?_self hplace _), ?_⟩
    rw [turned_pending h, ← hpending, hdeeds]
    exact hl
  · have hfocus := h.next
    rw [hnext] at hfocus
    refine .inr ⟨handle, later, hfocus.2, ?_⟩
    rw [hdeeds, Tap.heard_append, Tap.heard_turn_deeds, List.append_nil]
    exact hheard

/-- A turn of a tap that has not given up its source. -/
theorem Acts.decides (h : Acts P S U events line place p t) (htap : S.tap? line place = some t)
    (hl : Tap.Life.Unharmed place ⟨t, S.pending line place, deeds line place before⟩)
    (hfirst : ∀ input, S.Calls line place input → t.source = none → input.isSubscribe = true)
    (hsafely : CancelsSafely events line) : U.Decides (before ++ events) line place := by
  have hplace : S.HasPlace line place := hasPlace_of_tap? (by simp [htap])
  cases h with
  | @serve c input hfocus hinput hturned hdeeds =>
      have hserved := hl.serve (p.listener _) (S.isConditional line)
        (hfirst input ⟨c, hfocus, hinput⟩) (cancels_of_deeds [.received input] hsafely hdeeds)
      refine Turned.decides hturned hplace rfl ?_ hserved
      rw [deeds_append, hdeeds, List.append_assoc]
      rfl
  | @resume b guard r rest hfocus hstack hturned hdeeds =>
      have hpending : S.pending line place = r :: rest.filterMap (Frame.resume? line place) := by
        rw [pending, hstack, List.filterMap_cons_some (b := r) (by simp [Frame.resume?])]
      rw [hpending] at hl
      refine Turned.decides hturned hplace rfl ?_ (hl.resume (p.listener _) b)
      rw [deeds_append, hdeeds]

/-- What a tap that is there gives its receiver begins with itself as a handle, if it has not given
up its source. -/
theorem Civil.given_begins (h : S.Civil P events) (hwhole : Whole P events line)
    (hplace : place < P.depth) (hunharmed : ∀ t, S.tap? line place = some t →
      Tap.Life.Unharmed place ⟨t, S.pending line place, deeds line place events⟩)
    (hgiven : Tap.given (deeds line place events) ≠ []) :
    (∃ rest, Tap.given (deeds line place events) = .subscribe (.tap place) :: rest) ∧
      ∃ t h, S.tap? line place = some t ∧
        Tap.Life.Running place h ⟨t, S.pending line place, deeds line place events⟩ := by
  rcases h.peopled.fate line place with ⟨-, -, hdeeds⟩ | @⟨f, shown, -, -, -, hfails, hdeeds⟩ |
    ⟨hplan, htap, hlived⟩
  · rw [hdeeds] at hgiven
    exact absurd rfl hgiven
  · exact absurd (by simp [hdeeds]) (hwhole place f hplace)
  · have hsent := hlived.given_eq
    dsimp only at hsent
    rcases hunharmed _ htap with hl | ⟨handle, hl⟩
    · rw [hsent] at hgiven
      exact absurd hl.sent hgiven
    · rw [hsent]
      exact ⟨hl.sent, _, handle, htap, hl⟩

/-- The handle that a tap has got first from the tap before it. -/
theorem Civil.first_handle (h : S.Civil P events) (hwhole : Whole P events line)
    (hplace : place + 1 < P.depth) (hunharmed : ∀ t, S.tap? line place = some t →
      Tap.Life.Unharmed place ⟨t, S.pending line place, deeds line place events⟩)
    {handle : Handle} {rest : List (Signal α ε)}
    (hheard : Tap.heard (deeds line (place + 1) events) = .subscribe handle :: rest) :
    handle = .tap place ∧ ∃ t h, S.tap? line place = some t ∧
      Tap.Life.Running place h ⟨t, S.pending line place, deeds line place events⟩ := by
  have hmail : Tap.heard (deeds line (place + 1) events) <+:
      (Tap.given (deeds line place events)).map (·.mapError P.adapt) :=
    h.delivers.heard_given hplace
  obtain ⟨later, hlater⟩ := hmail
  rw [hheard] at hlater
  have hgiven : Tap.given (deeds line place events) ≠ [] := by
    intro hnil
    simp [hnil] at hlater
  obtain ⟨⟨others, hothers⟩, hrunning⟩ :=
    h.given_begins hwhole (Nat.lt_of_succ_lt hplace) hunharmed hgiven
  rw [hothers] at hlater
  simp only [List.cons_append, List.map_cons, Signal.mapError, List.cons.injEq,
    Signal.subscribe.injEq] at hlater
  exact ⟨hlater.1, hrunning⟩

/-- A tap is called first with a handle. -/
theorem Civil.first_call (h : S.Civil P events) (hwhole : Whole P events line)
    (hunharmed : S.UnharmedBelow events line P.depth) (htap : S.tap? line place = some t)
    (hsource : t.source = none) {input : Tap.Input α ε} (hcalls : S.Calls line place input) :
    input.isSubscribe = true := by
  obtain ⟨hheard, hinput⟩ := (h.mannerly line place t input htap hcalls).opening hsource
  rcases hinput with hinput | ⟨hpositive, hinput⟩
  · exact hinput
  · -- The tap before has not sent anything but a handle first.
    exfalso
    obtain ⟨k, rfl⟩ : ∃ k, place = k + 1 := ⟨place - 1, by omega⟩
    obtain ⟨p, hplan⟩ := h.assembled.planned (S := S) (by rw [htap]; rfl)
    have hinside : k + 1 < P.depth := (List.getElem?_eq_some_iff.mp hplan).1
    obtain ⟨c, hfocus, hcalled⟩ := hcalls
    obtain ⟨e, rfl⟩ : ∃ e, input = .signal (.error e) := by
      rcases input with (_ | _ | _ | e | _) | _
      case signal.error => exact ⟨e, rfl⟩
      all_goals cases hinput
    obtain rfl : c = .tap line (k + 1) (.error e) := by
      cases c with
      | tap l q s =>
          cases hcalled
          rfl
      | control l q handle ctl =>
          cases handle with
          | tap j => cases hcalled
          | _ => cases hcalled
      | _ => cases hcalled
    obtain ⟨later, hlater⟩ := h.delivers.heard_concat hinside hfocus
    have hgiven : Tap.given (deeds line k events) ≠ [] := by
      intro hnil
      simp [hnil] at hlater
    obtain ⟨⟨others, hothers⟩, -⟩ := h.given_begins hwhole (Nat.lt_of_succ_lt hinside)
      (fun u => hunharmed k u (Nat.lt_of_succ_lt hinside)) hgiven
    dsimp only at hheard
    rw [hheard, hothers] at hlater
    simp [Signal.mapError] at hlater

/-- After a step every tap of a line still has its source, or gives it up. -/
theorem Civil.decides (h : S.Civil P before) (hwhole : Whole P before line)
    (hunharmed : S.UnharmedBelow before line P.depth) (hsafely : CancelsSafely events line)
    (hstep : Stepped P S U events) {u : Tap σ} (hu : U.tap? line place = some u)
    (hplace : place < P.depth) : U.Decides (before ++ events) line place := by
  cases htap : S.tap? line place with
  | some t =>
      have hl := hunharmed place t hplace htap
      by_cases hseen : deeds line place events = []
      · obtain ⟨hsame, hpending⟩ := step_rests h.assembled hstep htap hseen
        refine .inl ⟨t, hsame, ?_⟩
        rwa [hpending, deeds_append, hseen, List.append_nil]
      · obtain ⟨p, hplan⟩ := h.assembled.planned (S := S) (by rw [htap]; rfl)
        exact (step_acts h.assembled hstep hplan htap hseen).decides htap hl
          (fun input hcalls hsource => h.first_call hwhole hunharmed htap hsource hcalls) hsafely
  | none =>
      rcases step_progress h.assembled hstep line place with
        ⟨hsame, -, -⟩ | ⟨-, hthen, -, -⟩ | ⟨hfocus, -, hnow, hpending, hdeeds⟩ | ⟨-, hsame, -, -, -⟩
      · simp [hsame, htap] at hu
      · simp [htap] at hthen
      · obtain ⟨-, hidle, hempty⟩ := h.peopled.vacant h.assembled hfocus
        refine .inl ⟨_, hnow, Tap.Life.Newborn.unharmed ⟨⟨_, _, rfl⟩, ?_, .inr ?_⟩⟩
        · exact hpending.trans hidle
        · dsimp only
          rw [deeds_append, hempty, hdeeds, List.nil_append]
      · simp [hsame, htap] at hu

/-- A cancellation is on its way to the source, and those before it still have their sources. -/
inductive Climbing (S : State σ α ε) (events : List (Event α ε)) (line : Nat) : Prop
  /-- It has come to the source. -/
  | source {h : Handle} {rest : List (Signal α ε)}
    (hfocus : S.focus = .call (.control line 0 h .cancel))
    (hheard : Tap.heard (deeds line 0 events) = .subscribe h :: rest)
  /-- It has come to a tap. -/
  | tap {place : Nat} {t : Tap σ} {h : Handle}
    (hfocus : S.focus = .call (.control line (place + 1) (.tap place) .cancel))
    (htap : S.tap? line place = some t)
    (hrunning : Tap.Life.Running place h
      ⟨t, S.pending line place, deeds line place events⟩)
    (hbelow : S.UnharmedBelow events line place)

/-- The tap that gives up its source first sets off a climb. -/
theorem GivesUpAt.climbing (h : S.GivesUpAt events line place) (hcivil : S.Civil P events)
    (hwhole : Whole P events line) (hplace : place < P.depth)
    (hbelow : S.UnharmedBelow events line place) : S.Climbing events line := by
  obtain ⟨handle, rest, hfocus, hheard⟩ := h
  cases place with
  | zero => exact .source hfocus hheard
  | succ place =>
      obtain ⟨rfl, t, first, htap, hrunning⟩ := hcivil.first_handle hwhole hplace
        (fun t => hbelow place t (Nat.lt_succ_self place)) hheard
      exact .tap hfocus htap hrunning
        fun q u hq => hbelow q u (Nat.lt_succ_of_lt hq)

/-- After a step all taps of a line still have their sources, or a cancellation climbs. -/
theorem Civil.climbs (h : S.Civil P before) (hwhole : Whole P (before ++ events) line)
    (hunharmed : S.UnharmedBelow before line P.depth) (hsafely : CancelsSafely events line)
    (hstep : Stepped P S U events) :
    U.UnharmedBelow (before ++ events) line P.depth ∨ U.Climbing (before ++ events) line := by
  have hthen : Whole P before line := fun q f hq hmem =>
    hwhole q f hq (by rw [deeds_append]; exact List.mem_append_left _ hmem)
  by_cases hgives : ∃ place < P.depth, U.GivesUpAt (before ++ events) line place
  · obtain ⟨place, hplace, hgives⟩ := hgives
    right
    refine hgives.climbing (h.step hstep) hwhole hplace fun q u hq hu => ?_
    rcases h.decides hthen hunharmed hsafely hstep hu (Nat.lt_trans hq hplace) with
      ⟨u', hu', hl⟩ | ⟨handle', rest', hfocus', -⟩
    · rw [hu, Option.some.injEq] at hu'
      rwa [hu']
    · -- Two taps do not give up their sources in one step.
      obtain ⟨handle, rest, hfocus, -⟩ := hgives
      rw [hfocus] at hfocus'
      cases hfocus'
      exact absurd hq (Nat.lt_irrefl _)
  · left
    intro q u hq hu
    rcases h.decides hthen hunharmed hsafely hstep hu hq with ⟨u', hu', hl⟩ | hgiving
    · rw [hu, Option.some.injEq] at hu'
      rwa [hu']
    · exact absurd ⟨q, hq, hgiving⟩ hgives

/-- A cancellation that climbs comes to the next tap before, or the source is told. -/
theorem Climbing.step (h : S.Climbing before line) (hcivil : S.Civil P before)
    (hwhole : Whole P (before ++ events) line) (hsafely : CancelsSafely events line)
    (hstep : S.step? P = some (U, events)) :
    U.Climbing (before ++ events) line ∨ ∃ h rest,
      S.focus = .call (.control line 0 h .cancel) ∧
        Tap.heard (deeds line 0 before) = .subscribe h :: rest := by
  have hstepped := step?_stepped hstep
  cases h with
  | source hfocus hheard => exact .inr ⟨_, _, hfocus, hheard⟩
  | @tap place t handle hfocus htap hrunning hbelow =>
      left
      obtain ⟨p, hplan⟩ := hcivil.assembled.planned (S := S) (by rw [htap]; rfl)
      obtain ⟨hturned, hshows⟩ := step_serves hstep hplan htap hfocus rfl
      have hnext :
          (S.served p t line place (.control .cancel)).next = .up handle .cancel .released :=
        (Tap.onCancel_next (p.listener _) hrunning.source
          (cancels_of_deeds [.received (.control .cancel)] hsafely hshows.here)).1
      have hfocusU := hturned.next
      rw [hnext] at hfocusU
      have hgives : U.GivesUpAt (before ++ events) line place := by
        obtain ⟨rest, hrest⟩ := hrunning.heard
        dsimp only at hrest
        refine ⟨handle, rest, hfocusU.2, ?_⟩
        rw [deeds_append, hshows.here]
        simp [hrest, Tap.Deed.heard?]
      have hplace : place < P.depth := (List.getElem?_eq_some_iff.mp hplan).1
      refine hgives.climbing (hcivil.step hstepped) hwhole hplace fun q u hq hu => ?_
      -- The taps before rest.
      have hunseen : deeds line q events = [] := by
        refine hshows.elsewhere line q ?_
        rintro ⟨-, rfl⟩
        exact Nat.lt_irrefl _ hq
      cases hthen : S.tap? line q with
      | none =>
          rw [tap?_eq hturned.lines, setTap_tap?_other fun h => Nat.ne_of_lt hq h.2, hthen] at hu
          cases hu
      | some v =>
          obtain ⟨hsame, hpending⟩ := step_rests hcivil.assembled hstepped hthen hunseen
          rw [hu, Option.some.injEq] at hsame
          subst hsame
          rw [hpending, deeds_append, hunseen, List.append_nil]
          exact hbelow q u hq hthen

end State

end Wiretap

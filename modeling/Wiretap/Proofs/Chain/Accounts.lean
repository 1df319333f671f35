import Wiretap.Proofs.Machine.Courtesy
import Wiretap.Proofs.Machine.Follow
import Wiretap.Scenario.Kinds

/-!
# The faults of a run

On a single tap every fault of a listener is told to the listener once and then leaves once, to the
client or to the hook for dropped errors. What goes through the ledger of each line is counted here
over a whole run, where a fault stands beside the line on which it arose.
-/

namespace Wiretap

section

variable {K : Kinds} {σ α ε : Type}

/-- The faults that the deeds of the taps show, with their lines. -/
def tally (pick : Tap.Deed α ε → Option Fault) (events : List (Event α ε)) : List (Nat × Fault) :=
  events.filterMap fun e => e.shown?.bind fun shown => (pick shown.2.2).map (shown.1, ·)

/-- The fault in an error that a client hears, with its line. -/
def Event.carried? : Event α ε → Option (Nat × Fault)
  | .called (.client line s) _ => s.fault?.map (line, ·)
  | _ => none

/-- The faults that clients hear, with their lines. -/
def carried (events : List (Event α ε)) : List (Nat × Fault) := events.filterMap Event.carried?

/-- Is it the fault of a listener that could not be created? -/
def isCreation (entry : Nat × Fault) : Bool := entry.2.origin = .creation

/-- At a moment of a run, only faults that arose have been told to their listeners, and only faults
that were told, or that there was nobody to tell of, have left. -/
structure Covered (events : List (Event α ε)) : Prop where
  reported : (tally Tap.Deed.report? events).Subperm (tally Tap.Deed.failure? events)
  left : (carried events ++ tally Tap.Deed.dropped? events).Subperm
    (tally Tap.Deed.report? events ++ tally Tap.Deed.uncreated? events)

/-- At the end of a run, every fault of a hook was told to its listener once and has left once, to
the client or dropped, and a listener that could not be created shows in one error of the client. -/
structure Settled (events : List (Event α ε)) : Prop where
  reported : (tally Tap.Deed.report? events).Perm (tally Tap.Deed.failure? events)
  left : ((carried events).filter (fun entry => !isCreation entry) ++
    tally Tap.Deed.dropped? events).Perm (tally Tap.Deed.failure? events)
  uncreated : ((carried events).filter isCreation).Perm (tally Tap.Deed.uncreated? events)

section

variable {pick : Tap.Deed α ε → Option Fault} {line : Nat}

/-- Where everything happens at the first place, a fault counts as often on its line as in all. -/
theorem count_tally {events : List (Event α ε)}
    (hplaces : ∀ l p, 0 < p → deeds l p events = []) (line : Nat) (f : Fault) :
    (tally pick events).count (line, f) = ((deeds line 0 events).filterMap pick).count f := by
  induction events with
  | nil => rfl
  | cons e events ih =>
      have hsplit : ∀ l p, 0 < p → e.deed? l p = none ∧ deeds l p events = [] := by
        intro l p hp
        simpa using hplaces l p hp
      rw [tally, Tap.filterMap_cons_toList, ← tally, List.count_append,
        ih fun l p hp => (hsplit l p hp).2, deeds_cons, List.filterMap_append, List.count_append]
      congr 1
      -- An event shows one deed at most, and that is of the first place.
      cases hshown : e.shown? with
      | none => simp [Event.deed?_of_not_shown hshown]
      | some shown =>
          obtain ⟨l, p, d⟩ := shown
          have hzero : p = 0 := by
            by_contra hp
            have hnone := (hsplit l p (Nat.pos_of_ne_zero hp)).1
            simp [Event.deed?_of_shown hshown] at hnone
          subst hzero
          rw [Event.deed?_of_shown hshown]
          by_cases hline : l = line
          · subst hline
            cases hpick : pick d <;> simp [hpick, List.count_singleton]
          · cases hpick : pick d <;> simp [hline, hpick]

theorem count_carried (events : List (Event α ε)) (line : Nat) (f : Fault) :
    (carried events).count (line, f) = ((heardBy line events).filterMap Signal.fault?).count f := by
  induction events with
  | nil => rfl
  | cons e events ih =>
      rw [carried, Tap.filterMap_cons_toList, ← carried, List.count_append, ih, heardBy_cons,
        List.filterMap_append, List.count_append]
      congr 1
      rcases e with _ | _ | _ | _ | _ | _ | _ | _ | _ | _ | _ | _ | ⟨⟨l, s⟩ | _ | _, ambient⟩
      case called.client =>
        by_cases hline : l = line
        · subst hline
          cases hs : s.fault? <;> simp [Event.carried?, Event.heard?, hs, List.count_singleton]
        · cases hs : s.fault? <;> simp [Event.carried?, Event.heard?, hline, hs]
      all_goals rfl

end

namespace State

variable {P : Plan σ α ε} {S U : State σ α ε} {events before : List (Event α ε)}

/-- Nothing happens at places that the plan does not have. -/
theorem step_places (hstep : Stepped P S U events) (line : Nat) {place : Nat}
    (hplace : P.depth ≤ place) : deeds line place events = [] := by
  have hother : ∀ {p : TapPlan σ α ε} {l q : Nat}, P.taps[q]? = some p →
      ¬(line = l ∧ place = q) := by
    rintro p l q hplan ⟨-, rfl⟩
    have hlt := (List.getElem?_eq_some_iff.mp hplan).1
    exact absurd hlt (Nat.not_lt.mpr hplace)
  cases hstep with
  | serve hfocus hinput hplan htap hturned hshows => exact hshows.elsewhere _ _ (hother hplan)
  | resume hfocus hstack hplan htap hturned hshows => exact hshows.elsewhere _ _ (hother hplan)
  | setUp hfocus hplan hlines hstack hnext hshows => exact hshows.elsewhere _ _ (hother hplan)
  | refuse hfocus hplan hlines hstack hnext hfails hshows =>
      exact hshows.elsewhere _ _ (hother hplan)
  | hear hfocus hlines hstack hnext hevents =>
      rw [hevents]
      rfl
  | explain hfocus hstack hlines hrest hnext hquiet => exact hquiet.deeds line place
  | callOut hfocus hcall hlines hstack hnext hquiet => exact hquiet.deeds line place
  | endStream hfocus hlines hstack hnext hquiet => exact hquiet.deeds line place
  | ended hfocus hstack hlines hrest hnext hs hquiet => exact hquiet.deeds line place
  | startEmission hfocus hlines hstack hnext hquiet => exact hquiet.deeds line place
  | emit hemitting hlines hframe hstack hnext hs hquiet => exact hquiet.deeds line place
  | loop hemitting hlines hstack hnext hquiet => exact hquiet.deeds line place
  | idle hfocus hcall hclient hlines hstack hnext hquiet => exact hquiet.deeds line place
  | pop hfocus hstack hframe hlines hrest hnext hquiet => exact hquiet.deeds line place
  | handOver hfocus hstack hlines hsame hnext hquiet => exact hquiet.deeds line place

end State

theorem Tap.SetUpFails.ledger {f : Fault} {shown : List (Tap.Deed α ε)}
    (h : Tap.SetUpFails f shown) :
    Tap.Ledger.empty.run (shown ++ [.notSetUp f]) = some .empty := by
  cases h <;>
    simp [Tap.Ledger.empty, Tap.Ledger.post, Tap.Ledger.report, Tap.Ledger.settle, Hook.fault]

namespace State.Peopled

variable {P : Plan σ α ε} {S : State σ α ε} {events : List (Event α ε)}

/-- What has been seen of the first tap of a line goes through the ledger, and only the calls that
are under way leave anything open. -/
theorem ledger (h : S.Peopled P (Tap.Life.courtesy σ α ε) events) (line : Nat) :
    Tap.Ledger.empty.run (deeds line 0 events) = some
      ⟨Tap.Life.unreported (S.pending line 0), Tap.Life.unsettled (S.pending line 0)⟩ := by
  rcases h.fate line 0 with ⟨-, hpending, hdeeds⟩ | ⟨-, -, hpending, hfails, hdeeds⟩ |
    ⟨-, -, hlived⟩
  · rw [hdeeds, hpending]
    rfl
  · rw [hdeeds, hpending, hfails.ledger]
    rfl
  · exact Tap.Life.Lived.ledger hlived

/-- Where a listener could not be created no hook runs, and nothing is dropped. -/
theorem uncreated_or (h : S.Peopled P (Tap.Life.courtesy σ α ε) events) (line place : Nat) :
    Tap.uncreated (deeds line place events) = [] ∨
      Tap.failures (deeds line place events) = [] ∧ Tap.drops (deeds line place events) = [] := by
  rcases h.fate line place with ⟨-, -, hdeeds⟩ | ⟨-, -, -, hfails, hdeeds⟩ | ⟨-, -, hlived⟩
  · rw [hdeeds]
    exact .inl rfl
  · rw [hdeeds]
    cases hfails with
    | uncreated cause => exact .inr ⟨rfl, rfl⟩
    | first cause => exact .inl rfl
    | augmentation cause => exact .inl rfl
  · exact .inl hlived.uncreated

end State.Peopled

namespace Play

variable {P : Plan σ α ε} {S U : State σ α ε} {history : List (Entry α ε)} {ambient : Context}

/-- At any moment, even within a step, the clients have heard no more than they have been given. -/
theorem heardBy_given (hplay : Play P (.start P ambient) history U) {place : Nat}
    (hplace : place + 1 = P.depth) {first : List (Event α ε)} (hfirst : first <+: happened history)
    (line : Nat) : heardBy line first <+: Tap.given (deeds line place first) := by
  induction hplay generalizing first with
  | refl =>
      rw [List.prefix_nil.mp hfirst]
      exact List.nil_prefix
  | @step history T V events hplay hstep ih =>
      rw [happened_append, happened_map_event] at hfirst
      rcases List.prefix_or_prefix_of_prefix hfirst (List.prefix_append _ _) with hearly | hlate
      · exact ih hearly
      · obtain ⟨part, rfl⟩ := hlate
        have hpart : part <+: events := (List.prefix_append_right_inj _).mp hfirst
        have hstepped := State.step?_stepped hstep
        have hbefore := (State.Civil.start ambient).play hplay
        have hafter := hbefore.step hstepped
        rw [List.nil_append] at hbefore hafter
        have hwhole : heardBy line (happened history ++ events) <+: _ :=
          hafter.delivers.heardBy_given hplace
        have hold : heardBy line (happened history) <+: _ :=
          hbefore.delivers.heardBy_given hplace
        have hgrown : Tap.given (deeds line place (happened history)) <+:
            Tap.given (deeds line place (happened history ++ part)) := by
          rw [deeds_append, Tap.given_append]
          exact List.prefix_append _ _
        rcases State.step_client hstepped with hnone | ⟨l, s, -, -, rfl⟩
        · -- Clients hear nothing in this step, so what was heard stays covered all along.
          have hquiet : heardBy line part = [] := by
            have hsub := hpart.filterMap (Event.heard? line)
            rw [← heardBy, ← heardBy, (hnone line).1] at hsub
            exact List.prefix_nil.mp hsub
          rw [heardBy_append, hquiet, List.append_nil]
          exact hold.trans hgrown
        · -- A step in which a client hears something consists of that event only.
          rcases part with _ | ⟨e', rest⟩
          · rw [List.append_nil]
            exact hold
          · obtain ⟨rfl, hrest⟩ := List.cons_prefix_cons.mp hpart
            rw [List.prefix_nil.mp hrest]
            exact hwhole
  | move hplay hallows hmove ih =>
      rw [happened_append, happened_move, List.append_nil] at hfirst
      exact ih hfirst

theorem places (hplay : Play P (.start P ambient) history U) (line : Nat) {place : Nat}
    (hplace : P.depth ≤ place) : deeds line place (happened history) = [] := by
  induction hplay with
  | refl => rfl
  | step _ hstep ih =>
      rw [happened_append, happened_map_event, deeds_append, ih,
        State.step_places (State.step?_stepped hstep) line hplace]
      rfl
  | move _ _ _ ih =>
      rw [happened_append, happened_move, List.append_nil]
      exact ih

theorem covered {p : TapPlan σ α ε} (hplan : P.taps = [p])
    (hplay : Play P (.start P ambient) history U) {first : List (Event α ε)}
    (hfirst : first <+: happened history) : Covered first := by
  have hdepth : P.depth = 1 := by rw [Plan.depth, hplan]; rfl
  have hcivil := (State.Civil.start ambient).play hplay
  rw [List.nil_append] at hcivil
  have hplaces : ∀ l q, 0 < q → deeds l q first = [] := by
    intro l q hq
    have hpart := hfirst.filterMap (Event.deed? l q)
    rw [← deeds, ← deeds, hplay.places l (by omega)] at hpart
    exact List.prefix_nil.mp hpart
  have hcounts : ∀ l f, (Tap.reports (deeds l 0 first)).count f ≤
        (Tap.failures (deeds l 0 first)).count f ∧
      (Tap.surfaced (deeds l 0 first)).count f + (Tap.drops (deeds l 0 first)).count f ≤
        (Tap.reports (deeds l 0 first)).count f + (Tap.uncreated (deeds l 0 first)).count f := by
    intro l f
    obtain ⟨k, hrun⟩ := Tap.Ledger.run_of_isPrefix (hcivil.peopled.ledger l)
      (hfirst.filterMap (Event.deed? l 0))
    obtain ⟨hreported, hleft⟩ := Tap.Ledger.run_perm hrun
    have hreported := List.perm_iff_count.mp hreported f
    have hleft := List.perm_iff_count.mp hleft f
    simp only [Tap.Ledger.empty, List.count_append, List.count_nil, Nat.add_zero] at hreported hleft
    exact ⟨Nat.le.intro hreported.symm, Nat.le.intro hleft.symm⟩
  constructor
  · rw [List.subperm_ext_iff]
    rintro ⟨l, f⟩ -
    rw [count_tally hplaces, count_tally hplaces]
    exact (hcounts l f).1
  · rw [List.subperm_ext_iff]
    rintro ⟨l, f⟩ -
    rw [List.count_append, List.count_append, count_tally hplaces, count_tally hplaces,
      count_tally hplaces, count_carried]
    have hheard : ((heardBy l first).filterMap Signal.fault?).count f ≤
        (Tap.surfaced (deeds l 0 first)).count f := by
      rw [Tap.surfaced_eq]
      apply List.Sublist.count_le
      exact ((hplay.heardBy_given (by omega) hfirst l).filterMap Signal.fault?).sublist
    exact Nat.le_trans (Nat.add_le_add_right hheard _) (hcounts l f).2

theorem settled {p : TapPlan σ α ε} (hplan : P.taps = [p])
    (hplay : Play P (.start P ambient) history U) (hidle : U.isIdle = true) :
    Settled (happened history) := by
  have hdepth : P.depth = 1 := by rw [Plan.depth, hplan]; rfl
  obtain ⟨hstack, b, hfocus⟩ := State.isIdle_iff.mp hidle
  have hcivil := (State.Civil.start ambient).play hplay
  rw [List.nil_append] at hcivil
  have hplaces : ∀ l q, 0 < q → deeds l q (happened history) = [] :=
    fun l q hq => hplay.places l (by omega)
  have hheard : ∀ l f, (carried (happened history)).count (l, f) =
      (Tap.surfaced (deeds l 0 (happened history))).count f := by
    intro l f
    have hall : heardBy l (happened history) = Tap.given (deeds l 0 (happened history)) :=
      hcivil.delivers.heardBy_eq hstack hfocus (by omega)
    rw [count_carried, hall, Tap.surfaced_eq]
  have hcounts : ∀ l f, (Tap.reports (deeds l 0 (happened history))).count f =
        (Tap.failures (deeds l 0 (happened history))).count f ∧
      (Tap.surfaced (deeds l 0 (happened history))).count f +
          (Tap.drops (deeds l 0 (happened history))).count f =
        (Tap.failures (deeds l 0 (happened history))).count f +
          (Tap.uncreated (deeds l 0 (happened history))).count f := by
    intro l f
    have hrun := hcivil.peopled.ledger l
    have hpending : U.pending l 0 = [] := by simp [State.pending, hstack]
    rw [hpending] at hrun
    obtain ⟨hreported, hleft⟩ := Tap.Ledger.run_perm hrun
    have hreported := List.perm_iff_count.mp hreported f
    have hleft := List.perm_iff_count.mp hleft f
    simp only [Tap.Ledger.empty, Tap.Life.unreported, Tap.Life.unsettled, List.filterMap_nil,
      List.count_append, List.count_nil, Nat.add_zero] at hreported hleft
    omega
  -- A fault of creation is none of a hook, and the other way round.
  have hhooks : ∀ l f, f.origin = .creation →
      (Tap.failures (deeds l 0 (happened history))).count f = 0 ∧
        (Tap.drops (deeds l 0 (happened history))).count f = 0 := by
    intro l f hf
    have hnone : (Tap.failures (deeds l 0 (happened history))).count f = 0 := by
      apply List.count_eq_zero_of_not_mem
      intro hmem
      obtain ⟨d, -, hd⟩ := List.mem_filterMap.mp hmem
      exact Tap.failure?_origin hd hf
    refine ⟨hnone, ?_⟩
    have hcount := (hcounts l f).2
    rcases hcivil.peopled.uncreated_or l 0 with huncreated | ⟨-, hdrops⟩
    · rw [hnone, huncreated, List.count_nil] at hcount
      omega
    · rw [hdrops]
      rfl
  have hcreations : ∀ l f, f.origin ≠ .creation →
      (Tap.uncreated (deeds l 0 (happened history))).count f = 0 := by
    intro l f hf
    apply List.count_eq_zero_of_not_mem
    intro hmem
    obtain ⟨d, -, hd⟩ := List.mem_filterMap.mp hmem
    exact hf (Tap.uncreated?_origin hd)
  constructor
  · rw [List.perm_iff_count]
    rintro ⟨l, f⟩
    rw [count_tally hplaces, count_tally hplaces]
    exact (hcounts l f).1
  · rw [List.perm_iff_count]
    rintro ⟨l, f⟩
    rw [List.count_append, count_tally hplaces, count_tally hplaces]
    have hcount := (hcounts l f).2
    by_cases hf : f.origin = .creation
    · obtain ⟨hnone, hdrops⟩ := hhooks l f hf
      have hfilter : ((carried (happened history)).filter fun entry => !isCreation entry).count
          (l, f) = 0 := by
        apply List.count_eq_zero_of_not_mem
        simp [isCreation, hf]
      rw [hfilter]
      exact (Nat.zero_add _).trans (hdrops.trans hnone.symm)
    · rw [List.count_filter (by simp [isCreation, hf]), hheard]
      rw [hcreations l f hf] at hcount
      exact hcount
  · rw [List.perm_iff_count]
    rintro ⟨l, f⟩
    rw [count_tally hplaces]
    have hcount := (hcounts l f).2
    by_cases hf : f.origin = .creation
    · obtain ⟨hnone, hdrops⟩ := hhooks l f hf
      rw [List.count_filter (by simp [isCreation, hf]), hheard]
      rw [hnone, hdrops, Nat.zero_add, Nat.add_zero] at hcount
      exact hcount
    · have hfilter : ((carried (happened history)).filter isCreation).count (l, f) = 0 := by
        apply List.count_eq_zero_of_not_mem
        simp [isCreation, hf]
      rw [hfilter]
      exact (hcreations l f hf).symm

/-- In a play on a single tap every fault is told to its listener before it leaves, and in the end
each has been told once and has left once. -/
theorem faults_accounted {p : TapPlan σ α ε} (hplan : P.taps = [p])
    (hplay : Play P (.start P ambient) history U) :
    (∀ first, first <+: happened history → Covered first) ∧
      (U.isIdle = true → Settled (happened history)) :=
  ⟨fun _ hfirst => hplay.covered hplan hfirst, hplay.settled hplan⟩

end Play

end

open scoped Scenario

theorem Play.faults_accounted_brittle : ∃ history U,
    Play (.brittle [["do_on_next"]]) (.start (.brittle [["do_on_next"]]) .empty) history U ∧
    U.isIdle = true ∧ tally Tap.Deed.failure? (happened history) =
      [(0, ⟨.hook "do_on_next", .message "do_on_next"⟩)] ∧
    (∀ first, first <+: happened history → Covered first) ∧ Settled (happened history) := by
  obtain ⟨history, U, hplay, hidle, hfailures⟩ := Play.of_follow (P := .brittle [["do_on_next"]])
    (S := .start (.brittle [["do_on_next"]]) .empty) 20
    [.subscribe .plain, .signal 0 (.subscribe (.external 0)), .answer true, .answer true,
      .signal 0 (.next 1), .answer true, .answer true]
    (fun history U => U.isIdle = true ∧ tally Tap.Deed.failure? (happened history) =
      [(0, ⟨.hook "do_on_next", .message "do_on_next"⟩)]) (by decide +kernel)
  obtain ⟨hcovered, hsettled⟩ := hplay.faults_accounted rfl
  exact ⟨history, U, hplay, hidle, hfailures, hcovered, hsettled hidle⟩

end Wiretap

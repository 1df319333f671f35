import Wiretap.Proofs.Chain.Backpressure
import Wiretap.Proofs.Machine.Dismissal
import Wiretap.Scenario.Kinds

/-!
# A failed assembly touches nothing before it

Where a tap cannot be set up, the subscription comes to nothing. The source and the taps before
that place never learn of it. The taps behind it see an ordinary stream that begins with a handle
and ends with an error, and so does the client. Neither of the two fails to come: where the machine
has the turn, it gets to the client, unless the hook of a tap fails before that.
-/

namespace Wiretap

section

variable {K : Kinds} {σ α ε : Type} {P : Plan σ α ε} {S T U V : State σ α ε}
  {line place k left : Nat} {f : Fault} {history during later : List (Entry α ε)}
  {before events : List (Event α ε)} {ambient : Context} {base stack : List (Frame α ε)}
  {count : Nat → Nat}

/-! ## What the client refrains from -/

/-- Does the client of a line cancel in this entry? -/
def Entry.cancels (line : Nat) : Entry α ε → Bool
  | .move (.control l _ .cancel) => l == line
  | _ => false

/-- Does the client of a line get a handle in this callback? -/
def Callback.greets (line : Nat) : Callback α ε → Bool
  | .client l (.subscribe _) => l == line
  | _ => false

/-- Does the client of a line never cancel from inside a callback in which it gets a handle? The
history goes on from some callbacks in progress. -/
def refrains (line : Nat) : List (Callback α ε) → List (Entry α ε) → Bool
  | _, [] => true
  | callbacks, e :: later =>
    !(e.cancels line && callbacks.any (Callback.greets line)) &&
      refrains line (e.attend callbacks) later

theorem refrains_append (callbacks : List (Callback α ε)) (first second : List (Entry α ε)) :
    refrains line callbacks (first ++ second) =
      (refrains line callbacks first &&
        refrains line (first.foldl Entry.attend callbacks) second) := by
  induction first generalizing callbacks with
  | nil => rfl
  | cons e first ih => simp only [List.cons_append, refrains, ih, List.foldl_cons, Bool.and_assoc]

theorem not_mem_of_refrains {callbacks : List (Callback α ε)} {nth : Nat}
    (h : refrains line callbacks [.move (.control line nth .cancel)] = true) (handle : Handle) :
    .client line (.subscribe handle) ∉ callbacks := by
  intro hmem
  have hgreets : callbacks.any (Callback.greets line) = true :=
    List.any_eq_true.mpr ⟨_, hmem, by simp [Callback.greets]⟩
  simp [refrains, Entry.cancels, hgreets] at h

/-! ## What the receivers hear -/

namespace Hears

theorem heard (h : Hears P line place f count events) (hk : place + k + 1 < P.depth) :
    Tap.heard (deeds line (place + k + 1) events) =
      ((P.regrets place f k).take (count k)).map (·.mapError P.adapt) := by
  have harrived := h k (Nat.le_of_lt hk)
  rw [arrivals, if_pos hk] at harrived
  apply List.map_injective_iff.mpr (State.Delivers.tap_injective line (place + k + 1))
  rw [harrived, List.map_map]
  refine List.map_congr_left fun s _ => ?_
  simp [Plan.signal, hk]

theorem heardBy (h : Hears P line place f count events) (hk : place + k + 1 = P.depth) :
    heardBy line events = (P.regrets place f k).take (count k) := by
  have hlast : ¬place + k + 1 < P.depth := Nat.not_lt.mpr (Nat.le_of_eq hk.symm)
  have harrived := h k (Nat.le_of_eq hk)
  rw [arrivals, if_neg hlast] at harrived
  apply List.map_injective_iff.mpr (State.Delivers.client_injective line)
  rw [harrived]
  refine List.map_congr_left fun s _ => ?_
  simp [Plan.signal, hlast]

end Hears

theorem Ushers.length (h : Ushers line place base k stack) : stack.length = k + base.length := by
  induction h with
  | none => exact (Nat.zero_add _).symm
  | tap _ ih =>
      rw [List.length_cons, ih]
      omega

namespace Dismissal

/-- Everybody has heard a part of what there is to hear. -/
theorem hears (h : Dismissal P line place f base events S left) :
    ∃ count, Hears P line place f count events := by
  cases h with
  | greeting k hk hfocus hstack hstands hheard => exact ⟨_, hheard⟩
  | listening k hk above hstack hrest hstands hheard => exact ⟨_, hheard⟩
  | returning k hk hfocus hstack hstands hheard => exact ⟨_, hheard⟩
  | telling k hk hfocus hstands hheard => exact ⟨_, hheard⟩
  | told hheard => exact ⟨_, hheard⟩

/-- When nothing is on its way and the client is not in the callback in which it gets the handle,
everybody has been told. -/
theorem hears_all (h : Dismissal P line place f base events S left) (hleft : left = 0)
    (hgone : ∀ handle, .client line (.subscribe handle) ∉ S.callbacks) :
    Hears P line place f (fun _ => 2) events := by
  cases h with
  | greeting k hk => omega
  | listening k hk above hstack =>
      refine absurd ?_ (hgone (.standIn place k))
      rw [State.callbacks, hstack]
      exact List.mem_filterMap.mpr ⟨_, List.mem_append_right _ List.mem_cons_self, rfl⟩
  | returning k hk => omega
  | telling k hk => omega
  | told hheard => exact hheard

/-- Nothing is on its way when the outside has the turn. -/
theorem of_turn (h : Dismissal P line place f base events U left) {b : Bool}
    (hturn : U.focus = .outside b)
    (hgone : ∀ handle, .client line (.subscribe handle) ∉ U.callbacks) :
    Hears P line place f (fun _ => 2) events := by
  by_cases hleft : left = 0
  · exact h.hears_all hleft hgone
  · obtain ⟨V, events', hstep⟩ := h.exists_step hleft
    rw [(State.step?_eq_none_iff P).mpr ⟨b, hturn⟩] at hstep
    cases hstep

/-- While the client is not in the callback in which it gets the handle, everybody has been told or
the machine has the turn and uses it. -/
theorem advances (h : Dismissal P line place f base before S left) (hcivil : S.Civil P before)
    (hforsakes : S.Forsakes P line place f before)
    (hgone : ∀ handle, .client line (.subscribe handle) ∉ S.callbacks) :
    Hears P line place f (fun _ => 2) before ∨ S.Yields P ∨ S.Stumbles P line place := by
  by_cases hleft : left = 0
  · exact .inl (h.hears_all hleft hgone)
  · exact .inr (h.yields hcivil hforsakes hleft)

/-- When the machine has come back to what waited before, everybody has been told. -/
theorem of_returned (h : Dismissal P line place f base events U left)
    (hbase : T.stack.length ≤ base.length) (hreturned : T.Returned U) :
    Hears P line place f (fun _ => 2) events := by
  obtain ⟨hstack, b, hback⟩ := hreturned
  -- Until everybody has been told a call is in focus, or more calls wait than before.
  cases h with
  | greeting k hk hfocus =>
      rw [hfocus] at hback
      cases hback
  | listening k hk above hthere hrest =>
      have hlength := congrArg List.length (hstack.symm.trans hthere)
      rw [List.length_append, List.length_cons, hrest.length, List.length_cons] at hlength
      omega
  | returning k hk hfocus hrest =>
      have hlength := hrest.length
      rw [hstack, List.length_cons] at hlength
      omega
  | telling k hk hfocus =>
      rw [hfocus] at hback
      cases hback
  | told hheard => exact hheard

/-- In a play the dismissal goes on. -/
theorem play (h : Dismissal P line place f base before S left) (hcivil : S.Civil P before)
    (hforsakes : S.Forsakes P line place f before) (hplay : Play P S later U)
    (hsound : ∀ q, place < q → q < P.depth → Tap.failures (deeds line q (happened later)) = [])
    (hrefrains : refrains line S.callbacks later = true) :
    ∃ left, Dismissal P line place f base (before ++ happened later) U left := by
  induction hplay with
  | refl => exact ⟨left, by simpa using h⟩
  | @step later T U events hplay hstep ih =>
      rw [refrains_append, Bool.and_eq_true] at hrefrains
      simp only [happened_append, happened_map_event, deeds_append, Tap.failures_append,
        List.append_eq_nil_iff] at hsound ⊢
      rw [← List.append_assoc]
      obtain ⟨left, hbefore⟩ := ih (fun q hq hinside => (hsound q hq hinside).1) hrefrains.1
      exact ⟨left - 1, hbefore.step (hcivil.play hplay) (hforsakes.play hcivil hplay) hstep
        fun q hq hinside => (hsound q hq hinside).2⟩
  | @move later T U m hplay hallows hmove ih =>
      rw [refrains_append, Bool.and_eq_true, hplay.attends] at hrefrains
      rw [happened_append, happened_move, List.append_nil] at hsound ⊢
      obtain ⟨left, hbefore⟩ := ih hsound hrefrains.1
      apply hbefore.move (hforsakes.play hcivil hplay) hallows (State.move?_moved hmove)
      rintro nth rfl
      exact not_mem_of_refrains hrefrains.2

end Dismissal

/-! ## The theorem -/

/-- The assembly of a line has failed at a place, and everybody behind it has been told that and
nothing else. -/
structure Dismissed (P : Plan σ α ε) (line place : Nat) (f : Fault) (events : List (Event α ε)) :
    Prop extends GivenUp line place f events where
  taps : ∀ k, place + k + 1 < P.depth → Tap.heard (deeds line (place + k + 1) events) =
    (P.regrets place f k).map (·.mapError P.adapt)
  client : ∀ k, place + k + 1 = P.depth → heardBy line events = P.regrets place f k

/-- Who has been told hears nothing any more. -/
theorem Hears.dismissed (h : Hears P line place f (fun _ => 2) before) (hcivil : S.Civil P before)
    (hforsakes : S.Forsakes P line place f before) (hplay : Play P S later U) :
    Dismissed P line place f (before ++ happened later) := by
  have hnow : Hears P line place f (fun _ => 2) (before ++ happened later) := fun k hk => by
    refine Dismissal.arrivals_of_regrets (hcivil.play hplay) hk ?_
    rw [arrivals_append, h k hk]
    exact List.prefix_append _ _
  exact { (hforsakes.play hcivil hplay).toGivenUp with
    taps := fun k hk => hnow.heard hk
    client := fun k hk => hnow.heardBy hk }

/-- From where a tap cannot be set up, the line is given up and its dismissal is under way. -/
theorem Meanwhile.dismissal {context : Context} (hplay : Play P (.start P ambient) history T)
    (hjoin : T.focus = .call (.join line P.depth context)) (hduring : Meanwhile P T during U)
    (hfails : .notSetUp f ∈ deeds line place (happened during))
    (hsound : ∀ q, place < q → q < P.depth →
      Tap.failures (deeds line q (happened during)) = [])
    (hrefrains : refrains line T.callbacks during = true) :
    U.Forsakes P line place f (happened (history ++ during)) ∧
      ∃ base left, T.stack.length ≤ base.length ∧
        Dismissal P line place f base (happened (history ++ during)) U left := by
  obtain ⟨first, S, R, events, rest, hfirst, hstep, hevent, hrest, rfl⟩ :=
    hduring.exists_step hfails
  have hbefore := hplay.trans hfirst.play
  have hstepped := State.step?_stepped hstep
  have hrefuses := State.refuses hstepped hevent
  have hbudding := State.Budding.play hbefore
  have hcivil := hbefore.civil.step hstepped
  have hforsakes := hrefuses.forsakes hbefore.civil hbudding hstep
  have hsince : ∀ q, place < q → q < P.depth →
      Tap.failures (deeds line q (happened rest)) = [] := fun q hq hinside => by
    have hnone := hsound q hq hinside
    rw [happened_append, deeds_append, Tap.failures_append, List.append_eq_nil_iff] at hnone
    exact hnone.2
  rw [refrains_append, Bool.and_eq_true, (hfirst.play.step hstep).attends] at hrefrains
  have hevents : happened (history ++ (first ++ events.map .event ++ rest)) =
      happened (history ++ first) ++ events ++ happened rest := by
    simp only [happened_append, happened_map_event, List.append_assoc]
  obtain ⟨⟨above, hstack, -⟩, -⟩ := hfirst.rewinds hplay.civil.assembled hjoin
  obtain ⟨left, hdismissal⟩ := (hrefuses.dismissal hbefore.civil hbudding hstepped).play hcivil
    hforsakes hrest hsince hrefrains.2
  rw [hevents]
  refine ⟨hforsakes.play hcivil hrest, S.stack, left, ?_, hdismissal⟩
  rw [hstack, List.length_append]
  exact Nat.le_add_left _ _

/-- A client subscribes, a tap cannot be set up, no hook of a later one fails, and the client does
not cancel from inside the callback in which it gets its handle. Then the source and the taps before
are left alone. The listener of the tap runs its first hook and augments the context as far as it
comes, and it is told of the fault if there is a listener. Every receiver behind the tap gets a
handle, and then an error: the one that comes first gets the fault, and any other one what has
become of it. As soon as the call has returned, or the client has the turn outside that callback,
all have got both and get nothing more, whatever the client asks for; and before the callback as
well as after it the machine goes on until the client has the turn, unless a hook fails on the way.
When the call has returned the ambient context is what it was. -/
theorem Play.failed_assembly {context : Context} (hplay : Play P (.start P ambient) history T)
    (hjoin : T.focus = .call (.join line P.depth context)) (hduring : Meanwhile P T during U)
    (hfails : .notSetUp f ∈ deeds line place (happened during))
    (hsound : ∀ q, place < q → q < P.depth →
      Tap.failures (deeds line q (happened during)) = [])
    (hrefrains : refrains line T.callbacks during = true) :
    GivenUp line place f (happened (history ++ during)) ∧
      (∀ k, place + k + 1 < P.depth →
        Tap.heard (deeds line (place + k + 1) (happened (history ++ during))) <+:
          (P.regrets place f k).map (·.mapError P.adapt)) ∧
      (∀ k, place + k + 1 = P.depth →
        heardBy line (happened (history ++ during)) <+: P.regrets place f k) ∧
      ((T.Returned U ∨ (∃ b, U.focus = .outside b) ∧
          ∀ handle, .client line (.subscribe handle) ∉ U.callbacks) →
        ∀ later V, Play P U later V →
          Dismissed P line place f (happened (history ++ during ++ later))) ∧
      ((∀ handle, .client line (.subscribe handle) ∉ U.callbacks) →
        Dismissed P line place f (happened (history ++ during)) ∨ U.Yields P ∨
          U.Stumbles P line place) ∧
      (T.Returned U → U.ambient = T.ambient) := by
  obtain ⟨hforsakes, base, left, hbase, hdismissal⟩ :=
    hduring.dismissal hplay hjoin hfails hsound hrefrains
  have hcivil := (hplay.trans hduring.play).civil
  obtain ⟨count, hheard⟩ := hdismissal.hears
  refine ⟨hforsakes.toGivenUp, fun k hk => ?_, fun k hk => ?_, fun hdone later V hlater => ?_,
    fun hgone => ?_, hduring.restores hplay.civil.assembled hjoin⟩
  · rw [hheard.heard hk]
    exact (List.take_prefix _ _).map _
  · rw [hheard.heardBy hk]
    exact List.take_prefix _ _
  · have htold : Hears P line place f (fun _ => 2) (happened (history ++ during)) := by
      rcases hdone with hreturned | ⟨⟨b, hturn⟩, hgone⟩
      · exact hdismissal.of_returned hbase hreturned
      · exact hdismissal.of_turn hturn hgone
    rw [happened_append]
    exact htold.dismissed hcivil hforsakes hlater
  · apply (hdismissal.advances hcivil hforsakes hgone).imp_left
    intro htold
    simpa using htold.dismissed hcivil hforsakes .refl

end

open scoped Scenario

/-- The second one of three taps fails in its first hook. The client asks for items from inside the
callback in which it gets its handle, and then it is told what has become of the fault. -/
theorem Play.failed_assembly_brittle : ∃ history during T U,
    Play (.brittle [[], ["do_first"], []]) (.start (.brittle [[], ["do_first"], []]) .empty)
      history T ∧
    T.focus = .call (.join 0 3 .empty) ∧ Meanwhile (.brittle [[], ["do_first"], []]) T during U ∧
    T.Returned U ∧ asked 0 during = [5] ∧
    heardBy 0 (happened during) = [.subscribe (.tap 2), .error (.source 0)] ∧
    ∀ later V, Play (.brittle [[], ["do_first"], []]) U later V →
      Dismissed (.brittle [[], ["do_first"], []]) 0 1 ⟨.hook "do_first", .message "do_first"⟩
        (happened (history ++ during ++ later)) := by
  have hplay : Play (.brittle [[], ["do_first"], []])
      (.start (.brittle [[], ["do_first"], []]) .empty)
      [.move (.subscribe .plain)] (.hosting _ .plain .empty) := Play.refl.move rfl rfl
  obtain ⟨during, U, hduring, hlength, hback, hasked, hheard, hfails, hsound, hrefrains⟩ :=
    Meanwhile.of_followWithin (P := .brittle [[], ["do_first"], []])
      (S := .hosting (.brittle [[], ["do_first"], []]) .plain .empty) 20
      [.control 0 0 (.request 5), .answer true, .answer true]
      (fun during U => U.stack.length = 0 ∧ U.focus.isBack = true ∧ asked 0 during = [5] ∧
        heardBy 0 (happened during) = [.subscribe (.tap 2), .error (.source 0)] ∧
        .notSetUp ⟨.hook "do_first", .message "do_first"⟩ ∈ deeds 0 1 (happened during) ∧
        Tap.failures (deeds 0 2 (happened during)) = [] ∧ refrains 0 [] during = true)
      (by decide +kernel)
  have hreturned := hduring.returned hplay.civil.assembled rfl hlength hback
  have hlast : ∀ q, 1 < q → q < 3 → Tap.failures (deeds 0 q (happened during)) = [] :=
    fun q hq hinside => (show q = 2 by omega) ▸ hsound
  exact ⟨_, during, _, U, hplay, rfl, hduring, hreturned, hasked, hheard,
    (Play.failed_assembly hplay rfl hduring hfails hlast hrefrains).2.2.2.1 (.inl hreturned)⟩

end Wiretap

import Wiretap.Proofs.Chain.Release
import Wiretap.Proofs.Machine.Parting
import Wiretap.Proofs.Machine.Received
import Wiretap.Proofs.Machine.Unwinding
import Wiretap.Scenario.Kinds

/-!
# Cancellation is final

Once a call of the client by which it is let go has returned, the client hears nothing any more,
whatever the source goes on to send and whichever hooks fail. During the call it hears of a fault at
most, and of that only if it has not been let go before.
-/

namespace Wiretap

section

variable {K : Kinds} {σ α ε : Type} {P : Plan σ α ε} {p : TapPlan σ α ε} {T U : State σ α ε}
  {history during : List (Entry α ε)} {ambient : Context} {line position : Nat} {c : Control}

/-- The client of a line with one tap has heard an ending, or a cancellation of its has been
granted. -/
def LetGo (line : Nat) (events : List (Event α ε)) : Prop :=
  (∃ s ∈ heardBy line events, s.isTerminal = true) ∨ Tap.granted (deeds line 0 events)

/-- The call to the tap of a line that was made after the events `before` returned among those that
followed, and these are the tap's doings in it. -/
def CallDid (line : Nat) (before during : List (Event α ε)) (c : Control)
    (doings : List (Tap.Doing α ε)) : Prop :=
  ∃ shown b after, during = shown ++ .returned line 0 b :: after ∧
    openCalls line 0 (before ++ shown) = ⟨.control c, doings⟩ :: openCalls line 0 before

/-- The tap of a line is about to be called by its client. -/
structure State.Addressed (S : State σ α ε) (events : List (Event α ε)) (line : Nat) (t : Tap σ)
    (h : Handle) : Prop where
  tap : S.tap? line 0 = some t
  source : t.source = some h
  first : Tap.firstHandle (deeds line 0 events) = some h
  due : S.due line 0 = []
  excused : ∀ r ∈ S.pending line 0, r.isExcuse = false
  heard : heardBy line events = Tap.sent (deeds line 0 events)
  attached : t.attached = false ↔ LetGo line events

namespace Play

/-- A client that has got the tap as its handle finds it ready. -/
theorem addressed (hplan : P.taps = [p]) (hplay : Play P (.start P ambient) history T)
    (hfocus : T.focus = .call (.control line position (.tap 0) c)) :
    ∃ t h, T.Addressed (happened history) line t h := by
  have hcivil := hplay.civil
  have hdepth : 0 + 1 = P.depth := by rw [Plan.depth, hplan]; rfl
  obtain ⟨rfl, hhandle⟩ := (hcivil.handled.called _ hfocus).grants _ _ _ rfl
  obtain ⟨t, htap, hsource⟩ := State.source_of_hasHandle hhandle
  obtain ⟨h, hsource⟩ := Option.ne_none_iff_exists'.mp hsource
  obtain ⟨p', -, hlived⟩ := hcivil.lived htap
  obtain ⟨hparted, hparts⟩ := hlived.parted
  have hcourteous := hcivil.mannerly line 0 t (.control c) htap ⟨_, hfocus, rfl⟩
  have hheard : heardBy line (happened history) = Tap.sent (deeds line 0 (happened history)) := by
    rw [hcivil.delivers.heardBy_of_tap hcivil.assembled hdepth (by rw [htap]; rfl)
      (by simp [hfocus])]
    exact hlived.given_eq
  -- A client that is owed an excuse has got an empty handle, so it has not got the tap.
  have hexcused : ∀ r ∈ T.pending line 0, r.isExcuse = false := by
    intro r hr
    by_contra hexcuse
    rw [Bool.not_eq_false] at hexcuse
    have hempty : .subscribe .empty ∈ Tap.sent (deeds line 0 (happened history)) :=
      hparted.excuse r hr hexcuse
    have htaken : .subscribe (.tap 0) ∈ Tap.sent (deeds line 0 (happened history)) := by
      rw [← hheard]
      exact (State.Acquainted.play hplay).uses line (.tap 0) c (by rw [hfocus, ← hdepth])
    cases hlived.lawful.handle_unique hempty htaken
  refine ⟨t, h, htap, hsource, ?_, ?_, hexcused, hheard, ?_⟩
  · exact hlived.source_eq.symm.trans hsource
  · simp [State.due, hfocus]
  · rw [LetGo, hheard]
    constructor
    · intro hdetached
      rcases hparted.left hdetached with hterminal | hgranted | ⟨r, hr, hexcuse⟩
      · exact .inl hterminal
      · exact .inr hgranted
      · rw [hexcused r hr] at hexcuse
        cases hexcuse
    · rintro (⟨s, hs, hterminal⟩ | hgranted)
      · exact hlived.detached_of_terminal hs hterminal
      · exact hparts.detached (Tap.Life.parts_of_courteous hcourteous) hgranted

/-- When the client has heard all that has been sent, what it hears later is sent later. -/
theorem heardBy_since (hplan : P.taps = [p]) {events : List (Event α ε)}
    {later : List (Entry α ε)} {t : Tap σ} {V : State σ α ε} (hcivil : U.Civil P events)
    (htap : U.tap? line 0 = some t) (hheard : heardBy line events = Tap.sent (deeds line 0 events))
    (hlater : Play P U later V) :
    heardBy line (happened later) <+: Tap.sent (deeds line 0 (happened later)) := by
  have hdepth : 0 + 1 = P.depth := by rw [Plan.depth, hplan]; rfl
  have hcivilV := hcivil.play hlater
  obtain ⟨-, v, htapV, -⟩ := hcivil.lives (by rw [hplan]; rfl) htap hlater
  obtain ⟨p', -, hlived⟩ := hcivilV.lived htapV
  have hprefix : heardBy line (events ++ happened later) <+: _ :=
    hcivilV.delivers.heardBy_given hdepth
  rw [hlived.given_eq, deeds_append, Tap.sent_append, heardBy_append, hheard] at hprefix
  exact (List.prefix_append_right_inj _).mp hprefix

/-- A client that has been let go hears nothing any more. -/
theorem heardBy_of_mute (hplan : P.taps = [p]) {events : List (Event α ε)}
    {later : List (Entry α ε)} {t : Tap σ} {V : State σ α ε} (hcivil : U.Civil P events)
    (htap : U.tap? line 0 = some t)
    (hmute : Tap.Life.Mute ⟨t, U.pending line 0, deeds line 0 events⟩)
    (hfocus : ∀ s, U.focus ≠ .call (.client line s)) (hlater : Play P U later V) :
    heardBy line (happened later) = [] := by
  have hdepth : 0 + 1 = P.depth := by rw [Plan.depth, hplan]; rfl
  obtain ⟨p', -, hlived⟩ := hcivil.lived htap
  obtain ⟨-, v, -, hsteps⟩ := hcivil.lives (by rw [hplan]; rfl) htap hlater
  have hnow : heardBy line events = Tap.sent (deeds line 0 events) :=
    (hcivil.delivers.heardBy_of_tap hcivil.assembled hdepth (by rw [htap]; rfl) hfocus).trans
      hlived.given_eq
  have hsent : Tap.sent (deeds line 0 (events ++ happened later)) =
      Tap.sent (deeds line 0 events) := (hmute.steps hlived.accounted hsteps).2
  rw [deeds_append, Tap.sent_append, List.append_right_eq_self] at hsent
  exact List.prefix_nil.mp (hsent ▸ heardBy_since hplan hcivil htap hnow hlater)

end Play

/-- A call has not returned while its frame is there. -/
theorem State.not_returned {above : List (Frame α ε)} {f : Frame α ε}
    (hstack : U.stack = above ++ f :: T.stack) : ¬T.Returned U := by
  intro hreturned
  have hlength := congrArg List.length (hstack.symm.trans hreturned.1)
  rw [List.length_append, List.length_cons] at hlength
  omega

/-- What comes of a call by which the client of a line is let go, made in `T` after the events
`before` with the client attached or not, as far as `U`. -/
structure Concludes (P : Plan σ α ε) (T : State σ α ε) (before : List (Event α ε)) (line : Nat)
    (c : Control) (attached : Bool) (during : List (Entry α ε)) (U : State σ α ε) : Prop where
  /-- When the call has returned, the client has been told of the fault, if there was one and the
  client was attached, and hears nothing any more. -/
  returned : T.Returned U → ∃ body fault, Tap.Parts c body fault ∧
    CallDid line before (happened during) c (body ++ fault.toList.map (Tap.telling attached)) ∧
    heardBy line (happened during) = Tap.lastWord attached fault ∧
    ∀ later V, Play P U later V → heardBy line (happened later) = []
  /-- Until then it may have heard of the fault, and of nothing else. -/
  open_ : ¬T.Returned U → heardBy line (happened during) = [] ∨ ∃ inner body f,
    Tap.Parts c body (some f) ∧ attached = true ∧
    U.calls line 0 (before ++ happened during) =
      inner ++ ⟨.control c, body ++ [Tap.telling true f]⟩ :: openCalls line 0 before ∧
    heardBy line (happened during) = [.error (.listener f)]
  /-- The handle that is used in the call is the one that the source gave. -/
  uses : ∀ guard r h c', U.stack = .tap line 0 guard r :: T.stack →
    U.focus = .call (.control line 0 h c') → Tap.firstHandle (deeds line 0 before) = some h

/-- A call by which the client is let go comes to its conclusion. -/
theorem Meanwhile.concludes (hplan : P.taps = [p]) (hplay : Play P (.start P ambient) history T)
    (hfocus : T.focus = .call (.control line position (.tap 0) c)) {t : Tap σ} {h : Handle}
    (haddressed : T.Addressed (happened history) line t h)
    (hparting : (t.serve (p.listener (T.inside p t)) (.tap 0) (T.isConditional line)
      (.control c)).Parting c t.attached []) (hduring : Meanwhile P T during U) :
    Concludes P T (happened history) line c t.attached during U := by
  have hdepth : 0 + 1 = P.depth := by rw [Plan.depth, hplan]; rfl
  have hcivil := hplay.civil.play hduring.play
  rcases State.Course.of_meanwhile hplay.civil hplan haddressed.tap hfocus haddressed.due
    haddressed.excused hparting hduring with ⟨rfl, rfl⟩ | hcourse
  · refine ⟨fun hreturned => ?_, fun _ => .inl rfl, fun guard r handle c' hstack => ?_⟩
    · obtain ⟨-, b, hback⟩ := hreturned
      rw [hfocus] at hback
      cases hback
    · exact absurd hstack (List.cons_ne_self _ _).symm
  have hheard := Play.heardBy_since hplan hplay.civil haddressed.tap haddressed.heard hduring.play
  cases hcourse with
  | waits above htap hattached hstack habove hcalls hawaits huse hsent =>
      rw [hsent] at hheard
      refine ⟨fun hreturned => absurd hreturned (State.not_returned hstack),
        fun _ => .inl (List.prefix_nil.mp hheard), ?_⟩
      · intro guard r handle c' _ hcall
        obtain ⟨p', -, hlived⟩ := hcivil.lived htap
        have hsource := (hlived.source_eq.symm.trans (huse _ _ _ hcall rfl) : _ = some handle)
        rw [deeds_append, Tap.firstHandle_append, haddressed.first] at hsource
        rw [haddressed.first, ← hsource]
        rfl
  | @tells u above inner guard body f htap hstack hinner hdue hcalls hattached hparts hmute hsent =>
      rw [hsent] at hheard
      refine ⟨fun hreturned => absurd hreturned (State.not_returned hstack), fun _ => ?_, ?_⟩
      · rcases List.prefix_cons_iff.mp hheard with hnone | ⟨rest, hrest, hnil⟩
        · exact .inl hnone
        · rw [List.prefix_nil.mp hnil] at hrest
          exact .inr ⟨inner, body, f, hparts, hattached, hcalls, hrest⟩
      · intro guard' r handle c' hnow hcall
        -- Nothing is called above the frame of this call, so its tap uses nothing.
        obtain rfl : above = [] := by
          have hlength := congrArg List.length (hstack.symm.trans hnow)
          exact List.length_eq_zero_iff.mp (by simpa using hlength)
        have hnone := hdue (List.length_eq_zero_iff.mp hinner)
        simp [State.due, hcall] at hnone
  | @ends u body fault shown after hreturned htap hmute hsince hcalls hparts hsent =>
      obtain ⟨hstack, b, hback⟩ := hreturned
      have hsilent : ∀ s, U.focus ≠ .call (.client line s) := by simp [hback]
      refine ⟨fun _ => ⟨body, fault, hparts, ⟨shown, true, after, hsince, hcalls⟩, ?_, ?_⟩,
        fun hopen => absurd ⟨hstack, b, hback⟩ hopen, ?_⟩
      · obtain ⟨p', -, hlived⟩ := hcivil.lived htap
        have hall := (hcivil.delivers.heardBy_of_tap hcivil.assembled hdepth (by rw [htap]; rfl)
          hsilent).trans hlived.given_eq
        rw [deeds_append, Tap.sent_append, heardBy_append, haddressed.heard] at hall
        rw [List.append_cancel_left hall, hsent]
      · exact fun later V hlater => hlater.heardBy_of_mute hplan hcivil htap hmute hsilent
      · intro guard r handle c' hnow
        exact absurd (hstack.symm.trans hnow) (List.cons_ne_self _ _).symm

/-- Cancellation is final. On a line with one tap the client cancels, from inside a callback or not.
If it has heard no ending before, and no cancellation of its has been granted, then it hears of a
fault of the listener in this call if there is one, and of nothing else; otherwise the fault is
dropped. Once the call has returned it hears nothing any more. The hook for the cancellation runs
first. If it succeeds the handle of the source is cancelled, the last hook runs after that unless it
is settled, and if that one fails the handle is cancelled once more. If the hook for the
cancellation fails, the handle is left alone. -/
theorem Play.cancel_final (hplan : P.taps = [p]) (hplay : Play P (.start P ambient) history T)
    (hcancel : T.focus = .call (.control line position (.tap 0) .cancel))
    (hduring : Meanwhile P T during U) :
    ∃ attached : Bool, (attached = false ↔ LetGo line (happened history)) ∧
      Concludes P T (happened history) line .cancel attached during U := by
  obtain ⟨t, h, haddressed⟩ := hplay.addressed hplan hcancel
  refine ⟨t.attached, haddressed.attached, ?_⟩
  exact hduring.concludes hplan hplay hcancel haddressed
    (Tap.onCancel_parting (p.listener _) haddressed.source)

/-- The client uses a handle that it has got. -/
theorem State.focus_of_control {nth : Nat} {h : Handle} (hreceived : T.received? line nth = some h)
    (hmove : T.move? P (.control line nth c) = some U) :
    U.focus = .call (.control line P.depth h c) := by
  cases State.move?_moved hmove with
  | control hturn hthen hlines hstack hnext =>
      rw [hreceived, Option.some.injEq] at hthen
      rw [hnext, hthen]

end

open scoped Scenario

/-- The client cancels from inside an item. The last hook fails, and the client is told of that. -/
theorem Play.cancel_final_brittle : ∃ history during T U,
    Play (.brittle [["do_finally"]]) (.start (.brittle [["do_finally"]]) .empty) history T ∧
    T.focus = .call (.control 0 1 (.tap 0) .cancel) ∧
    Meanwhile (.brittle [["do_finally"]]) T during U ∧ T.Returned U ∧
    heardBy 0 (happened (history ++ during)) = [.subscribe (.tap 0), .next 1,
      .error (.listener ⟨.hook "do_finally", .message "do_finally"⟩)] ∧
    ∃ attached : Bool, (attached = false ↔ LetGo 0 (happened history)) ∧
      Concludes (.brittle [["do_finally"]]) T (happened history) 0 .cancel attached during U := by
  obtain ⟨before, S, hplay, hreceived, hallows, T, hmove, ⟨during, U⟩, hfollow, hlength, hback,
      hheard⟩ := Play.of_follow (P := .brittle [["do_finally"]])
    (S := .start (.brittle [["do_finally"]]) .empty) 20
    [.subscribe .plain, .signal 0 (.subscribe (.external 0)), .answer true, .answer true,
      .signal 0 (.next 1)]
    (fun before S => S.received? 0 0 = some (.tap 0) ∧
      S.allows (.brittle [["do_finally"]]) (.control 0 0 .cancel) = true ∧
      ∃ T ∈ S.move? (.brittle [["do_finally"]]) (.control 0 0 .cancel),
      ∃ outcome ∈ T.followWithin (.brittle [["do_finally"]]) 20
          [.answer true, .answer true, .answer true] T,
        outcome.2.stack.length = T.stack.length ∧ outcome.2.focus.isBack = true ∧
        heardBy 0 (happened (before ++ outcome.1)) = [.subscribe (.tap 0), .next 1,
          .error (.listener ⟨.hook "do_finally", .message "do_finally"⟩)])
    (by decide +kernel)
  have hfocus : T.focus = .call (.control 0 1 (.tap 0) .cancel) :=
    State.focus_of_control hreceived hmove
  have hhistory := hplay.move hallows hmove
  have hduring : Meanwhile _ T during U := Meanwhile.refl.followWithin hfollow
  have hreturned := hduring.returned hhistory.civil.assembled hfocus hlength hback
  refine ⟨_, during, T, U, hhistory, hfocus, hduring, hreturned, ?_,
    Play.cancel_final rfl hhistory hfocus hduring⟩
  rwa [happened_append, happened_append, happened_move, List.append_nil, ← happened_append]

end Wiretap

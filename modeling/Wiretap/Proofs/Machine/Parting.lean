import Wiretap.Proofs.Machine.Meanwhile
import Wiretap.Proofs.Machine.Release
import Wiretap.Proofs.Tap.Parting

/-!
# A call by which the client is let go

The client of a line with one tap lets itself go by a call to the tap, a cancellation or a request
that the listener does not bear. In such a call the tap first waits until its source has been
cancelled; meanwhile nobody calls it. Then it tells the client of a fault if there is one to be
told, and now the client may do anything; but the tap has let it go already. Then the call returns.
-/

namespace Wiretap

variable {K : Kinds} {σ α ε : Type}

namespace State

variable {P : Plan σ α ε} {S T U : State σ α ε} {line place : Nat}
  {before since events : List (Event α ε)} {t : Tap σ} {above below : List (Frame α ε)}
  {guard : Guard} {r : Tap.Resume α ε}

/-! ## A frame that stays -/

/-- From `S` to `U` the tap at a place has rested, with a frame of its own on the stack, and there
are as many of its frames above it. -/
structure Rests (S U : State σ α ε) (line place : Nat) (above below : List (Frame α ε))
    (guard : Guard) (r : Tap.Resume α ε) : Prop where
  tap : U.tap? line place = S.tap? line place
  pending : U.pending line place = S.pending line place
  stack : ∃ above', U.stack = above' ++ .tap line place guard r :: below ∧
    above'.filterMap (Frame.resume? line place) = above.filterMap (Frame.resume? line place)
  due : U.due line place = []

theorem Rests.of_stack (htap : U.tap? line place = S.tap? line place)
    (hpending : U.pending line place = S.pending line place) (hdue : U.due line place = [])
    (hstack : S.stack = above ++ .tap line place guard r :: below)
    (hnow : ∃ above', U.stack = above' ++ .tap line place guard r :: below) :
    S.Rests U line place above below guard r := by
  obtain ⟨above', habove⟩ := hnow
  refine ⟨htap, hpending, ⟨above', habove, ?_⟩, hdue⟩
  simpa [State.pending, habove, hstack] using hpending

/-- A tap of which nothing can be seen in a step rests, and its open calls stay. -/
theorem rests_of_step (before : List (Event α ε)) (hassembled : S.Assembled P)
    (hstep : S.step? P = some (U, events))
    (htap : S.tap? line place = some t)
    (hstack : S.stack = above ++ .tap line place guard r :: below)
    (hunseen : deeds line place events = []) :
    S.Rests U line place above below guard r ∧
      U.calls line place (before ++ events) = S.calls line place before := by
  have hstepped := step?_stepped hstep
  obtain ⟨hsame, hpending⟩ := step_rests hassembled hstepped htap hunseen
  have hdue := step_due hstepped fun _ => hunseen
  exact ⟨.of_stack (hsame.trans htap.symm) hpending hdue hstack
    (step_above hassembled hstepped hstack hunseen), calls_rest hstep hunseen hdue⟩

theorem rests_of_move {m : Move α ε} (before : List (Event α ε)) (hassembled : S.Assembled P)
    (hmove : Moved P S U m)
    (htap : S.tap? line place = some t)
    (hstack : S.stack = above ++ .tap line place guard r :: below) :
    S.Rests U line place above below guard r ∧
      U.calls line place before = S.calls line place before := by
  have hthere : (S.tap? line place).isSome = true := by rw [htap]; rfl
  obtain ⟨p, hplan⟩ := hassembled.planned hthere
  obtain ⟨hsame, hpending, -⟩ := move_keeps hmove (lt_of_tap? hthere) place
  have hinside : place < P.depth := (List.getElem?_eq_some_iff.mp hplan).1
  exact ⟨.of_stack hsame hpending (move_due hmove hinside) hstack (move_above hmove hstack),
    move_calls hmove hinside⟩

/-- A turn of the tap in a call above some frames. The calls that are open above these frames are
those whose frames are there. -/
theorem turned_above {turn : Tap.Turn σ α ε} {call : Tap.OpenCall α ε}
    {inner outer : List (Tap.OpenCall α ε)}
    (hturned : Turned P S (above ++ below) line place turn U)
    (hcalls : U.calls line place (before ++ events) =
      Tap.Record.callsAfter call (inner ++ outer) turn)
    (hinner : inner.length = (above.filterMap (Frame.resume? line place)).length) :
    ∃ above' inner', U.stack = above' ++ below ∧
      inner'.length = (above'.filterMap (Frame.resume? line place)).length ∧
      (inner' = [] → U.due line place = []) ∧
      U.calls line place (before ++ events) = inner' ++ outer := by
  rw [Tap.Record.callsAfter] at hcalls
  rcases hturned.stack with ⟨hnone, hstack⟩ | ⟨guard, r, hsome, hstack⟩
  · rw [hnone] at hcalls
    refine ⟨above, inner, hstack, hinner, fun _ => ?_, hcalls⟩
    rw [due_of_turned hturned]
    cases hnext : turn.next with
    | up h c r => simp [hnext, Tap.Next.resume?] at hnone
    | _ => rfl
  · rw [hsome] at hcalls
    refine ⟨.tap line place guard r :: above, call.did turn.doings :: inner, hstack, ?_, ?_,
      hcalls⟩
    · simp [Frame.resume?, hinner]
    · intro hnone
      cases hnone

/-! ## The course of a call -/

/-- How far a call has come in which the tap of a line lets its client go: it was made in `T` with
the client attached or not, after the events `before`, and `since` are the events since then. -/
inductive Course (T : State σ α ε) (c : Control) (line : Nat) (attached : Bool)
    (before since : List (Event α ε)) (U : State σ α ε) : Prop
  /-- The tap waits for a cancellation of its source. -/
  | waits {t : Tap σ} (above : List (Frame α ε)) {guard : Guard} {r : Tap.Resume α ε}
    {doings : List (Tap.Doing α ε)} (htap : U.tap? line 0 = some t)
    (hattached : t.attached = attached)
    (hstack : U.stack = above ++ .tap line 0 guard r :: T.stack)
    (habove : above.filterMap (Frame.resume? line 0) = [])
    (hcalls : U.calls line 0 (before ++ since) = ⟨.control c, doings⟩ :: openCalls line 0 before)
    (hawaits : Tap.Awaits c doings r)
    (huse : ∀ position h c', U.focus = .call (.control line position h c') → position = 0 →
      t.source = some h)
    (hsent : Tap.sent (deeds line 0 since) = [])
  /-- The client is told of a fault. -/
  | tells {t : Tap σ} (above : List (Frame α ε)) (inner : List (Tap.OpenCall α ε))
    {guard : Guard} {body : List (Tap.Doing α ε)} {f : Fault}
    (htap : U.tap? line 0 = some t)
    (hstack : U.stack = above ++ .tap line 0 guard .leave :: T.stack)
    (hinner : inner.length = (above.filterMap (Frame.resume? line 0)).length)
    (hdue : inner = [] → U.due line 0 = [])
    (hcalls : U.calls line 0 (before ++ since) =
      inner ++ ⟨.control c, body ++ [Tap.telling true f]⟩ :: openCalls line 0 before)
    (hattached : attached = true) (hparts : Tap.Parts c body (some f))
    (hmute : Tap.Life.Mute ⟨t, U.pending line 0, deeds line 0 (before ++ since)⟩)
    (hsent : Tap.sent (deeds line 0 since) = [.error (.listener f)])
  /-- The call has returned. -/
  | ends {t : Tap σ} {body : List (Tap.Doing α ε)} {fault : Option Fault}
    (shown after : List (Event α ε)) (hreturned : T.Returned U) (htap : U.tap? line 0 = some t)
    (hmute : Tap.Life.Mute ⟨t, U.pending line 0, deeds line 0 (before ++ since)⟩)
    (hsince : since = shown ++ .returned line 0 true :: after)
    (hcalls : openCalls line 0 (before ++ shown) =
      ⟨.control c, body ++ fault.toList.map (Tap.telling attached)⟩ :: openCalls line 0 before)
    (hparts : Tap.Parts c body fault)
    (hsent : Tap.sent (deeds line 0 since) = Tap.lastWord attached fault)

namespace Course

variable {c : Control} {attached : Bool} {p : TapPlan σ α ε}

/-- A turn of the tap in the call. -/
theorem of_turn {turn : Tap.Turn σ α ε} (begun : List (Tap.Deed α ε))
    {doings : List (Tap.Doing α ε)} (htap : S.tap? line 0 = some t)
    (hstep : S.step? P = some (U, events)) (hturned : Turned P S T.stack line 0 turn U)
    (hdeeds : deeds line 0 events = begun ++ turn.deeds)
    (hbegun : begun.foldl Tap.Deed.file (S.calls line 0 (before ++ since)) =
      ⟨.control c, doings⟩ :: openCalls line 0 before)
    (hunsent : Tap.sent begun = []) (hsent : Tap.sent (deeds line 0 since) = [])
    (hexcused : ∀ r ∈ T.pending line 0, r.isExcuse = false)
    (hparting : turn.Parting c attached doings) :
    Course T c line attached before (since ++ events) U := by
  have htapU : U.tap? line 0 = some turn.tap :=
    (tap?_eq hturned.lines line 0).trans
      (setTap_tap?_self (hasPlace_of_tap? (by rw [htap]; rfl)) _)
  have hcalls := calls_turned begun hstep hturned hdeeds hbegun
  have hpending : U.pending line 0 = turn.next.resume?.toList ++ T.pending line 0 :=
    turned_pending hturned
  have hsentU : Tap.sent (deeds line 0 (since ++ events)) = Tap.sent turn.next.deeds := by
    simp [deeds_append, hdeeds, hunsent, hsent]
  have hfocus := hturned.next
  rw [List.append_assoc] at hcalls
  cases hparting with
  | waits hnext hsource hattached hawaits =>
      rw [hnext] at hfocus hsentU
      obtain ⟨⟨guard, hstack⟩, hcall⟩ := hfocus
      refine .waits [] htapU hattached hstack rfl ?_ hawaits ?_ hsentU
      · rw [hcalls, Tap.Record.callsAfter, hnext]
        rfl
      · intro position h c' hnow _
        rw [hcall] at hnow
        cases hnow
        exact hsource
  | tells hnext hdetached hattached hparts hdoings =>
      rw [hnext] at hfocus hsentU hpending
      obtain ⟨⟨guard, hstack⟩, hcall⟩ := hfocus
      refine .tells [] [] htapU hstack rfl (fun _ => due_of_signal hcall) ?_
        hattached hparts ⟨hdetached, ?_⟩ hsentU
      · rw [hcalls, Tap.Record.callsAfter, hnext]
        simp [Tap.Next.resume?, Tap.OpenCall.did, hdoings, hattached]
      · simpa only [hpending, Tap.Next.resume?, Option.toList_some, List.singleton_append,
          List.forall_mem_cons] using ⟨rfl, hexcused⟩
  | @ends body fault hnext hdetached hsilent hparts hdoings =>
      rw [hnext] at hfocus hsentU hpending
      obtain ⟨shown, after, rfl, hshown⟩ := step?_returns hstep turn begun hdeeds hnext hbegun
      refine .ends (since ++ shown) after ⟨hfocus.1, _, hfocus.2⟩ htapU
        ⟨hdetached, ?_⟩ (List.append_assoc ..).symm ?_ hparts ?_
      · simpa [hpending, Tap.Next.resume?] using hexcused
      · rw [← List.append_assoc, hshown, Tap.OpenCall.did, hdoings]
      · rw [hsentU, Tap.lastWord]
        split
        next hattached => rw [hsilent hattached]; rfl
        next => rfl

/-- The call is made. -/
theorem serve (hplan : P.taps = [p]) (htap : T.tap? line 0 = some t) {position : Nat}
    (hfocus : T.focus = .call (.control line position (.tap 0) c))
    (hdue : T.due line 0 = []) (hexcused : ∀ r ∈ T.pending line 0, r.isExcuse = false)
    (hparting : (t.serve (p.listener (T.inside p t)) (.tap 0) (T.isConditional line)
      (.control c)).Parting c t.attached []) (hstep : T.step? P = some (U, events)) :
    Course T c line t.attached before events U := by
  obtain ⟨hturned, hshows⟩ := step_serves hstep (by rw [hplan]; rfl) htap hfocus rfl
  have hcalls : T.calls line 0 before = openCalls line 0 before := by rw [calls, hdue]; rfl
  have hcourse : Course T c line t.attached before ([] ++ events) U := by
    refine of_turn [.received (.control c)] htap hstep hturned hshows.here ?_ rfl rfl hexcused
      hparting
    rw [List.append_nil, ← hcalls]
    rfl
  exact hcourse

/-- The tap waits, and the machine makes a step. -/
theorem step_waits (hcivil : S.Civil P (before ++ since)) (hplan : P.taps = [p])
    (htap : S.tap? line 0 = some t) (hattached : t.attached = attached)
    (hstack : S.stack = above ++ .tap line 0 guard r :: T.stack)
    (habove : above.filterMap (Frame.resume? line 0) = []) {doings : List (Tap.Doing α ε)}
    (hcalls : S.calls line 0 (before ++ since) = ⟨.control c, doings⟩ :: openCalls line 0 before)
    (hawaits : Tap.Awaits c doings r) (hsent : Tap.sent (deeds line 0 since) = [])
    (hexcused : ∀ r ∈ T.pending line 0, r.isExcuse = false)
    (hstep : S.step? P = some (U, events)) :
    Course T c line attached before (since ++ events) U := by
  have hplan' : P.taps[0]? = some p := by rw [hplan]; rfl
  have hpending : S.pending line 0 = r :: T.pending line 0 := by
    rw [State.pending, hstack, List.filterMap_append, habove]
    simp [Frame.resume?, State.pending]
  by_cases hunseen : deeds line 0 events = []
  · obtain ⟨hrests, hsame⟩ := rests_of_step (before ++ since) hcivil.assembled hstep htap hstack
      hunseen
    obtain ⟨above', hstackU, habove'⟩ := hrests.stack
    refine .waits above' (hrests.tap.trans htap) hattached hstackU (habove'.trans habove) ?_
      hawaits ?_ ?_
    · rw [← List.append_assoc, hsame, hcalls]
    · rintro position h c' hfocus rfl
      have hdue := hrests.due
      simp [due, hfocus] at hdue
    · simp [deeds_append, hunseen, hsent]
  · cases step_acts hcivil.assembled (step?_stepped hstep) hplan' htap hunseen with
    | serve hfocus hinput =>
        -- While it waits the tap is not called.
        have hcourteous := hcivil.mannerly line 0 t _ htap ⟨_, hfocus, hinput⟩
        have hwaits := hcourteous.waiting r (by rw [hpending]; rfl) hawaits.waits
        exact absurd hwaits.1 (Nat.lt_irrefl 0)
    | @resume b guard' r' rest hfocus hstack' hturned hdeeds =>
        cases above with
        | cons f above =>
            rw [hstack'] at hstack
            obtain ⟨rfl, -⟩ := List.cons.inj hstack
            simp [Frame.resume?] at habove
        | nil =>
            rw [hstack', List.nil_append, List.cons.injEq] at hstack
            obtain ⟨hframe, rfl⟩ := hstack
            cases hframe
            obtain ⟨p', -, hlived⟩ := hcivil.lived htap
            have hwaits : r ∈ S.pending line 0 := hpending ▸ List.mem_cons_self
            obtain ⟨handle, hsource⟩ :=
              Option.ne_none_iff_exists'.mp (hlived.accounted.source_ne_none hwaits)
            subst hattached
            exact of_turn [] htap hstep hturned hdeeds hcalls rfl hsent hexcused
              (Tap.resume_parting (p.listener _) hsource b hawaits)

/-- The client is told, and the machine makes a step. -/
theorem step_tells (hcivil : S.Civil P (before ++ since)) (hplan : P.taps = [p])
    (htap : S.tap? line 0 = some t)
    (hstack : S.stack = above ++ .tap line 0 guard .leave :: T.stack)
    {inner : List (Tap.OpenCall α ε)} {body : List (Tap.Doing α ε)} {f : Fault}
    (hinner : inner.length = (above.filterMap (Frame.resume? line 0)).length)
    (hcalls : S.calls line 0 (before ++ since) =
      inner ++ ⟨.control c, body ++ [Tap.telling true f]⟩ :: openCalls line 0 before)
    (hattached : attached = true) (hparts : Tap.Parts c body (some f))
    (hmute : Tap.Life.Mute ⟨t, S.pending line 0, deeds line 0 (before ++ since)⟩)
    (hsent : Tap.sent (deeds line 0 since) = [.error (.listener f)])
    (hstep : S.step? P = some (U, events)) :
    Course T c line attached before (since ++ events) U := by
  have hplan' : P.taps[0]? = some p := by rw [hplan]; rfl
  have hstepped := step?_stepped hstep
  obtain ⟨u, htapU, ⟨rfl, hpending, hunseen⟩ | hlife⟩ := hcivil.turn hplan' htap hstepped
  · obtain ⟨hrests, hsame⟩ := rests_of_step (before ++ since) hcivil.assembled hstep htap hstack
      hunseen
    obtain ⟨above', hstackU, habove'⟩ := hrests.stack
    refine .tells above' inner htapU hstackU (hinner.trans (by rw [habove']))
      (fun _ => hrests.due) ?_ hattached hparts
      ⟨hmute.detached, by rw [hpending]; exact hmute.excused⟩ ?_
    · rw [← List.append_assoc, hsame, hcalls]
    · simp [deeds_append, hunseen, hsent]
  · obtain ⟨p', -, hlived⟩ := hcivil.lived htap
    obtain ⟨hmuteU, hsilent⟩ := hmute.step hlived.accounted hlife
    have hseen : deeds line 0 events ≠ [] := by simpa using hlife.deeds_ne
    have hsentU : Tap.sent (deeds line 0 (since ++ events)) = [.error (.listener f)] := by
      have hnone : Tap.sent (deeds line 0 events) = [] := by simpa using hsilent
      rw [deeds_append, Tap.sent_append, hnone, hsent, List.append_nil]
    have hmuteU' :
        Tap.Life.Mute ⟨u, U.pending line 0, deeds line 0 (before ++ (since ++ events))⟩ :=
      ⟨hmuteU.detached, hmuteU.excused⟩
    cases step_acts hcivil.assembled hstepped hplan' htap hseen with
    | @serve _ input hfocus hinput hturned hdeeds =>
        have hafter : U.calls line 0 (before ++ since ++ events) = Tap.Record.callsAfter ⟨input, []⟩
            (S.calls line 0 (before ++ since)) _ :=
          calls_turned [.received input] hstep hturned hdeeds rfl
        rw [hcalls] at hafter
        rw [hstack] at hturned
        obtain ⟨above', inner', hstackU, hinner', hdue, hcallsU⟩ :=
          turned_above hturned hafter hinner
        refine .tells above' inner' htapU hstackU hinner' hdue ?_ hattached hparts hmuteU' hsentU
        rw [← List.append_assoc, hcallsU]
    | @resume b guard' r' rest hfocus hstack' hturned hdeeds =>
        cases above with
        | nil =>
            -- The client has been told, so the call returns.
            rw [hstack', List.nil_append, List.cons.injEq] at hstack
            obtain ⟨hframe, rfl⟩ := hstack
            cases hframe
            obtain rfl : inner = [] := List.length_eq_zero_iff.mp hinner
            obtain ⟨shown, after, rfl, hshown⟩ := step?_returns hstep
              (t.resume (p.listener S.ambient) .leave b) [] hdeeds rfl hcalls
            obtain ⟨hstackU, hback⟩ := hturned.next
            refine .ends (since ++ shown) after ⟨hstackU, _, hback⟩ htapU hmuteU'
              (List.append_assoc ..).symm ?_ hparts ?_
            · rw [← List.append_assoc, hshown, hattached]
              simp [Tap.OpenCall.did, Tap.Turn.doings, Tap.resume, Tap.finish, Tap.reply,
                Tap.Next.doings]
            · rw [hsentU, hattached]
              rfl
        | cons frame above =>
            rw [hstack', List.cons_append, List.cons.injEq] at hstack
            obtain ⟨rfl, rfl⟩ := hstack
            cases inner with
            | nil => simp [Frame.resume?] at hinner
            | cons call inner =>
                have hafter := calls_turned [] hstep hturned hdeeds hcalls
                obtain ⟨above', inner', hstackU, hinner', hdue, hcallsU⟩ :=
                  turned_above hturned hafter (by simpa [Frame.resume?] using hinner)
                refine .tells above' inner' htapU hstackU hinner' hdue ?_ hattached hparts hmuteU'
                  hsentU
                rw [← List.append_assoc, hcallsU]

/-- A course goes on with every step of the machine until the call has returned. -/
theorem step (h : Course T c line attached before since S) (hcivil : S.Civil P (before ++ since))
    (hplan : P.taps = [p]) (hexcused : ∀ r ∈ T.pending line 0, r.isExcuse = false)
    (hunreturned : ¬T.Returned S) (hstep : S.step? P = some (U, events)) :
    Course T c line attached before (since ++ events) U := by
  cases h with
  | waits above htap hattached hstack habove hcalls hawaits huse hsent =>
      exact step_waits hcivil hplan htap hattached hstack habove hcalls hawaits hsent hexcused hstep
  | tells above inner htap hstack hinner hdue hcalls hattached hparts hmute hsent =>
      exact step_tells hcivil hplan htap hstack hinner hcalls hattached hparts hmute hsent hstep
  | ends shown after hreturned => exact absurd hreturned hunreturned

/-- In a move of the outside the call stands still. -/
theorem move {m : Move α ε} (h : Course T c line attached before since S)
    (hassembled : S.Assembled P)
    (hmove : Moved P S U m) : Course T c line attached before since U := by
  obtain ⟨b, hturn⟩ := move_turn hmove
  cases h with
  | waits above htap hattached hstack habove hcalls hawaits huse hsent =>
      obtain ⟨hrests, hsame⟩ := rests_of_move (before ++ since) hassembled hmove htap hstack
      obtain ⟨above', hstackU, habove'⟩ := hrests.stack
      refine .waits above' (hrests.tap.trans htap) hattached hstackU (habove'.trans habove)
        (hsame.trans hcalls) hawaits ?_ hsent
      rintro position h c' hfocus rfl
      have hdue := hrests.due
      simp [due, hfocus] at hdue
  | tells above inner htap hstack hinner hdue hcalls hattached hparts hmute hsent =>
      obtain ⟨hrests, hsame⟩ := rests_of_move (before ++ since) hassembled hmove htap hstack
      obtain ⟨above', hstackU, habove'⟩ := hrests.stack
      exact .tells above' inner (hrests.tap.trans htap) hstackU (hinner.trans (by rw [habove']))
        (fun _ => hrests.due) (hsame.trans hcalls) hattached hparts
        ⟨hmute.detached, by rw [hrests.pending]; exact hmute.excused⟩ hsent
  | ends shown after hreturned =>
      obtain ⟨-, b', hback⟩ := hreturned
      rw [hturn] at hback
      cases hback

/-- A call by which the client is let go takes its course. -/
theorem of_meanwhile {during : List (Entry α ε)} (hcivil : T.Civil P before) (hplan : P.taps = [p])
    (htap : T.tap? line 0 = some t) {position : Nat}
    (hfocus : T.focus = .call (.control line position (.tap 0) c)) (hdue : T.due line 0 = [])
    (hexcused : ∀ r ∈ T.pending line 0, r.isExcuse = false)
    (hparting : (t.serve (p.listener (T.inside p t)) (.tap 0) (T.isConditional line)
      (.control c)).Parting c t.attached []) (h : Meanwhile P T during U) :
    during = [] ∧ U = T ∨ Course T c line t.attached before (happened during) U := by
  induction h with
  | refl => exact .inl ⟨rfl, rfl⟩
  | @step during S U events hduring hunreturned hstep ih =>
      right
      rw [happened_append, happened_map_event]
      rcases ih with ⟨rfl, rfl⟩ | hcourse
      · exact serve hplan htap hfocus hdue hexcused hparting hstep
      · exact hcourse.step (hcivil.play hduring.play) hplan hexcused hunreturned hstep
  | @move during S U m hduring hallows hmove ih =>
      right
      rw [happened_append, happened_move, List.append_nil]
      have hmoved := move?_moved hmove
      rcases ih with ⟨rfl, rfl⟩ | hcourse
      · obtain ⟨b, hturn⟩ := move_turn hmoved
        rw [hfocus] at hturn
        cases hturn
      · exact hcourse.move (hcivil.play hduring.play).assembled hmoved

end Course

end State

end Wiretap

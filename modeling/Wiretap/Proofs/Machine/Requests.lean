import Wiretap.Proofs.Machine.Meanwhile
import Wiretap.Proofs.Tap.Requests

/-!
# Requests along a line

In a play the first receiver of a line asks its handle for exactly what its listener has granted, in
order, and each request once. Between the turn in which a request is granted and its use nothing
else happens, so however calls nest, the two sequences are never apart by more than that one.
-/

namespace Wiretap

variable {K : Kinds} {σ α ε : Type}

/-- The number of items that the first receiver of a line asks its handle for. -/
def Event.forwarded? (line : Nat) : Event α ε → Option UInt64
  | .controlled l p c => if l = line ∧ p = 0 then c.asked? else none
  | _ => none

/-- The requests that the first receiver of a line has made of its handle, in order. -/
def forwarded (line : Nat) (events : List (Event α ε)) : List UInt64 :=
  events.filterMap (Event.forwarded? line)

theorem forwarded_append (line : Nat) (first second : List (Event α ε)) :
    forwarded line (first ++ second) = forwarded line first ++ forwarded line second :=
  List.filterMap_append

theorem Useless.forwarded {events : List (Event α ε)} (h : Useless events) (line : Nat) :
    forwarded line events = [] := by
  refine List.filterMap_eq_nil_iff.mpr fun e he => ?_
  have huse := h e he
  cases e with
  | controlled => cases huse
  | _ => rfl

/-- The uses of a handle at the end of a turn that ask for items. -/
theorem Tap.Turn.Forwards.uses {asked : Option UInt64} {turn : Tap.Turn σ α ε}
    (h : turn.Forwards asked) :
    turn.next.uses.filterMap Control.asked? = Tap.granting turn.deeds := by
  have hpassed := h.passed
  cases hnext : turn.next with
  | up handle c r =>
      rw [hnext] at hpassed
      cases c with
      | request n => exact hpassed.2.symm
      | cancel => exact hpassed.symm
  | _ =>
      rw [hnext] at hpassed
      exact hpassed.symm

namespace State

variable {P : Plan σ α ε} {S U : State σ α ε} {line : Nat} {before events : List (Event α ε)}

/-- What the tap next to the source is asked for, what its listener grants, and what it asks its
handle for agree. -/
structure Forwards (S : State σ α ε) (events : List (Event α ε)) (line : Nat) : Prop where
  /-- Every request for at least one item has been weighed. -/
  weighed : (Tap.weighed (deeds line 0 events)).map Prod.fst =
    (Tap.requested (deeds line 0 events)).filter Demand.isPositive
  /-- What has been granted has been asked for, or will be next. -/
  forwarded : Wiretap.forwarded line events ++ (S.due line 0).filterMap Control.asked? =
    Tap.granting (deeds line 0 events)
  /-- The handle that is asked is the one that the source gave. -/
  handle : ∀ h n, S.focus = .call (.control line 0 h (.request n)) →
    Tap.firstHandle (deeds line 0 events) = some h

/-- In a step the first receiver of a line uses its handle as that was due. -/
theorem step?_forwarded (hstep : S.step? P = some (U, events)) (line : Nat) :
    Wiretap.forwarded line events = (S.due line 0).filterMap Control.asked? := by
  rcases step?_uses hstep with ⟨l, p, h, c, later, hfocus, rfl, hlater⟩ | ⟨hnone, huseless⟩
  · have hrest := hlater.forwarded line
    unfold Wiretap.forwarded at hrest ⊢
    rw [due, hfocus]
    by_cases hhere : l = line ∧ p = 0
    · cases c <;> simp [Event.forwarded?, hhere, Control.asked?, hrest]
    · simp [Event.forwarded?, hhere, hrest]
  · rw [huseless.forwarded line]
    unfold due
    split
    next l p h c hfocus => exact absurd hfocus (hnone l p h c)
    next => rfl

namespace Forwards

/-- A step in which the tap is asked for nothing, and neither weighs nor asks for anything. -/
theorem rest (h : S.Forwards before line) (hstep : S.step? P = some (U, events))
    (hrequested : Tap.requested (deeds line 0 events) = [])
    (hweighed : Tap.weighed (deeds line 0 events) = []) (hdue : U.due line 0 = []) :
    U.Forwards (before ++ events) line where
  weighed := by simp [hrequested, hweighed, h.weighed]
  forwarded := by
    have hgranting : Tap.granting (deeds line 0 events) = [] := by rw [Tap.granting, hweighed]; rfl
    rw [forwarded_append, step?_forwarded hstep, h.forwarded, hdue, deeds_append,
      Tap.granting_append, hgranting]
    rfl
  handle handle n hfocus := by simp [due, hfocus] at hdue

/-- A step in which the tap takes a turn, called with what comes before it or going on. -/
theorem turn (h : S.Forwards before line) (hcivil : U.Civil P (before ++ events))
    (hstep : S.step? P = some (U, events)) (hplace : S.HasPlace line 0)
    {rest : List (Frame α ε)} {turn : Tap.Turn σ α ε} (begun : List (Tap.Deed α ε))
    (hturned : Turned P S rest line 0 turn U) (hdeeds : deeds line 0 events = begun ++ turn.deeds)
    (asked : Option UInt64) (hasked : Tap.requested begun = asked.toList)
    (hbegun : Tap.weighed begun = []) (hforwards : turn.Forwards asked) :
    U.Forwards (before ++ events) line where
  weighed := by
    simp [hdeeds, hasked, hbegun, h.weighed, hforwards.weighed, Tap.Turn.requested_deeds]
  forwarded := by
    have hgranting : Tap.granting (deeds line 0 events) = Tap.granting turn.deeds := by
      simp [hdeeds, Tap.granting, hbegun]
    rw [forwarded_append, step?_forwarded hstep, h.forwarded, deeds_append, Tap.granting_append,
      hgranting, due_of_turned hturned, hforwards.uses]
  handle handle n hfocus := by
    have hnext := hturned.next
    have hpassed := hforwards.passed
    have htap : U.tap? line 0 = some turn.tap :=
      (tap?_eq hturned.lines line 0).trans (setTap_tap?_self hplace _)
    obtain ⟨p, -, hlived⟩ := hcivil.lived htap
    cases hturn : turn.next with
    | answer b =>
        rw [hturn] at hnext
        rw [hnext.2] at hfocus
        cases hfocus
    | down s r =>
        rw [hturn] at hnext
        have hdue : U.due line 0 = [] := due_of_signal hnext.2
        simp [due, hfocus] at hdue
    | up handle' c r =>
        rw [hturn] at hnext hpassed
        rw [hnext.2] at hfocus
        cases hfocus
        exact hlived.source_eq.symm.trans hpassed.1

theorem step (h : S.Forwards before line) (hcivil : S.Civil P before)
    (hstep : S.step? P = some (U, events)) : U.Forwards (before ++ events) line := by
  have hstepped := step?_stepped hstep
  have hquiet : deeds line 0 events = [] → U.Forwards (before ++ events) line := fun hunseen =>
    h.rest hstep (by rw [hunseen]; rfl) (by rw [hunseen]; rfl) (step_due hstepped fun _ => hunseen)
  cases hthen : S.tap? line 0 with
  | none =>
      have hdue : U.due line 0 = [] := due_of_vacant hstepped hthen
      cases step_progress hcivil.assembled hstepped line 0 with
      | same htap hpending hunseen => exact hquiet hunseen
      | turn hplan htap =>
          rw [hthen] at htap
          cases htap
      | born hfocus hplan hnow hpending hdeeds =>
          exact h.rest hstep (by rw [hdeeds]; rfl) (by rw [hdeeds]; rfl) hdue
      | stillborn hfocus htap hpending hfails hdeeds =>
          refine h.rest hstep ?_ ?_ hdue <;> rw [hdeeds] <;> cases hfails <;> rfl
  | some t =>
      obtain ⟨p, hplan, hlived⟩ := hcivil.lived hthen
      have hplace : S.HasPlace line 0 := hasPlace_of_tap? (by rw [hthen]; rfl)
      have hnext := hcivil.step hstepped
      by_cases hunseen : deeds line 0 events = []
      · exact hquiet hunseen
      · cases step_acts hcivil.assembled hstepped hplan hthen hunseen with
        | @serve c input hfocus hinput hturned hdeeds =>
            have hcourteous := hcivil.mannerly line 0 t input hthen ⟨c, hfocus, hinput⟩
            refine h.turn hnext hstep hplace [.received input] hturned hdeeds input.asked? ?_ rfl
              (Tap.serve_forwards (p.listener _) _ _ hcourteous)
            cases hasked : input.asked? <;> simp [Tap.requested, Tap.Deed.asked?, hasked]
        | @resume b guard r rest hfocus hstack hturned hdeeds =>
            have hwaits : r ∈ S.pending line 0 := by simp [State.pending, hstack, Frame.resume?]
            have hsource : t.source ≠ none := hlived.accounted.source_ne_none hwaits
            exact h.turn hnext hstep hplace [] hturned hdeeds none rfl rfl
              (Tap.resume_forwards (p.listener _) b hsource)

theorem move {m : Move α ε} (h : S.Forwards before line) (hpositive : 0 < P.depth)
    (hmove : Moved P S U m) : U.Forwards before line where
  weighed := h.weighed
  forwarded := by
    obtain ⟨b, hturn⟩ := move_turn hmove
    rw [move_due hmove hpositive, ← h.forwarded, due_of_outside hturn]
  handle handle n hfocus := by
    have hdue : U.due line 0 = [] := move_due hmove hpositive
    simp [due, hfocus] at hdue

theorem play {ambient : Context} {history : List (Entry α ε)} (hpositive : 0 < P.depth)
    (hplay : Play P (.start P ambient) history U) : U.Forwards (happened history) line := by
  induction hplay with
  | refl => exact ⟨rfl, rfl, nofun⟩
  | step hplay hstep ih =>
      have hcivil := (State.Civil.start ambient).play hplay
      rw [happened_append, happened_map_event]
      exact ih.step (by simpa using hcivil) hstep
  | move _ _ hmove ih =>
      rw [happened_append, happened_move, List.append_nil]
      exact ih.move hpositive (move?_moved hmove)

end Forwards

/-! ## Requests for nothing -/

theorem setTap_self {t : Tap σ} {place : Nat} (htap : S.tap? line place = some t) :
    S.setTap line place t = S := by
  obtain ⟨l, hl, ht⟩ := Option.bind_eq_some_iff.mp htap
  obtain ⟨hlt, rfl⟩ := List.getElem?_eq_some_iff.mp hl
  obtain ⟨hinside, hplace⟩ := List.getElem?_eq_some_iff.mp (Option.join_eq_some_iff.mp ht)
  have hsame : S.lines[line].setTap place t = S.lines[line] := by
    rw [Line.setTap, ← hplace, List.set_getElem_self]
  have hlines : S.lines.modify line (·.setTap place t) = S.lines := by
    rw [List.modify_eq_set_getElem?, hl]
    simp [hsame]
  rw [setTap, modifyLine, hlines]

/-- A request for no items is dropped as a violation, and nothing else happens. -/
theorem step?_request_nothing {p : TapPlan σ α ε} {t : Tap σ} {place position : Nat}
    (hplan : P.taps[place]? = some p) (htap : S.tap? line place = some t)
    (hfocus : S.focus = .call (.control line position (.tap place) (.request 0))) :
    ∃ inside, S.step? P = some ({ S with focus := .back true },
      [.controlled line position (.request 0), .received line place (.control (.request 0)),
        .entered line place inside,
        .acted line place inside (.droppedError (.violation (.nonPositiveRequest 0))),
        .left line place S.ambient, .returned line place true]) := by
  have hsame := setTap_self
    (S := { S with ambient := (p.scope.install t.context S.ambient).1 }) htap
  have hserve : S.served p t line place (.control (.request 0)) =
      t.dropError (.violation (.nonPositiveRequest 0)) := rfl
  refine ⟨(p.scope.install t.context S.ambient).1, ?_⟩
  rw [step?, hfocus]
  simp only [make, control, callTap, hplan, htap, hserve, settle, Tap.dropError, Tap.Turn.after,
    Tap.finish, Tap.reply, hsame, Scope.release_install]
  rfl

end State

end Wiretap

import Wiretap.Proofs.Machine.Meanwhile

/-!
# How calls unwind

Every call that waits takes back what its scope has installed when it returns. So as long as nobody
outside touches the ambient context, what it will be once the calls above some frames have returned
never changes: it is what it was when the first of these calls was made.
-/

namespace Wiretap

variable {K : Kinds} {σ α ε : Type}

/-- The ambient context once these calls have returned, the innermost one first. -/
def unwind : List (Frame α ε) → Context → Context
  | [], ambient => ambient
  | f :: rest, ambient => unwind rest (f.release ambient)

theorem unwind_append (above rest : List (Frame α ε)) (ambient : Context) :
    unwind (above ++ rest) ambient = unwind rest (unwind above ambient) := by
  induction above generalizing ambient with
  | nil => rfl
  | cons f above ih => exact ih _

namespace State

variable {P : Plan σ α ε} {S T U : State σ α ε} {events : List (Event α ε)}
  {base : List (Frame α ε)} {ambient : Context}

/-- Some calls wait above the frames `base`, and once they have returned the ambient context is
this one. -/
def Rewinds (S : State σ α ε) (base : List (Frame α ε)) (ambient : Context) : Prop :=
  ∃ above, S.stack = above ++ base ∧ unwind above S.ambient = ambient

theorem Covers.rewinds (h : Covers P U base ambient) : U.Rewinds base ambient := by
  cases h with
  | bare hstack hambient => exact ⟨[], hstack, hambient⟩
  | @frame f hstack hambient => exact ⟨[f], hstack, hambient⟩

theorem settle_rewinds (line place : Nat) (guard : Guard) (turn : Tap.Turn σ α ε) :
    (settle P S line place guard turn).1.Rewinds S.stack (guard.release S.ambient) := by
  unfold settle
  cases turn.next with
  | answer b => exact ⟨[], rfl, rfl⟩
  | down s r => exact ⟨[.tap line place guard r], rfl, rfl⟩
  | up h c r => exact ⟨[.tap line place guard r], rfl, rfl⟩

/-- A frame goes on. -/
theorem resume_rewinds (hassembled : S.Assembled P) {f : Frame α ε} {rest : List (Frame α ε)}
    (b : Bool) (hstack : S.stack = f :: rest) :
    (resume P { S with stack := rest } b f).1.Rewinds rest (f.release S.ambient) := by
  cases f with
  | tap line place guard r =>
      have hthere := hassembled.waiting line place guard r (hstack ▸ List.mem_cons_self)
      obtain ⟨p, hplan⟩ := hassembled.planned hthere
      obtain ⟨t, htap⟩ := Option.isSome_iff_exists.mp hthere
      have htap' : ({ S with stack := rest } : State σ α ε).tap? line place = some t := htap
      simp only [resume, resumeTap, hplan, htap']
      exact settle_rewinds (S := { S with stack := rest }) line place guard _
  | emitting line n last =>
      exact (resumeEmission_covers (P := P) (S := { S with stack := rest }) line n last b).rewinds
  | outside c => exact ⟨[.outside c], rfl, rfl⟩
  | _ => exact ⟨[], rfl, rfl⟩

/-- What a step does to the calls that wait and to what they will leave. -/
inductive Rewinding (S U : State σ α ε) : Prop
  /-- A call is made. -/
  | made {c : Call α ε} (hfocus : S.focus = .call c) (h : U.Rewinds S.stack S.ambient)
  /-- A frame goes on, or the outside gets the turn in a callback. -/
  | returned {b : Bool} {f : Frame α ε} {rest : List (Frame α ε)} (hfocus : S.focus = .back b)
    (hstack : S.stack = f :: rest) (h : U.Rewinds rest (f.release S.ambient))
  /-- Nobody waits, and the outside gets the turn. -/
  | idle {b : Bool} (hfocus : S.focus = .back b) (hstack : S.stack = []) (hnow : U.stack = [])
    (hambient : U.ambient = S.ambient)

theorem step?_rewinding (hassembled : S.Assembled P) (hstep : S.step? P = some (U, events)) :
    Rewinding S U := by
  have hshift := step?_shift hassembled hstep
  unfold step? at hstep
  split at hstep
  · cases hstep
  next c hfocus =>
    cases hshift with
    | made hfocus hcovers => exact .made hfocus hcovers.rewinds
    | returned hback =>
        rw [hfocus] at hback
        cases hback
    | handedOver hback =>
        rw [hfocus] at hback
        cases hback
  next b hfocus =>
    split at hstep
    next hstack =>
      cases hstep
      exact .idle hfocus hstack hstack rfl
    next f rest hstack =>
      have hrewinds := resume_rewinds hassembled b hstack
      rw [Option.some.inj hstep] at hrewinds
      exact .returned hfocus hstack hrewinds

end State

namespace Meanwhile

variable {P : Plan σ α ε} {S U : State σ α ε} {history : List (Entry α ε)} {c : Call α ε}

/-- While a call lasts, what it will leave is the ambient context that it was made with, and the
outside has the turn only in a callback. -/
theorem rewinds (hassembled : S.Assembled P) (hfocus : S.focus = .call c)
    (h : Meanwhile P S history U) :
    U.Rewinds S.stack S.ambient ∧ (U.stack = S.stack → ∀ b, U.focus ≠ .outside b) := by
  induction h with
  | refl => exact ⟨⟨[], rfl, rfl⟩, fun _ b => by simp [hfocus]⟩
  | @step history T U events hplay hunreturned hstep ih =>
      obtain ⟨⟨above, hstack, hunwind⟩, -⟩ := ih
      constructor
      · cases State.step?_rewinding (hassembled.run hplay.play.run) hstep with
        | made _ hnow =>
            obtain ⟨above', hstackU, hunwindU⟩ := hnow
            refine ⟨above' ++ above, by rw [hstackU, hstack, List.append_assoc], ?_⟩
            rw [unwind_append, hunwindU, hunwind]
        | @returned b f rest hback hthen hnow =>
            cases above with
            | nil => exact absurd ⟨hstack, b, hback⟩ hunreturned
            | cons f above =>
                rw [hthen, List.cons_append, List.cons.injEq] at hstack
                obtain ⟨rfl, rfl⟩ := hstack
                obtain ⟨above', hstackU, hunwindU⟩ := hnow
                refine ⟨above' ++ above, by rw [hstackU, List.append_assoc], ?_⟩
                rw [unwind_append, hunwindU]
                exact hunwind
        | idle hback hnone =>
            rw [hnone] at hstack
            obtain ⟨rfl, hbase⟩ := List.append_eq_nil_iff.mp hstack.symm
            exact absurd ⟨hnone.trans hbase.symm, _, hback⟩ hunreturned
      · intro hsame b hnow
        rcases State.step_turn (State.step?_stepped hstep) hnow with ⟨c, hpushed⟩ |
          ⟨⟨b', hback⟩, hkept, -⟩
        · have hlength := congrArg List.length (hpushed.symm.trans hsame)
          rw [hstack, List.length_cons, List.length_append] at hlength
          omega
        · exact hunreturned ⟨hkept.symm.trans hsame, b', hback⟩
  | @move history T U m hplay hallows hmove ih =>
      obtain ⟨⟨above, hstack, hunwind⟩, hnone⟩ := ih
      have hambient := State.move?_ambient hmove
      have hcalls : U.stack = T.stack → (∃ c, U.focus = .call c) →
          U.Rewinds S.stack S.ambient ∧ (U.stack = S.stack → ∀ b, U.focus ≠ .outside b) := by
        rintro hsame ⟨c, hcall⟩
        exact ⟨⟨above, hsame.trans hstack, by rw [hambient, hunwind]⟩, fun _ b => by simp [hcall]⟩
      cases State.move?_moved hmove with
      | subscribe hturn hlines hsame hnext => exact hcalls hsame ⟨_, hnext⟩
      | signal hturn hlines hsame hnext => exact hcalls hsame ⟨_, hnext⟩
      | control hturn hreceived hlines hsame hnext => exact hcalls hsame ⟨_, hnext⟩
      | direct hturn hlines hsame hnext => exact hcalls hsame ⟨_, hnext⟩
      | answer hturn hthen hlines hrest hnext =>
          cases above with
          | nil => exact absurd hturn (hnone hstack _)
          | cons f above =>
              rw [hthen, List.cons_append, List.cons.injEq] at hstack
              obtain ⟨rfl, rfl⟩ := hstack
              exact ⟨⟨above, hrest, by rw [hambient]; exact hunwind⟩, fun _ b => by simp [hnext]⟩

/-- A call that returns leaves the ambient context that it was made with. -/
theorem restores (hassembled : S.Assembled P) (hfocus : S.focus = .call c)
    (h : Meanwhile P S history U) (hreturned : S.Returned U) : U.ambient = S.ambient := by
  obtain ⟨⟨above, hstack, hunwind⟩, -⟩ := h.rewinds hassembled hfocus
  obtain rfl : above = [] := List.self_eq_append_left.mp (hreturned.1.symm.trans hstack)
  exact hunwind

/-- A call has returned when as many calls wait as when it was made. -/
theorem returned (hassembled : S.Assembled P) (hfocus : S.focus = .call c)
    (h : Meanwhile P S history U) (hlength : U.stack.length = S.stack.length)
    (hback : U.focus.isBack = true) : S.Returned U := by
  obtain ⟨⟨above, hstack, -⟩, -⟩ := h.rewinds hassembled hfocus
  obtain rfl : above = [] := by
    rw [hstack, List.length_append] at hlength
    exact List.length_eq_zero_iff.mp (by omega)
  exact ⟨hstack, Focus.isBack_iff.mp hback⟩

end Meanwhile

end Wiretap

import Wiretap.Proofs.Machine.Lives

/-!
# What has been joined

Receivers are joined to what is before them and listeners are created in the calls for that, and in
no others. So once the first receiver of a line has been joined to the source, all taps of the line
are there.
-/

namespace Wiretap

variable {K : Kinds} {σ α ε : Type}

/-- Is a receiver joined, or a listener created? -/
def Event.isAssembly : Event α ε → Bool
  | .joined .. | .created .. => true
  | _ => false

/-- Nothing is assembled. -/
def Unassembling (events : List (Event α ε)) : Prop := ∀ e ∈ events, e.isAssembly = false

theorem unassembling_nil : Unassembling ([] : List (Event α ε)) :=
  fun _ he => (List.not_mem_nil he).elim

theorem Unassembling.cons {e : Event α ε} {events : List (Event α ε)} (he : e.isAssembly = false)
    (h : Unassembling events) : Unassembling (e :: events) := by
  intro e' he'
  rcases List.mem_cons.mp he' with rfl | he'
  · exact he
  · exact h e' he'

theorem Unassembling.append {events later : List (Event α ε)} (h : Unassembling events)
    (hlater : Unassembling later) : Unassembling (events ++ later) := by
  intro e he
  rcases List.mem_append.mp he with he | he
  · exact h e he
  · exact hlater e he

namespace State

variable {P : Plan σ α ε} {S U : State σ α ε} {line place : Nat} {events : List (Event α ε)}

theorem settle_unassembling (guard : Guard) (turn : Tap.Turn σ α ε) :
    Unassembling (settle P S line place guard turn).2 := by
  have hacts : Unassembling
      (turn.acts.map (.acted line place S.ambient : Tap.Act α ε → Event α ε)) := by
    intro e he
    obtain ⟨act, -, rfl⟩ := List.mem_map.mp he
    rfl
  unfold settle
  cases turn.next with
  | answer b => exact hacts.append (.cons rfl (.cons rfl unassembling_nil))
  | down s r => exact hacts.append (.cons rfl unassembling_nil)
  | up h c r => exact hacts

theorem callTap_unassembling (input : Tap.Input α ε) :
    Unassembling (callTap P S line place input).2 := by
  unfold callTap
  split
  · exact .cons rfl (.cons rfl (settle_unassembling _ _))
  · exact unassembling_nil

theorem joinSource_unassembling (line : Nat) : Unassembling (joinSource P S line).2 := by
  unfold joinSource
  split
  · exact unassembling_nil
  · exact unassembling_nil
  · exact .cons rfl unassembling_nil
  · split <;> exact .cons rfl unassembling_nil

theorem controlEmission_unassembling (c : Control) :
    Unassembling (controlEmission S line c).2 := by
  unfold controlEmission
  split
  · split
    · exact unassembling_nil
    · exact .cons rfl unassembling_nil
  · exact unassembling_nil
  · exact unassembling_nil

theorem emit_unassembling (n : UInt64) : Unassembling (emit P S line n).2 := by
  unfold emit
  split
  · split
    · exact unassembling_nil
    · dsimp only
      split <;> exact unassembling_nil
    · split
      · exact unassembling_nil
      · exact .cons rfl unassembling_nil
  · exact unassembling_nil

theorem make_unassembling {c : Call α ε}
    (hc : ∀ line position context, c ≠ .join line position context) :
    Unassembling (make P S c).2 := by
  cases c with
  | join line position context => exact absurd rfl (hc line position context)
  | tap line place s => exact callTap_unassembling (.signal s)
  | client line s => exact .cons rfl unassembling_nil
  | control line position h c =>
      apply Unassembling.cons rfl
      cases h with
      | empty => exact unassembling_nil
      | emission => exact controlEmission_unassembling c
      | tap place => exact callTap_unassembling (.control c)
      | external id => exact .cons rfl unassembling_nil
  | emit line n => exact emit_unassembling n

theorem resumeTap_unassembling (guard : Guard) (r : Tap.Resume α ε) (b : Bool) :
    Unassembling (resumeTap P S line place guard r b).2 := by
  unfold resumeTap
  split
  · exact settle_unassembling guard _
  · exact unassembling_nil

theorem resume_unassembling (b : Bool) (f : Frame α ε) : Unassembling (resume P S b f).2 := by
  cases f with
  | tap line place guard r => exact resumeTap_unassembling guard r b
  | joining line place guard => exact .cons rfl unassembling_nil
  | _ => exact unassembling_nil

theorem step?_unassembling (hstep : S.step? P = some (U, events))
    (hjoin : ∀ line position context, S.focus ≠ .call (.join line position context)) :
    Unassembling events := by
  unfold step? at hstep
  split at hstep
  · cases hstep
  next c hfocus =>
    obtain ⟨-, rfl⟩ := Prod.mk.inj (Option.some.inj hstep)
    refine make_unassembling fun line position context heq => ?_
    exact hjoin line position context (heq ▸ hfocus)
  next b hfocus =>
    split at hstep
    · cases hstep
      exact unassembling_nil
    · obtain ⟨-, rfl⟩ := Prod.mk.inj (Option.some.inj hstep)
      exact resume_unassembling b _

/-- The first receiver of a line is joined to the source, and nothing else is assembled. -/
theorem step?_join_source {context : Context} (hstep : S.step? P = some (U, events))
    (hfocus : S.focus = .call (.join line 0 context)) :
    ∃ later, events = .joined line 0 context :: later ∧ Unassembling later := by
  simp only [step?, hfocus, make, join, Option.some.injEq, Prod.mk.injEq] at hstep
  exact ⟨_, hstep.2.symm, joinSource_unassembling line⟩

theorem setUpTap_joined (context : Context) (l q : Nat) (c : Context) :
    .joined l q c ∉ (setUpTap P S line place context).2 := by
  unfold setUpTap
  split
  · simp
  · dsimp only
    split
    · simp [refuse]
    · split <;> simp [refuse]

/-- What is joined in a step was to be joined. -/
theorem step?_joined (hstep : S.step? P = some (U, events)) {position : Nat} {context : Context}
    (hjoined : .joined line position context ∈ events) :
    S.focus = .call (.join line position context) := by
  by_cases hjoin : ∃ l q c, S.focus = .call (.join l q c)
  · obtain ⟨l, q, c, hfocus⟩ := hjoin
    have hevents : ∃ later, events = .joined l q c :: later ∧
        .joined line position context ∉ later := by
      cases q with
      | zero =>
          obtain ⟨later, hevents, hlater⟩ := step?_join_source hstep hfocus
          exact ⟨later, hevents, fun hmem => by cases hlater _ hmem⟩
      | succ place =>
          simp only [step?, hfocus, make, join, Option.some.injEq, Prod.mk.injEq] at hstep
          exact ⟨_, hstep.2.symm, setUpTap_joined _ _ _ _⟩
    obtain ⟨later, rfl, hlater⟩ := hevents
    rcases List.mem_cons.mp hjoined with heq | hmem
    · cases heq
      exact hfocus
    · exact absurd hmem hlater
  · have hevents := step?_unassembling hstep fun l q c hfocus => hjoin ⟨l, q, c, hfocus⟩
    cases hevents _ hjoined

/-- A move changes no tap. -/
theorem move_tap? {m : Move α ε} (hmove : Moved P S U m) (line place : Nat) :
    U.tap? line place = S.tap? line place := by
  cases hmove with
  | subscribe hturn hlines hstack =>
      exact (tap?_eq hlines line place).trans (addLine_tap? _ line place)
  | signal hturn hlines => exact tap?_eq hlines line place
  | control hturn hreceived hlines => exact tap?_eq hlines line place
  | direct hturn hlines => exact tap?_eq hlines line place
  | answer hturn hstack hlines => exact tap?_eq hlines line place

theorem step_there (hassembled : S.Assembled P) (hstep : Stepped P S U events)
    (h : (S.tap? line place).isSome = true) : (U.tap? line place).isSome = true := by
  rcases step_progress hassembled hstep line place with
    ⟨hsame, -, -⟩ | ⟨-, -, hnow, -⟩ | ⟨-, -, hnow, -, -⟩ | ⟨-, hsame, -, -, -⟩
  · rwa [hsame]
  · simp [hnow]
  · simp [hnow]
  · rwa [hsame]

end State

/-- Once the first receiver of a line has been joined to the source, all taps of the line are
there. -/
theorem Run.joined_there {P : Plan σ α ε} {S U : State σ α ε} {history : List (Entry α ε)}
    (hassembled : S.Assembled P) (hrun : Run P S history U) {line : Nat} {context : Context}
    (hjoined : .joined line 0 context ∈ happened history) {place : Nat} (hplace : place < P.depth) :
    (U.tap? line place).isSome = true := by
  induction hrun with
  | refl => cases hjoined
  | step hrun hstep ih =>
      have hthen := hassembled.run hrun
      have hstepped := State.step?_stepped hstep
      rw [happened_append, happened_map_event] at hjoined
      rcases List.mem_append.mp hjoined with hjoined | hjoined
      · exact State.step_there hthen hstepped (ih hjoined)
      · have hjoining := hthen.joining _ _ _ (State.step?_joined hstep hjoined)
        exact State.step_there hthen hstepped (hjoining.behind place (Nat.zero_le place) hplace)
  | move hrun hmove ih =>
      rw [happened_append, happened_move, List.append_nil] at hjoined
      rw [State.move_tap? (State.move?_moved hmove)]
      exact ih hjoined

end Wiretap

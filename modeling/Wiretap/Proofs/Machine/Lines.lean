import Wiretap.Proofs.Machine.Steps

/-!
# Lines

The tap at a place, the handles of a client and whether it can refuse items are read off the lines
of a state. What each kind of step leaves of them is said here once.
-/

namespace Wiretap

variable {K : Kinds} {σ α ε : Type}

namespace State

variable {S U : State σ α ε} {line place : Nat}

/-- The line has a place for a tap. -/
def HasPlace (S : State σ α ε) (line place : Nat) : Prop :=
  ∃ l ∈ S.lines[line]?, place < l.taps.length

theorem hasPlace_of_tap? (h : (S.tap? line place).isSome = true) : S.HasPlace line place := by
  obtain ⟨t, ht⟩ := Option.isSome_iff_exists.mp h
  unfold tap? at ht
  obtain ⟨l, hl, hplace⟩ := Option.bind_eq_some_iff.mp ht
  refine ⟨l, hl, ?_⟩
  unfold Line.tap? at hplace
  by_contra hlong
  rw [List.getElem?_eq_none (Nat.not_lt.mp hlong)] at hplace
  cases hplace

theorem tap?_eq (hlines : U.lines = S.lines) (line place : Nat) :
    U.tap? line place = S.tap? line place := by
  rw [tap?, tap?, hlines]

theorem isConditional_eq (hlines : U.lines = S.lines) (line : Nat) :
    U.isConditional line = S.isConditional line := by
  rw [isConditional, isConditional, hlines]

/-! ## Emissions -/

theorem getElem?_bare (h : U.lines.map Line.bare = S.lines.map Line.bare) (line : Nat) :
    (U.lines[line]?).map Line.bare = (S.lines[line]?).map Line.bare := by
  rw [← List.getElem?_map, ← List.getElem?_map, h]

theorem length_of_bare (h : U.lines.map Line.bare = S.lines.map Line.bare) :
    U.lines.length = S.lines.length := by
  simpa using congrArg List.length h

theorem bind_of_bare {β : Type} (h : U.lines.map Line.bare = S.lines.map Line.bare) (line : Nat)
    {f : Line σ α → Option β} (hf : ∀ l, f l.bare = f l) :
    (U.lines[line]?).bind f = (S.lines[line]?).bind f := by
  have hline := getElem?_bare h line
  cases hU : U.lines[line]? with
  | none =>
      cases hS : S.lines[line]? with
      | none => rfl
      | some l => simp [hU, hS] at hline
  | some l =>
      cases hS : S.lines[line]? with
      | none => simp [hU, hS] at hline
      | some l' =>
          simp only [hU, hS, Option.map_some, Option.some.injEq] at hline
          rw [Option.bind_some, Option.bind_some, ← hf l, ← hf l', hline]

theorem tap?_of_bare (h : U.lines.map Line.bare = S.lines.map Line.bare) (line place : Nat) :
    U.tap? line place = S.tap? line place := bind_of_bare h line fun _ => rfl

theorem received?_of_bare (h : U.lines.map Line.bare = S.lines.map Line.bare) (line nth : Nat) :
    U.received? line nth = S.received? line nth := bind_of_bare h line fun _ => rfl

theorem isConditional_of_bare (h : U.lines.map Line.bare = S.lines.map Line.bare) (line : Nat) :
    U.isConditional line = S.isConditional line := by
  have hclient := bind_of_bare h line (f := fun l => some l.client) fun _ => rfl
  unfold isConditional
  cases hU : U.lines[line]? <;> cases hS : S.lines[line]? <;> simp_all

/-! ## Taps -/

theorem setTap_tap?_self (h : S.HasPlace line place) (t : Tap σ) :
    (S.setTap line place t).tap? line place = some t := by
  obtain ⟨l, hl, hplace⟩ := h
  simp only [Option.mem_def] at hl
  simp [setTap, modifyLine, tap?, Line.tap?, Line.setTap, hl, hplace]

theorem setTap_tap?_other {l p : Nat} (hother : ¬(l = line ∧ p = place)) (t : Tap σ) :
    (S.setTap line place t).tap? l p = S.tap? l p := by
  unfold setTap modifyLine tap?
  dsimp only
  rw [List.getElem?_modify]
  cases hl : S.lines[l]? with
  | none => rfl
  | some found =>
      by_cases hline : line = l
      · have hplace : place ≠ p := fun h => hother ⟨hline.symm, h.symm⟩
        simp [hline, Line.tap?, Line.setTap, List.getElem?_set_ne hplace]
      · simp [hline]

theorem setTap_isConditional (t : Tap σ) (l : Nat) :
    (S.setTap line place t).isConditional l = S.isConditional l := by
  unfold setTap modifyLine isConditional
  dsimp only
  rw [List.getElem?_modify]
  cases S.lines[l]? with
  | none => rfl
  | some found => by_cases hline : line = l <;> simp [hline, Line.setTap]

theorem setTap_received? (t : Tap σ) (l nth : Nat) :
    (S.setTap line place t).received? l nth = S.received? l nth := by
  unfold setTap modifyLine received?
  dsimp only
  rw [List.getElem?_modify]
  cases S.lines[l]? with
  | none => rfl
  | some found => by_cases hline : line = l <;> simp [hline, Line.setTap]

/-! ## Clients -/

variable {s : Signal α (TapError ε)}

theorem receive_tap? (h : U.lines = S.lines.modify line (·.receive s)) (l p : Nat) :
    U.tap? l p = S.tap? l p := by
  unfold tap?
  rw [h, List.getElem?_modify]
  cases S.lines[l]? with
  | none => rfl
  | some found => by_cases hline : line = l <;> cases s <;> simp [hline, Line.receive, Line.tap?]

theorem receive_isConditional (h : U.lines = S.lines.modify line (·.receive s)) (l : Nat) :
    U.isConditional l = S.isConditional l := by
  unfold isConditional
  rw [h, List.getElem?_modify]
  cases S.lines[l]? with
  | none => rfl
  | some found => by_cases hline : line = l <;> cases s <;> simp [hline, Line.receive]

/-! ## New lines -/

variable {P : Plan σ α ε}

theorem addLine_tap? (client : Client) (l p : Nat) :
    (addLine P S client).tap? l p = S.tap? l p := by
  unfold addLine tap?
  dsimp only
  rcases Nat.lt_trichotomy l S.lines.length with hlt | rfl | hgt
  · rw [List.getElem?_append_left hlt]
  · simp only [Line.tap?, List.getElem?_concat_length, List.getElem?_map, Option.bind_some]
    cases P.taps[p]? <;> simp
  · rw [List.getElem?_eq_none (by simp; omega), List.getElem?_eq_none (by omega)]

theorem addLine_isConditional (client : Client) {l : Nat} (hlt : l < S.lines.length) :
    (addLine P S client).isConditional l = S.isConditional l := by
  unfold addLine isConditional
  dsimp only
  rw [List.getElem?_append_left hlt]

theorem addLine_received? (client : Client) (l nth : Nat) :
    (addLine P S client).received? l nth = S.received? l nth := by
  unfold addLine received?
  dsimp only
  rcases Nat.lt_trichotomy l S.lines.length with hlt | rfl | hgt
  · rw [List.getElem?_append_left hlt]
  · simp
  · rw [List.getElem?_eq_none (by simp; omega), List.getElem?_eq_none (by omega)]

end State

end Wiretap

import Wiretap.Proofs.Machine.Deliveries
import Wiretap.Proofs.Machine.Follow
import Wiretap.Scenario.Kinds

/-!
# Hooks bracket deliveries

On a line with one tap whose source sends items and offers none, the hooks of the listener stand
around what the client hears, however the calls are nested: the client hears nothing of the stream
that the listener has not been told just before, it hears at most one ending, and the hook after the
ending runs once, as soon as the client has returned from hearing it.
-/

namespace Wiretap

section

variable {K : Kinds} {σ α ε : Type}

namespace InOrder

variable {notes later : List (Note α ε)}

theorem of_append (h : InOrder (notes ++ later)) : InOrder notes := by
  rintro before n rest rfl
  exact h before n (rest ++ later) (by simp)

/-- The hook for an ending runs once at most. -/
theorem farewells (h : InOrder notes) : notes.countP Note.isFarewell ≤ 1 := by
  induction notes using List.reverseRecOn with
  | nil => exact Nat.zero_le 1
  | append_singleton notes n ih =>
      rw [List.countP_append, List.countP_singleton]
      split
      next hfarewell =>
        have hfollows := h notes n [] rfl
        have hnone : notes.countP Note.isFarewell = 0 := by
          refine List.countP_eq_zero.mpr fun n' hn' => ?_
          rcases n with (⟨hook, failure⟩ | _ | _ | _ | _ | _) | s | s
          case did.ran =>
            rw [hfollows.1 hfarewell n' hn']
            exact Bool.false_ne_true
          all_goals cases hfarewell
        omega
      next => exact ih h.of_append

/-- So all that is noted of endings concerns the same one. -/
theorem unique (h : InOrder notes) {w w' : Farewell ε} (hw : .did (.ran w.hook none) ∈ notes)
    (hw' : .did (.ran w'.hook none) ∈ notes) : w = w' := by
  have hone := h.farewells
  have hfarewell : ∀ v : Farewell ε, (.did (.ran v.hook none) : Note α ε).isFarewell = true :=
    fun v => v.isFarewell_hook
  obtain ⟨before, rest, rfl⟩ := List.append_of_mem hw
  rw [List.countP_append, List.countP_cons_of_pos (hfarewell w)] at hone
  have hzero : before.countP Note.isFarewell = 0 ∧ rest.countP Note.isFarewell = 0 := by omega
  rcases List.mem_append.mp hw' with hbefore | hrest
  · exact absurd (hfarewell w') (List.countP_eq_zero.mp hzero.1 _ hbefore)
  rcases List.mem_cons.mp hrest with heq | hrest
  · cases w <;> cases w' <;> cases heq <;> rfl
  · exact absurd (hfarewell w') (List.countP_eq_zero.mp hzero.2 _ hrest)

end InOrder

/-- Where the tap waits with the hook after an ending, the client is hearing the ending, and the
hook for it has succeeded. -/
theorem Deliveries.waiting {line : Nat} {stack : List (Frame α ε)} {notes : List (Note α ε)}
    (h : Deliveries line stack notes) {r : Tap.Resume α ε}
    (hr : r ∈ stack.filterMap (Frame.resume? line 0)) (hpassed : r.isPassed = true) :
    ∃ w : Farewell ε, .client line w.signal ∈ stack.filterMap Frame.callback? ∧
      .did (.ran w.hook none) ∈ notes := by
  induction h with
  | nil => cases hr
  | client hrest hduring ih =>
      obtain ⟨w, hcallback, hran⟩ := ih (by simpa [Frame.resume?] using hr)
      exact ⟨w, by simp [Frame.callback?, hcallback], List.mem_append_left _ hran⟩
  | @farewell w => exact ⟨w, by simp [Frame.callback?], by simp⟩
  | @other f rest notes hf hrest ih =>
      cases hresume : f.resume? line 0 with
      | some r' =>
          -- The frame belongs to the tap, and does not wait for what comes after an ending.
          rw [List.filterMap_cons_some hresume] at hr
          have hnot : r'.isPassed = false := by
            cases f with
            | tap l p guard r'' =>
                obtain ⟨⟨rfl, rfl⟩, rfl⟩ : (l = line ∧ p = 0) ∧ r'' = r' := by
                  simpa [Frame.resume?] using hresume
                simpa [Frame.delivers] using hf
            | _ => cases hresume
          rcases List.mem_cons.mp hr with rfl | hr
          · cases hnot.symm.trans hpassed
          · obtain ⟨w, hcallback, hran⟩ := ih hr
            refine ⟨w, ?_, hran⟩
            rw [Tap.filterMap_cons_toList]
            exact List.mem_append_right _ hcallback
      | none =>
          rw [List.filterMap_cons_none hresume] at hr
          obtain ⟨w, hcallback, hran⟩ := ih hr
          refine ⟨w, ?_, hran⟩
          rw [Tap.filterMap_cons_toList]
          exact List.mem_append_right _ hcallback

/-- In every run of a plan with one tap, as long as the tap of a line is offered nothing, the
minutes of the line are in order; a hook for an ending has been run once at most, and not more hooks
after an ending than hooks for an ending have succeeded; and whenever the outside has the turn after
a hook for an ending has succeeded, the hook after that ending has been run, unless the client is
still hearing the ending. -/
theorem Run.hooks_bracket {P : Plan σ α ε} {p : TapPlan σ α ε} (hplan : P.taps = [p])
    {ambient : Context} {history : List (Entry α ε)} {U : State σ α ε}
    (hrun : Run P (.start P ambient) history U) {line : Nat}
    (hplain : ∀ x, .received (.signal (.offer x)) ∉ deeds line 0 (happened history)) :
    InOrder (minutes line history).notes ∧
      (minutes line history).notes.countP Note.isFarewell ≤ 1 ∧
      (minutes line history).notes.countP Note.isAfter ≤
        (minutes line history).notes.countP Note.isGranted ∧
      ∀ b, U.focus = .outside b → ∀ w : Farewell ε,
        .did (.ran w.hook none) ∈ (minutes line history).notes →
        (∃ failure, .did (.ran w.after failure) ∈ (minutes line history).notes) ∨
          .client line w.signal ∈ (minutes line history).callbacks := by
  have hdepth : P.depth = 1 := by rw [Plan.depth, hplan]; rfl
  obtain ⟨hcallbacks, hminuted⟩ :=
    State.Recorded.run hdepth (.start ambient) (.start P ambient line) hrun hplain
  refine ⟨hminuted.inOrder, hminuted.inOrder.farewells, ?_, fun b hturn w hran => ?_⟩
  · rw [hminuted.balance]
    exact Nat.le_add_right _ _
  have hgranted : 0 < (minutes line history).notes.countP Note.isGranted :=
    List.countP_pos_iff.mpr ⟨_, hran, w.isFarewell_hook⟩
  rw [hminuted.balance] at hgranted
  rcases Nat.eq_zero_or_pos ((minutes line history).notes.countP Note.isAfter) with hnone | hsome
  · -- No hook after an ending has been run, so the tap still waits with one.
    obtain ⟨r, hr, hpassed⟩ := List.countP_pos_iff.mp (by rwa [hnone, Nat.zero_add] at hgranted)
    obtain ⟨w', hhearing, hran'⟩ :=
      (hminuted.delivers.of_outside hturn).waiting hr hpassed
    rw [hminuted.inOrder.unique hran hran', hcallbacks]
    exact .inr hhearing
  · -- A hook after an ending has been run, and the ending is this one.
    obtain ⟨n, hn, hafter⟩ := List.countP_pos_iff.mp hsome
    obtain ⟨w', failure, rfl⟩ : ∃ (w' : Farewell ε) (failure : Option Cause),
        n = .did (.ran w'.after failure) := by
      rcases n with (⟨hook, failure⟩ | _ | _ | _ | _ | _) | s | s
      case did.ran =>
        cases hook with
        | afterError e => exact ⟨.error e, failure, rfl⟩
        | afterComplete => exact ⟨.complete, failure, rfl⟩
        | _ => cases hafter
      all_goals cases hafter
    obtain ⟨before, later, hsplit⟩ := List.append_of_mem hn
    have hgone := (hminuted.inOrder before _ later hsplit).2.1 w' rfl
    have hran' : .did (.ran w'.hook none) ∈ (minutes line history).notes := by
      rw [hsplit]
      refine List.mem_append_left _ ?_
      rcases hgone with ⟨earlier, rfl⟩ | ⟨earlier, during, -, rfl⟩ <;> simp
    rw [hminuted.inOrder.unique hran hran']
    exact .inl ⟨failure, hn⟩

end

open scoped Scenario

/-- The source completes while the client hears an item. -/
theorem Run.hooks_bracket_nested : ∃ history U,
    Run (.brittle [[]]) (.start (.brittle [[]]) .empty) history U ∧
    (∀ x, .received (.signal (.offer x)) ∉ deeds 0 0 (happened history)) ∧
    InOrder (minutes 0 history).notes ∧
    (minutes 0 history).notes =
      [.did (.ran .first none), .did (.augmented none), .did (.ran .subscription none),
        .heard (.subscribe (.tap 0)), .over (.subscribe (.tap 0)), .did (.ran (.next 1) none),
        .heard (.next 1), .did (.ran .complete none), .heard .complete, .over .complete,
        .did (.ran .afterComplete none), .did (.ran (.finally .complete) none),
        .over (.next 1)] := by
  obtain ⟨history, U, hplay, hdeeds, hnotes⟩ := Play.of_follow (P := .brittle [[]])
    (S := .start (.brittle [[]]) .empty) 20
    [.subscribe .plain, .signal 0 (.subscribe (.external 0)), .answer true, .answer true,
      .signal 0 (.next 1), .signal 0 .complete, .answer true, .answer true]
    (fun history U => deeds 0 0 (happened history) =
      [.created none, .acted (.ran .first none), .acted (.augmented none),
        .received (.signal (.subscribe (.external 0))), .acted (.ran .subscription none),
        .sent (.subscribe (.tap 0)), .returned true, .received (.signal (.next 1)),
        .acted (.ran (.next 1) none), .sent (.next 1), .received (.signal .complete),
        .acted (.ran .complete none), .sent .complete, .acted (.ran .afterComplete none),
        .acted (.ran (.finally .complete) none), .returned true, .returned true] ∧
      (minutes 0 history).notes =
      [.did (.ran .first none), .did (.augmented none), .did (.ran .subscription none),
        .heard (.subscribe (.tap 0)), .over (.subscribe (.tap 0)), .did (.ran (.next 1) none),
        .heard (.next 1), .did (.ran .complete none), .heard .complete, .over .complete,
        .did (.ran .afterComplete none), .did (.ran (.finally .complete) none),
        .over (.next 1)]) (by decide +kernel)
  have hplain : ∀ x, .received (.signal (.offer x)) ∉ deeds 0 0 (happened history) := by
    simp [hdeeds]
  exact ⟨history, U, hplay.run, hplain, (hplay.run.hooks_bracket rfl hplain).1, hnotes⟩

end Wiretap

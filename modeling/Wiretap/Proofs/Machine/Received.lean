import Wiretap.Proofs.Machine.Courtesy
import Wiretap.Proofs.Machine.Meanwhile

/-!
# What a client has got

In a play a client uses no handle but those that it has heard of. Behind a tap that is there it has
heard whatever the tap has sent, unless it is just about to hear something.
-/

namespace Wiretap

variable {K : Kinds} {σ α ε : Type}

namespace State

variable {P : Plan σ α ε} {S U : State σ α ε} {before events : List (Event α ε)} {line place : Nat}

/-- The handles that clients keep, and the one that a client is about to use, have been heard of. -/
structure Acquainted (P : Plan σ α ε) (S : State σ α ε) (events : List (Event α ε)) : Prop where
  received : ∀ line nth h, S.received? line nth = some h → .subscribe h ∈ heardBy line events
  uses : ∀ line h c, S.focus = .call (.control line P.depth h c) →
    .subscribe h ∈ heardBy line events

namespace Acquainted

theorem start (ambient : Context) : (State.start P ambient).Acquainted P [] where
  received := by simp [State.received?, State.start]
  uses := nofun

theorem step (h : S.Acquainted P before) (hstep : Stepped P S U events) :
    U.Acquainted P (before ++ events) where
  received line nth handle hhandle := by
    rw [heardBy_append]
    have hthen : S.received? line nth = some handle →
        .subscribe handle ∈ heardBy line before ++ heardBy line events :=
      fun hthen => List.mem_append_left _ (h.received line nth handle hthen)
    rcases step_client hstep with hsame | ⟨l, s, -, hlines, rfl⟩
    · exact hthen (((hsame line).2 nth).symm.trans hhandle)
    · rcases receive_received? hlines line with hsame | ⟨rfl, hline, handle', rfl⟩
      · exact hthen ((hsame nth).symm.trans hhandle)
      · obtain ⟨hnew, hold⟩ := receive_subscribe hline hlines
        cases nth with
        | zero =>
            rw [hnew, Option.some.injEq] at hhandle
            simp [Event.heard?, hhandle]
        | succ nth => exact List.mem_append_left _ (h.received l nth handle (hold nth ▸ hhandle))
  uses line handle c hfocus := by
    -- Only a tap uses a handle at the end of a step.
    have hdue : U.due line P.depth = [] := step_due hstep fun hlt => absurd hlt (Nat.lt_irrefl _)
    simp [due, hfocus] at hdue

theorem move {m : Move α ε} (h : S.Acquainted P before) (hallows : S.allows P m = true)
    (hmove : Moved P S U m) : U.Acquainted P before where
  received line nth handle hhandle :=
    h.received line nth handle ((move_received? hmove line nth).symm.trans hhandle)
  uses line handle c hfocus := by
    cases hmove with
    | control hturn hreceived hlines hstack hnext =>
        rw [hnext] at hfocus
        cases hfocus
        exact h.received _ _ _ hreceived
    | direct => cases hallows
    | subscribe hturn hlines hstack hnext =>
        rw [hnext] at hfocus
        cases hfocus
    | signal hturn hlines hstack hnext =>
        have hdue : U.due line P.depth = [] := due_of_sourceSignal hnext
        simp [due, hfocus] at hdue
    | answer hturn hstack hlines hrest hnext =>
        rw [hnext] at hfocus
        cases hfocus

theorem play {ambient : Context} {history : List (Entry α ε)}
    (h : Play P (.start P ambient) history U) : U.Acquainted P (happened history) := by
  induction h with
  | refl => exact .start ambient
  | step _ hstep ih =>
      rw [happened_append, happened_map_event]
      exact ih.step (step?_stepped hstep)
  | move _ hallows hmove ih =>
      rw [happened_append, happened_move, List.append_nil]
      exact ih.move hallows (move?_moved hmove)

end Acquainted

/-- The client has heard what the tap in front of it has sent, unless it is about to hear it. -/
theorem Delivers.heardBy_of_tap (h : S.Delivers P events) (hassembled : S.Assembled P)
    (hplace : place + 1 = P.depth) (htap : (S.tap? line place).isSome = true)
    (hfocus : ∀ s, S.focus ≠ .call (.client line s)) :
    heardBy line events = Tap.given (deeds line place events) := by
  have hclient := h.client (l := line) hplace
  have howed : S.owed P line (place + 1) = [] :=
    List.filterMap_eq_nil_iff.mpr fun f hf => owed_of_tap hassembled htap hf
  have hflight : S.inFlight P line (place + 1) = [] := by
    unfold inFlight
    split
    · rw [if_neg (by omega)]
    next l s hcall =>
      refine if_neg ?_
      rintro ⟨rfl, -⟩
      exact hfocus s hcall
    · rfl
  rw [hflight, howed, List.append_nil, List.append_nil] at hclient
  exact List.map_injective_iff.mpr (client_injective line) hclient

end State

end Wiretap

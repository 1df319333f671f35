import Wiretap.Proofs.Emission.Serving
import Wiretap.Scenario.Kinds

/-!
# Demand is honoured

A sequence without taps hands a client just as many items as it asks for, however the client splits
its demand over requests, from wherever it makes them, and whichever items it refuses.
-/

namespace Wiretap

section

variable {K : Kinds} {σ α ε : Type} {P : Plan σ α ε} {client : Client} {ambient : Context}
  {p : α → Bool} {all : List α} {d : List (Utterance α ε)} {U : State σ α ε}

/-- However a client of a list without taps talks, its line is in a phase of serving it. -/
theorem Talks.serving (hbare : P.taps = []) (hsource : P.source = .sequence (all[·]?))
    (hall : all ≠ []) (hlength : all.length < 2 ^ 64)
    (hplain : client.conditional = false → ∀ x, p x = true)
    (h : Talks P (.takes p) client ambient d U) :
    Emission.Serving client p all ambient (signals d) (Demand.total (requests d)) U := by
  induction h with
  | subscribe hmove =>
      rw [State.move?_subscribe] at hmove
      cases hmove
      rw [State.hosting_solo hbare]
      exact .joining client.context
  | step _ hstep ih =>
      have hnext := ih.step hbare hsource hall hlength hstep
      simpa using hnext
  | @use d T U nth c _ hconduct hmove ih =>
      cases c with
      | cancel => cases hconduct
      | request n =>
          have hnext := ih.request hbare hmove
          rw [signals_append, requests_append, Demand.total_append]
          simpa [signals, requests] using hnext
  | answer _ hconduct hmove ih =>
      have hnext := ih.answer hplain hconduct hmove
      rw [signals_append, requests_append, Demand.total_append]
      simpa [signals, requests] using hnext

/-- However a client of an empty list talks, its line is in a phase of dismissing it. -/
theorem Talks.dismissing (hbare : P.taps = []) {pull : Nat → Option α}
    (hsource : P.source = .sequence pull) (hpull : pull 0 = none)
    (h : Talks P (.takes p) client ambient d U) :
    Emission.Dismissing client ambient (signals d) U := by
  induction h with
  | subscribe hmove =>
      rw [State.move?_subscribe] at hmove
      cases hmove
      rw [State.hosting_solo hbare]
      exact .joining client.context
  | step _ hstep ih =>
      have hnext := ih.step hbare hsource hpull hstep
      simpa using hnext
  | @use d T U nth c _ hconduct hmove ih =>
      cases c with
      | cancel => cases hconduct
      | request n =>
          have hnext := ih.request hbare hmove
          simpa [signals] using hnext
  | answer _ hconduct hmove ih =>
      have hnext := ih.answer hmove
      simpa [signals] using hnext

/-- A client of a list without taps may ask for items from anywhere and take or refuse them as it
likes. Whenever all is quiet it has been handed, once each and in order, the shortest prefix with as
many items to its liking as it asked for in all, or everything if there is none or if its demand is
unbounded. The completion follows the last item of the list. A request for nothing changes nothing,
and the client always gets the turn back. -/
theorem Talks.demand_honoured (hbare : P.taps = []) (hsource : P.source = .sequence (all[·]?))
    (hlength : all.length < 2 ^ 64) (hplain : client.conditional = false → ∀ x, p x = true)
    (h : Talks P (.takes p) client ambient d U) :
    (U.isIdle = true → ∃ offered rest, offered ++ rest = all ∧
        signals d = .subscribe .empty :: offered.map client.item ++
          (if rest.isEmpty then [.complete] else []) ∧
        if Demand.sum (requests d) = Demand.unbounded then rest = []
        else Fills p (Demand.sum (requests d)).toNat all offered) ∧
      (∀ nth T, U.move? P (.control 0 nth (.request 0)) = some T →
        ∃ events, Run P T (events.map .event) { U with focus := .outside true } ∧
          heardBy 0 events = []) ∧
      U.Yields P := by
  by_cases hall : all = []
  · subst hall
    have hdismissing := h.dismissing hbare hsource rfl
    refine ⟨fun hidle => ?_, fun nth T hmove => hdismissing.request_zero hbare hmove,
      hdismissing.yields hbare hsource rfl⟩
    refine ⟨[], [], rfl, hdismissing.quiet hidle, ?_⟩
    split
    · rfl
    · exact ⟨List.nil_prefix, .inr rfl, fun _ _ _ => List.nil_prefix⟩
  · have hserving := h.serving hbare hsource hall hlength hplain
    refine ⟨fun hidle => ?_, fun nth T hmove => hserving.request_zero hbare hmove,
      hserving.yields hbare hsource hall⟩
    obtain ⟨offered, hsignals, hfills, hunbounded⟩ := hserving.quiet hlength hidle
    have hsum := Demand.toNat_sum (requests d)
    obtain ⟨rest, rfl⟩ := hfills.isPrefix
    refine ⟨offered, rest, rfl, ?_, ?_⟩
    · rw [hsignals]
      cases rest <;> simp [Emission.hearing]
    · split
      next heq =>
        rw [heq] at hsum
        have hall := hunbounded (by omega)
        simpa using hall
      next hne =>
        rw [← UInt64.toNat_inj] at hne
        have htotal : (Demand.sum (requests d)).toNat = Demand.total (requests d) := by omega
        rwa [htotal]

end

open scoped Scenario

/-- A plan of the numbers from 1 to 5 without taps. -/
def Plan.counting : Plan Unit Nat Nat := ⟨.sequence ([1, 2, 3, 4, 5][·]?), [], fun _ => 0⟩

/-- A client that refuses odd numbers asks for one item when it gets its handle, and for another one
from inside its first item. It asks for nothing as well. The loop runs on to the second even
number. -/
theorem Talks.demand_honoured_counting : ∃ d U,
    Talks .counting (.takes (· % 2 == 0)) ⟨.empty, true⟩ .empty d U ∧ U.isIdle = true ∧
      requests d = [1, 0, 1] ∧
      signals d = [.subscribe .empty, .offer 1, .offer 2, .offer 3, .offer 4] ∧
      (∃ offered rest, offered ++ rest = [1, 2, 3, 4, 5] ∧
        signals d = .subscribe .empty :: offered.map (⟨.empty, true⟩ : Client).item ++
          (if rest.isEmpty then [.complete] else []) ∧
        Fills (· % 2 == 0) 2 [1, 2, 3, 4, 5] offered) := by
  obtain ⟨d, U, htalks, hidle, hrequests, hsignals⟩ := Talks.of_converse .counting
    (.takes (· % 2 == 0)) ⟨.empty, true⟩ .empty 20
    [.used (.request 1), .used (.request 0), .used (.request 1), .answered false, .answered true,
      .answered false, .answered true, .answered true]
    (fun d U => U.isIdle = true ∧ requests d = [1, 0, 1] ∧
      signals d = [.subscribe .empty, .offer 1, .offer 2, .offer 3, .offer 4]) (by decide +kernel)
  obtain ⟨offered, rest, hall, hoffered, hfills⟩ :=
    (htalks.demand_honoured rfl rfl (by decide) fun h => absurd h (by decide)).1 hidle
  rw [hrequests] at hfills
  exact ⟨d, U, htalks, hidle, hrequests, hsignals, offered, rest, hall, hoffered, hfills⟩

end Wiretap

import Wiretap.Proofs.Tap.Turn

/-!
# Signals after the end

A signal that comes after the end of the subscription has a hook of its own. Whether that hook fails
or not, what the signal carries is dropped, and a fault of the hook is dropped before it. The tap
calls no neighbour and answers at once, and nothing changes but the state of its listener.
-/

namespace Wiretap

variable {K : Kinds} {σ α ε : Type}

namespace Tap

/-- What becomes of the outcome of a hook whose fault the receiver cannot be told any more. -/
def lostFault (h : Hook α ε) : Option Cause → List (Act α ε)
  | none => []
  | some cause => [.reported (h.fault cause), .droppedError (.fault (h.fault cause))]

/-- A hook after the end, and what is dropped then. -/
def malformed (h : Hook α ε) (failure : Option Cause) (payload : List (Act α ε)) :
    List (Act α ε) :=
  .ran h failure :: lostFault h failure ++ payload

/-- What a tap does with a signal after the end, by the outcome of the hook for it. A handle is not
malformed at any time. -/
def malformedActs (failure : Option Cause) : Signal α ε → List (Act α ε)
  | .subscribe _ => []
  | .next x | .offer x => malformed (.malformedNext x) failure [.droppedItem x]
  | .error e => malformed (.malformedError e) failure [.droppedError (.source e)]
  | .complete => malformed .malformedComplete failure []

/-- What can be seen of a call after the end. -/
def malformedCall (s : Signal α ε) (failure : Option Cause) : List (Deed α ε) :=
  .received (.signal s) :: (malformedActs failure s).map .acted ++ [.returned true]

variable {t : Tap σ} (L : Listener σ α ε)

theorem runHook_malformed (h : Hook α ε) {ok : Tap σ → Turn σ α ε}
    {failed : Tap σ → Fault → Turn σ α ε} {payload : List (Act α ε)}
    (hok : ∀ u, ok u = ⟨payload, u, .answer true⟩)
    (hfailed : ∀ u f, failed u f =
      ⟨[.reported f, .droppedError (.fault f)] ++ payload,
        { u with listener := L.notice u.listener f }, .answer true⟩) :
    ∃ listener failure, t.runHook L h ok failed =
      ⟨malformed h failure payload, { t with listener }, .answer true⟩ := by
  unfold runHook
  rcases L.run t.listener h with ⟨listener, _ | cause⟩
  · exact ⟨listener, none, by simp only [hok]; rfl⟩
  · exact ⟨L.notice listener (h.fault cause), some cause, by simp only [hfailed]; rfl⟩

/-- After the end a tap answers every signal but a handle at once. -/
theorem serve_malformed (self : Handle) (conditional : Bool) {s : Signal α ε}
    (hs : s.isSubscribe = false) (hdone : t.done = true) :
    ∃ listener failure, t.serve L self conditional (.signal s) =
      ⟨malformedActs failure s, { t with listener }, .answer true⟩ := by
  cases s with
  | subscribe h => cases hs
  | next x =>
      rw [serve, receive, onNext, if_pos hdone]
      exact runHook_malformed L (.malformedNext x) (fun _ => rfl) fun _ _ => rfl
  | offer x =>
      rw [serve, receive, onOffer, if_pos hdone]
      exact runHook_malformed L (.malformedNext x) (fun _ => rfl) fun _ _ => rfl
  | error e =>
      rw [serve, receive, onError, if_pos hdone]
      exact runHook_malformed L (.malformedError e) (fun _ => rfl) fun _ _ => rfl
  | complete =>
      rw [serve, receive, onComplete, if_pos hdone]
      exact runHook_malformed L .malformedComplete (fun _ => rfl) fun _ _ => rfl

end Tap

end Wiretap

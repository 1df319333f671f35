import Wiretap.Proofs.Tap.Opening
import Wiretap.Proofs.Tap.Record

/-!
# A tap that is dismissed

The source of a tap may be nothing but an empty handle and then an error. As long as no hook fails,
the tap passes both on, and what its receiver asks for in between.
-/

namespace Wiretap.Tap

variable {K : Kinds} {σ α ε : Type} {L : Listener σ α ε} {t : Tap σ} {source : Option Handle}

/-- The tap has this handle, or none, and its stream has not ended. -/
structure Stands (t : Tap σ) (source : Option Handle) : Prop where
  source : t.source = source
  attached : t.attached = true
  done : t.done = false

theorem Stands.of_listener {listener : σ} (h : t.Stands source) :
    ({ t with listener } : Tap σ).Stands source :=
  ⟨h.source, h.attached, h.done⟩

/-- Before it has heard anything a tap stands without a handle. -/
theorem Life.Opening.unheard {l : Life σ α ε} (h : l.Opening) (hunheard : heard l.deeds = []) :
    l.tap.Stands none ∧ l.pending = [] ∧ sent l.deeds = [] := by
  have hnever : ∀ kind, ¬Signal.Opens kind (heard l.deeds) := by simp [hunheard, Signal.Opens]
  cases h with
  | fresh hsource hattached hdone hsent => exact ⟨⟨hsource, hattached, hdone⟩, rfl, hsent⟩
  | refusing f _ _ _ _ hheard => exact absurd hheard (hnever _)
  | spoiling f e g _ _ _ _ hheard => exact absurd hheard (hnever _)
  | begun _ _ hheard => exact absurd hheard (hnever _)
  | overtaken _ _ hheard => exact absurd hheard (hnever _)
  | misbegun _ _ hheard => exact absurd hheard (hnever _)

/-- A tap passes on a handle. -/
theorem Stands.subscribe (h : t.Stands none) (self handle : Handle) (conditional : Bool)
    (hnone : failures (t.serve L self conditional (.signal (.subscribe handle))).deeds = []) :
    (t.serve L self conditional (.signal (.subscribe handle))).next =
        .down (.subscribe self) .leave ∧
      (t.serve L self conditional (.signal (.subscribe handle))).tap.Stands (some handle) := by
  simp only [serve, receive, onSubscribe, h.source] at hnone ⊢
  obtain ⟨listener, heq, -⟩ := runHook_unfailing hnone
  rw [heq, if_pos h.attached]
  exact ⟨rfl, rfl, h.attached, h.done⟩

/-- A tap passes on an error. -/
theorem Stands.error (h : t.Stands source) (self : Handle) (conditional : Bool) (e : ε)
    (hnone : failures (t.serve L self conditional (.signal (.error e))).deeds = []) :
    (t.serve L self conditional (.signal (.error e))).next =
      .down (.error (.source e)) (.passedError e) := by
  simp only [serve, receive] at hnone ⊢
  unfold onError at hnone ⊢
  rw [h.done, if_neg Bool.false_ne_true] at hnone ⊢
  obtain ⟨listener, heq, -⟩ := runHook_unfailing hnone
  rw [heq, Turn.next_after, if_pos h.attached]
  rfl

/-- A turn in which the tap asks its source for items at most. -/
structure Turn.Modest (source : Option Handle) (turn : Turn σ α ε) : Prop where
  stands : turn.tap.Stands source
  next : (∃ b, turn.next = .answer b) ∨ ∃ h n, turn.next = .up h (.request n) .leave

theorem Turn.Modest.after {turn : Turn σ α ε} (h : turn.Modest source) (act : Act α ε) :
    (turn.after act).Modest source := ⟨h.stands, h.next⟩

theorem Turn.Modest.given {turn : Turn σ α ε} (h : turn.Modest source) :
    Tap.given turn.deeds = [] := by
  rw [given_turn_deeds]
  obtain ⟨b, hnext⟩ | ⟨handle, n, hnext⟩ := h.next <;> rw [hnext] <;> rfl

theorem Stands.finish (h : t.Stands source) : (t.finish : Turn σ α ε).Modest source :=
  ⟨h, .inl ⟨true, rfl⟩⟩

/-- A tap passes on a request. -/
theorem Stands.request (h : t.Stands source) (self : Handle) (conditional : Bool) (n : UInt64)
    (hnone : failures (t.serve L self conditional (.control (.request n))).deeds = []) :
    (t.serve L self conditional (.control (.request n))).Modest source := by
  simp only [serve, obey] at hnone ⊢
  unfold onRequest at hnone ⊢
  split at hnone
  next hpositive =>
    obtain ⟨listener, heq, -⟩ := runHook_unfailing hnone
    rw [if_pos hpositive, heq]
    refine .after ?_ _
    dsimp only
    split
    · exact ⟨h.of_listener, .inr ⟨_, _, rfl⟩⟩
    · exact h.of_listener.finish
  next hzero =>
    rw [if_neg hzero]
    exact h.finish.after _

end Wiretap.Tap

import Mathlib.Logic.Function.Iterate
import Wiretap.Machine.Plan
import Wiretap.Proofs.Tap.Turn

/-!
# Taps that pass on whatever they get

As long as no hook fails, a tap that is attached and not done passes on every signal, and every
control but a request for nothing. What it does when its neighbour has returned concerns nobody: it
hands on the answer to an offer, and otherwise it has nothing to say.
-/

namespace Wiretap

variable {K : Kinds} {σ α ε : Type}

/-- No hook of the listener fails, nor does the augmentation of a context. -/
structure Listener.Faultless (L : Listener σ α ε) : Prop where
  hooks : ∀ s h, (L.run s h).2 = none
  augments : ∀ s context, ∃ augmented, (L.augment s context).2 = .ok augmented

/-- Listeners can be created, and they do not fail. -/
structure TapPlan.Faultless (p : TapPlan σ α ε) : Prop where
  creates : ∀ ambient nth context, ∃ listener, p.create ambient nth context = .ok listener
  listener : ∀ ambient, (p.listener ambient).Faultless

/-- The handle that a receiver gets behind `k` taps if the source gives `h`. -/
def Handle.behind (h : Handle) : Nat → Handle
  | 0 => h
  | k + 1 => .tap k

namespace Signal

/-- The signal that the tap behind `k` others gets if the source sends `s`. -/
def behind (adapt : TapError ε → ε) (s : Signal α ε) (k : Nat) : Signal α ε :=
  match s with
  | .subscribe h => .subscribe (h.behind k)
  | .error e => .error ((fun e => adapt (.source e))^[k] e)
  | s => s

/-- The signal that a tap sends if it gets `s` and gives itself away as `self`. -/
def passedOn (self : Handle) : Signal α ε → Signal α (TapError ε)
  | .subscribe _ => .subscribe self
  | s => s.mapError .source

variable {adapt : TapError ε → ε} {s : Signal α ε}

theorem behind_zero (adapt : TapError ε → ε) (s : Signal α ε) : s.behind adapt 0 = s := by
  cases s <;> rfl

theorem behind_succ (adapt : TapError ε → ε) (s : Signal α ε) (k : Nat) :
    ((s.behind adapt k).passedOn (.tap k)).mapError adapt = s.behind adapt (k + 1) := by
  cases s with
  | error e =>
      rw [behind, behind, Function.iterate_succ_apply']
      rfl
  | _ => rfl

end Signal

namespace Tap

/-- Where a tap resumes that has passed something on. -/
def Resume.isVeil : Resume α ε → Bool
  | .leave | .offered _ | .passedError _ | .passedComplete | .released => true
  | _ => false

/-- Has a cancellation been passed on? -/
def Resume.isReleased : Resume α ε → Bool
  | .released => true
  | _ => false

/-- A tap behind `k` others has got the handle that was given, if one was, and if `live` it can pass
on signals. -/
structure Relays (given : Option Handle) (live : Prop) (k : Nat) (t : Tap σ) : Prop where
  source : t.source = given.map (·.behind k)
  live : live → t.attached = true ∧ t.done = false

namespace Relays

variable {L : Listener σ α ε} {t : Tap σ} {given : Option Handle} {live live' : Prop} {k : Nat}

theorem start (listener : σ) (context : Context) :
    (Tap.start listener context).Relays none live k := ⟨rfl, fun _ => ⟨rfl, rfl⟩⟩

theorem weaken (h : t.Relays given live k) (hlive : live' → live) : t.Relays given live' k :=
  ⟨h.source, fun h' => h.live (hlive h')⟩

theorem of_listener {listener : σ} {finalized : Bool} (h : t.Relays given live k) :
    ({ t with listener, finalized } : Tap σ).Relays given live k := ⟨h.source, h.live⟩

end Relays

/-- The turn ends in this way, and the tap still passes things on. -/
structure Turn.Goes (turn : Turn σ α ε) (next : Next α ε) (given : Option Handle) (live : Prop)
    (k : Nat) : Prop where
  next : turn.next = next
  tap : turn.tap.Relays given live k

variable {L : Listener σ α ε} {t u : Tap σ} {given : Option Handle} {live : Prop} {k : Nat}
  {next : Next α ε}

theorem runHook_goes (hL : L.Faultless) {h : Hook α ε} {ok : Tap σ → Turn σ α ε}
    {failed : Tap σ → Fault → Turn σ α ε}
    (hok : ∀ listener, (ok { u with listener := listener }).Goes next given live k) :
    (u.runHook L h ok failed).Goes next given live k := by
  have hnone := hL.hooks u.listener h
  unfold runHook
  cases hrun : L.run u.listener h with
  | mk listener failure =>
      rw [hrun] at hnone
      cases hnone
      exact ⟨(hok listener).next, (hok listener).tap⟩

theorem runFinally_goes (hL : L.Faultless) {ending : Ending} {ok : Tap σ → Turn σ α ε}
    {failed : Tap σ → Fault → Turn σ α ε} (hopen : (ok u).Goes next given live k)
    (hok : ∀ listener,
      (ok { u with listener := listener, finalized := true }).Goes next given live k) :
    (u.runFinally L ending ok failed).Goes next given live k := by
  unfold runFinally
  split
  · exact hopen
  · exact runHook_goes hL hok

theorem wrapUp_goes (hL : L.Faultless) (h : Hook α ε) (ending : Ending)
    (ht : t.Relays given live k) :
    (t.wrapUp L h ending).Goes (.answer true) given live k := by
  unfold wrapUp
  refine runHook_goes hL fun listener => ?_
  refine runFinally_goes hL ?_ fun listener' => ?_
  · exact ⟨rfl, ht.of_listener⟩
  · exact ⟨rfl, ht.of_listener⟩

/-- A tap passes on a signal that it gets. -/
theorem Relays.receive (h : t.Relays given True k) (hL : L.Faultless) (adapt : TapError ε → ε)
    {s : Signal α ε} {conditional : Bool} (hhandle : s.isSubscribe = true → given = none)
    (hoffer : s.isOffer = true → conditional = true) :
    ∃ r : Resume α ε, r.isVeil = true ∧ r.isReleased = false ∧ r.isOffered = s.isOffer ∧
      (t.serve L (.tap k) conditional (.signal (s.behind adapt k))).Goes
        (.down ((s.behind adapt k).passedOn (.tap k)) r) (s.handle?.or given)
        (s.isTerminal = false) k := by
  obtain ⟨hattached, hdone⟩ := h.live trivial
  cases s with
  | subscribe handle =>
      cases hhandle rfl
      refine ⟨.leave, rfl, rfl, rfl, ?_⟩
      have hsource : t.source = none := h.source
      change (t.onSubscribe L (.tap k) (handle.behind k)).Goes _ _ _ k
      unfold onSubscribe
      rw [hsource]
      refine runHook_goes hL fun listener => ?_
      rw [if_pos hattached]
      exact ⟨rfl, rfl, fun _ => ⟨hattached, hdone⟩⟩
  | next x =>
      refine ⟨.leave, rfl, rfl, rfl, ?_⟩
      change (t.onNext L x).Goes _ _ _ k
      rw [onNext, if_neg (by simp [hdone])]
      refine runHook_goes hL fun listener => ?_
      rw [if_pos hattached]
      exact ⟨rfl, h.source, fun _ => ⟨hattached, hdone⟩⟩
  | offer x =>
      refine ⟨.offered x, rfl, rfl, rfl, ?_⟩
      change (t.onOffer L conditional x).Goes _ _ _ k
      rw [onOffer, if_neg (by simp [hdone]), if_pos hattached, if_pos (hoffer rfl)]
      exact ⟨rfl, h.source, fun _ => ⟨hattached, hdone⟩⟩
  | error e =>
      refine ⟨.passedError ((fun e => adapt (.source e))^[k] e), rfl, rfl, rfl, ?_⟩
      change (t.onError L _).Goes _ _ _ k
      rw [onError, if_neg (by simp [hdone])]
      refine runHook_goes hL fun listener => ?_
      dsimp only
      rw [if_pos hattached]
      exact ⟨rfl, h.source, fun hopen => nomatch hopen⟩
  | complete =>
      refine ⟨.passedComplete, rfl, rfl, rfl, ?_⟩
      change (t.onComplete L).Goes _ _ _ k
      rw [onComplete, if_neg (by simp [hdone])]
      refine runHook_goes hL fun listener => ?_
      dsimp only
      rw [if_pos hattached]
      exact ⟨rfl, h.source, fun hopen => nomatch hopen⟩

/-- A tap passes on a control that it gets, unless it asks for nothing. -/
theorem Relays.obey {handle : Handle} (h : t.Relays (some handle) live k) (hL : L.Faultless)
    (conditional : Bool) {c : Control} (hc : c ≠ .request 0) :
    ∃ r : Resume α ε, r.isVeil = true ∧ r.isReleased = c.isCancel ∧ r.isOffered = false ∧
      (t.serve L (.tap k) conditional (.control c)).Goes (.up (handle.behind k) c r) (some handle)
        live k := by
  have hsource : t.source = some (handle.behind k) := h.source
  cases c with
  | request n =>
      have hn : n ≠ 0 := fun heq => hc (congrArg Control.request heq)
      refine ⟨.leave, rfl, rfl, rfl, ?_⟩
      change (t.onRequest L n).Goes _ _ _ k
      rw [onRequest, if_pos (by simpa [Demand.isPositive] using hn)]
      refine runHook_goes hL fun listener => ?_
      dsimp only
      rw [hsource]
      exact ⟨rfl, rfl, h.live⟩
  | cancel =>
      refine ⟨.released, rfl, rfl, rfl, ?_⟩
      change (t.onCancel L).Goes _ _ _ k
      refine runHook_goes hL fun listener => ?_
      unfold cancelSource
      dsimp only
      rw [hsource]
      exact ⟨rfl, rfl, h.live⟩

/-- A request for nothing ends at the tap that gets it. -/
theorem Relays.obey_zero (h : t.Relays given live k) (conditional : Bool) :
    (t.serve L (.tap k) conditional (.control (.request 0))).Goes
      (.answer true) given live k := by
  change (t.onRequest L 0).Goes _ _ _ k
  exact ⟨rfl, h.source, h.live⟩

/-- A tap that has passed something on has nothing to add. -/
theorem Relays.resume (h : t.Relays given live k) (hL : L.Faultless) {r : Resume α ε}
    (hr : r.isVeil = true) (hreleased : r.isReleased = true → ¬live) (b : Bool) :
    (t.resume L r b).Goes (.answer (!r.isOffered || b)) given live k := by
  cases r with
  | leave => exact ⟨rfl, h⟩
  | offered x =>
      cases b with
      | true =>
          refine runHook_goes hL fun listener => ?_
          exact ⟨rfl, h.of_listener⟩
      | false => exact ⟨rfl, h⟩
  | passedError e => exact wrapUp_goes hL _ _ h
  | passedComplete => exact wrapUp_goes hL _ _ h
  | released =>
      have hdead := hreleased rfl
      refine runFinally_goes hL ?_ fun listener => ?_
      · exact ⟨rfl, h.source, fun hlive => (hdead hlive).elim⟩
      · exact ⟨rfl, h.source, fun hlive => (hdead hlive).elim⟩
  | ignored | refused | excused | failed | spoiled | sent => cases hr

/-- A tap is set up if nothing fails. -/
theorem setUp_faultless (hL : L.Faultless) (listener : σ) (context : Context) :
    ∃ listener' augmented, (Tap.setUp L listener context).2 = .ok (.start listener' augmented) := by
  have hnone := hL.hooks listener .first
  obtain ⟨augmented, haugmented⟩ := hL.augments (L.run listener .first).1 context
  refine ⟨(L.augment (L.run listener .first).1 context).1, augmented, ?_⟩
  unfold setUp
  dsimp only
  rw [hnone]
  dsimp only
  rw [haugmented]

end Tap

end Wiretap

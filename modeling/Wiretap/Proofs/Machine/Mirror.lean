import Wiretap.Proofs.Machine.Relay
import Wiretap.Proofs.Machine.Solo

/-!
# A chain mirrors its source

Beside a machine with a chain of taps that never fail, a machine without the taps is run. Step by
step the second one shows what the first one does, once the veils of the taps are taken off: the
same emission, the same calls to the client, the same answers. Each step of the bare machine is
matched by some steps of the other one.
-/

namespace Wiretap

variable {K : Kinds} {σ α ε : Type}

namespace Plan

/-- The plan without its taps. -/
def bare (P : Plan σ α ε) : Plan σ α ε := { P with taps := [] }

/-- Does the source hand out items? -/
def hasItems (P : Plan σ α ε) : Bool :=
  match P.source with
  | .sequence pull => (pull 0).isSome
  | _ => false

theorem Ends.bare {P : Plan σ α ε} {x : Option ε} (h : P.Ends x) : P.bare.Ends x := by
  cases h with
  | empty h => exact .empty h
  | failed h => exact .failed h
  | exhausted h hpull => exact .exhausted h hpull

theorem Ends.hasItems {P : Plan σ α ε} {x : Option ε} (h : P.Ends x) : P.hasItems = false := by
  cases h with
  | empty h => rw [Plan.hasItems, h]
  | failed h => rw [Plan.hasItems, h]
  | exhausted h hpull => simp [Plan.hasItems, h, hpull]

theorem Ends.source {P : Plan σ α ε} {e : ε} (h : P.Ends (some e)) : P.source = .failed e := by
  cases h with
  | failed h => exact h

/-- The error that the client gets if it would get `e` without the taps. -/
def wrap (P : Plan σ α ε) : TapError ε → TapError ε
  | .source e => .source ((fun e => P.adapt (.source e))^[P.depth - 1] e)
  | e => e

/-- The signal that the client gets if the source sends `s`. -/
def delivered (P : Plan σ α ε) (s : Signal α ε) : Signal α (TapError ε) :=
  match P.depth with
  | 0 => s.mapError .source
  | k + 1 => (s.behind P.adapt k).passedOn (.tap k)

variable (P : Plan σ α ε)

theorem arrival_depth (s : Signal α ε) : P.arrival s P.depth = .client 0 (P.delivered s) := by
  unfold delivered
  cases hdepth : P.depth with
  | zero => rw [arrival, sourceSignal, if_neg (by omega)]
  | succ k => rw [arrival, signal, if_neg (by omega)]

theorem delivered_handle? (s : Signal α ε) :
    (P.delivered s).handle? = s.handle?.map (·.behind P.depth) := by
  unfold delivered
  cases P.depth <;> cases s <;> rfl

theorem delivered_isSubscribe (s : Signal α ε) :
    (P.delivered s).isSubscribe = s.isSubscribe := by
  unfold delivered
  cases P.depth <;> cases s <;> rfl

theorem delivered_isOffer (s : Signal α ε) : (P.delivered s).isOffer = s.isOffer := by
  unfold delivered
  cases P.depth <;> cases s <;> rfl

theorem delivered_faceless (s : Signal α ε) :
    (P.delivered s).faceless = (s.mapError .source).faceless.mapError P.wrap := by
  unfold delivered
  cases hdepth : P.depth with
  | zero => cases s <;> simp [Signal.mapError, Signal.faceless, wrap, hdepth]
  | succ k =>
      cases s <;> simp [Signal.mapError, Signal.faceless, wrap, hdepth, Signal.behind,
        Signal.passedOn]

end Plan

/-- The utterance with its error changed. -/
def Utterance.mapError (f : TapError ε → TapError ε) : Utterance α ε → Utterance α ε
  | .heard s => .heard (s.mapError f)
  | u => u

/-- What becomes of a dialogue where taps come in between: an error is wrapped, and only a source
that fails sends one. -/
structure Plan.Conveys (P : Plan σ α ε) (d₀ d : List (Utterance α ε)) : Prop where
  eq : d = d₀.map (.mapError P.wrap)
  same : (∀ e, P.source ≠ .failed e) → d = d₀

namespace Plan.Conveys

variable {P : Plan σ α ε} {d₀ d later₀ later : List (Utterance α ε)} {u : Utterance α ε}

theorem nil : P.Conveys [] [] := ⟨rfl, fun _ => rfl⟩

theorem said (hu : u.mapError P.wrap = u) : P.Conveys [u] [u] :=
  ⟨by rw [List.map_singleton, hu], fun _ => rfl⟩

theorem append (h : P.Conveys d₀ d) (hlater : P.Conveys later₀ later) :
    P.Conveys (d₀ ++ later₀) (d ++ later) where
  eq := by rw [h.eq, hlater.eq, List.map_append]
  same hsource := by rw [h.same hsource, hlater.same hsource]

end Plan.Conveys

/-- Does the loop of an emission wait on top? -/
def atEmission : List (Frame α ε) → Bool
  | .emitting .. :: _ => true
  | _ => false

/-- Has the client been offered an item in this frame? -/
def Frame.isOffering : Frame α ε → Bool
  | .outside (.client _ s) => s.isOffer
  | _ => false

/-- Frames that stand for the same call, without taps and with them. -/
inductive Frame.Alike (P : Plan σ α ε) : Frame α ε → Frame α ε → Prop
  | ending (e : Option ε) : Alike P (.ending 0 e) (.ending 0 e)
  | emitting (m : UInt64) (last : Bool) : Alike P (.emitting 0 m last) (.emitting 0 m last)
  | completing : Alike P (.completing 0) (.completing 0)
  | client (s : Signal α ε) : Alike P (.outside (.client 0 (s.mapError .source)))
    (.outside (.client 0 (P.delivered s)))

/-- The same calls wait, but for veils between them. What an emission hands out to a client that can
refuse it is offered all the way. -/
inductive Veiled (P : Plan σ α ε) (conditional : Bool) :
    List (Frame α ε) → List (Frame α ε) → Prop
  | nil {veil : List (Frame α ε)} (hveil : ∀ f ∈ veil, f.Veil P.depth) :
    Veiled P conditional [] veil
  | cons {f₀ f : Frame α ε} {stack₀ stack veil : List (Frame α ε)}
    (hveil : ∀ f ∈ veil, f.Veil P.depth)
    (hoffered : conditional = true → atEmission (f₀ :: stack₀) = true →
      ∀ f ∈ veil, f.isOffered = true)
    (halike : f₀.Alike P f)
    (hoffering : f₀.isOffering = true → conditional = true ∧ atEmission stack₀ = true)
    (h : Veiled P conditional stack₀ stack) :
    Veiled P conditional (f₀ :: stack₀) (veil ++ f :: stack)

namespace Veiled

variable {P : Plan σ α ε} {conditional : Bool} {stack₀ stack : List (Frame α ε)}

/-- A veil comes on top. -/
theorem cover (h : Veiled P conditional stack₀ stack) {veil : List (Frame α ε)}
    (hveil : ∀ f ∈ veil, f.Veil P.depth)
    (hoffered : conditional = true → atEmission stack₀ = true → ∀ f ∈ veil, f.isOffered = true) :
    Veiled P conditional stack₀ (veil ++ stack) := by
  have hmem : ∀ {old : List (Frame α ε)} {Q : Frame α ε → Prop}, (∀ f ∈ veil, Q f) →
      (∀ f ∈ old, Q f) → ∀ f ∈ veil ++ old, Q f := by
    intro old Q hnew hold f hf
    exact (List.mem_append.mp hf).elim (hnew f) (hold f)
  cases h with
  | nil hold => exact .nil (hmem hveil hold)
  | cons hold hofferedOld halike hoffering h =>
      rw [← List.append_assoc]
      exact .cons (hmem hveil hold)
        (fun hconditional hemission => hmem (hoffered hconditional hemission)
          (hofferedOld hconditional hemission)) halike hoffering h

/-- A call without a veil comes on top. -/
theorem push (h : Veiled P conditional stack₀ stack) {f₀ f : Frame α ε} (halike : f₀.Alike P f)
    (hoffering : f₀.isOffering = true → conditional = true ∧ atEmission stack₀ = true) :
    Veiled P conditional (f₀ :: stack₀) (f :: stack) :=
  .cons (fun _ hf => absurd hf List.not_mem_nil)
    (fun _ _ _ hf => absurd hf List.not_mem_nil) halike hoffering h

end Veiled

/-- The outside has the turn, so there is no veil on top. -/
inductive Bared (P : Plan σ α ε) (conditional : Bool) :
    List (Frame α ε) → List (Frame α ε) → Prop
  | nil : Bared P conditional [] []
  | client {s : Signal α ε} {stack₀ stack : List (Frame α ε)}
    (hoffering : s.isOffer = true → conditional = true ∧ atEmission stack₀ = true)
    (h : Veiled P conditional stack₀ stack) :
    Bared P conditional (.outside (.client 0 (s.mapError .source)) :: stack₀)
      (.outside (.client 0 (P.delivered s)) :: stack)

/-- The stream may go on: the emission has its receiver, or the source has yet to end it. -/
def Going (emission : Option (Emission α)) (stack₀ : List (Frame α ε)) : Prop :=
  (∃ e, emission = some e ∧ e.attached = true) ∨ ∃ x, .ending 0 x ∈ stack₀

/-- A handle that the source gives. -/
def Granted (emission : Option (Emission α)) (h : Handle) : Prop :=
  h = .empty ∧ emission = none ∨ h = .emission ∧ emission.isSome = true

/-- What links both machines at any time, whatever they attend to. -/
structure Mirrored (P : Plan σ α ε) (client : Client) (given : Option Handle)
    (emission : Option (Emission α)) (stack₀ stack : List (Frame α ε)) : Prop where
  veiled : Veiled P client.conditional stack₀ stack
  granted : ∀ h, given = some h → Granted emission h
  sequence : ∀ e, emission = some e → ∃ pull, P.source = .sequence pull
  /-- Who has let its receiver go hands out no more items. -/
  spent : ∀ e, emission = some e → e.attached = false → e.cancelled = true ∨ e.ahead = none
  emitting : ∀ m last, .emitting 0 m last ∈ stack₀ →
    ∃ e, emission = some e ∧ (last = true → e.ahead = none)
  /-- A source without items waits for the client to know its handle, and for nothing else. -/
  ending : ∀ x, .ending 0 x ∈ stack₀ → emission = none ∧ P.hasItems = false ∧
    (∀ e, x = some e → P.source = .failed e) ∧
    (stack₀ = [.ending 0 x] ∨
      ∃ s : Signal α (TapError ε), s.isSubscribe = true ∧
        stack₀ = [.outside (.client 0 s), .ending 0 x])
  /-- A tap lets its receiver go only if the stream does not go on. -/
  released : ∀ f ∈ stack, f.isReleased = true → ¬Going emission stack₀

namespace Mirrored

variable {P : Plan σ α ε} {client : Client} {given : Option Handle}
  {emission : Option (Emission α)} {e e' : Emission α} {f₀ f : Frame α ε}
  {stack₀ stack veil rest : List (Frame α ε)}

theorem cover (h : Mirrored P client given emission stack₀ stack)
    (hveil : ∀ f ∈ veil, f.Veil P.depth)
    (hoffered : client.conditional = true → atEmission stack₀ = true →
      ∀ f ∈ veil, f.isOffered = true)
    (hreleased : ∀ f ∈ veil, f.isReleased = true → ¬Going emission stack₀) :
    Mirrored P client given emission stack₀ (veil ++ stack) where
  veiled := h.veiled.cover hveil hoffered
  granted := h.granted
  sequence := h.sequence
  spent := h.spent
  emitting := h.emitting
  ending := h.ending
  released := by
    intro f hf
    exact (List.mem_append.mp hf).elim (hreleased f) (h.released f)

/-- A veil is lifted. -/
theorem uncover (h : Mirrored P client given emission stack₀ stack)
    (hveiled : Veiled P client.conditional stack₀ rest) (hrest : ∀ f ∈ rest, f ∈ stack) :
    Mirrored P client given emission stack₀ rest :=
  ⟨hveiled, h.granted, h.sequence, h.spent, h.emitting, h.ending,
    fun f hf => h.released f (hrest f hf)⟩

/-- The client gets its handle. -/
theorem grant (h : Mirrored P client given emission stack₀ stack) {given' : Option Handle}
    (hgranted : ∀ handle, given' = some handle → Granted emission handle) :
    Mirrored P client given' emission stack₀ stack :=
  ⟨h.veiled, hgranted, h.sequence, h.spent, h.emitting, h.ending, h.released⟩

/-- A call returns. -/
theorem pop (h : Mirrored P client given emission (f₀ :: stack₀) (f :: stack))
    (hveiled : Veiled P client.conditional stack₀ stack) :
    Mirrored P client given emission stack₀ stack where
  veiled := hveiled
  granted := h.granted
  sequence := h.sequence
  spent := h.spent
  emitting m last hm := h.emitting m last (List.mem_cons_of_mem _ hm)
  ending := by
    intro x hx
    obtain ⟨hnone, hitems, herror, hstack | ⟨s, hs, hstack⟩⟩ :=
      h.ending x (List.mem_cons_of_mem _ hx)
    · cases hstack
      cases hx
    · cases hstack
      exact ⟨hnone, hitems, herror, .inl rfl⟩
  released := by
    rintro f hf hf' (hattached | ⟨x, hx⟩)
    · exact h.released f (List.mem_cons_of_mem _ hf) hf' (.inl hattached)
    · exact h.released f (List.mem_cons_of_mem _ hf) hf' (.inr ⟨x, List.mem_cons_of_mem _ hx⟩)

/-- A call is made. -/
theorem push (h : Mirrored P client given emission stack₀ stack) (halike : f₀.Alike P f)
    (hoffering : f₀.isOffering = true → client.conditional = true ∧ atEmission stack₀ = true)
    (hemitting : ∀ m last, f₀ = .emitting 0 m last →
      ∃ e, emission = some e ∧ (last = true → e.ahead = none))
    (hnew : ∀ x, f₀ ≠ .ending 0 x)
    (hending : ∀ x, .ending 0 x ∈ stack₀ → stack₀ = [.ending 0 x] ∧
      ∃ s : Signal α (TapError ε), s.isSubscribe = true ∧ f₀ = .outside (.client 0 s)) :
    Mirrored P client given emission (f₀ :: stack₀) (f :: stack) where
  veiled := h.veiled.push halike hoffering
  granted := h.granted
  sequence := h.sequence
  spent := h.spent
  emitting := by
    intro m last hm
    rcases List.mem_cons.mp hm with heq | hm
    · exact hemitting m last heq.symm
    · exact h.emitting m last hm
  ending := by
    intro x hx
    rcases List.mem_cons.mp hx with heq | hx
    · exact (hnew x heq.symm).elim
    · obtain ⟨hnone, hitems, herror, -⟩ := h.ending x hx
      obtain ⟨hstack, s, hs, rfl⟩ := hending x hx
      exact ⟨hnone, hitems, herror, .inr ⟨s, hs, by rw [hstack]⟩⟩
  released := by
    intro g hg hreleased hgoing
    have hgoing' : Going emission stack₀ := by
      refine hgoing.imp_right fun ⟨x, hx⟩ => ⟨x, ?_⟩
      exact (List.mem_cons.mp hx).resolve_left fun heq => hnew x heq.symm
    rcases List.mem_cons.mp hg with rfl | hg
    · cases halike <;> cases hreleased
    · exact h.released g hg hreleased hgoing'

/-- A source without items begins. -/
theorem greeting {x : Option ε} (hends : P.Ends x)
    (hveil : ∀ f ∈ veil, f.Veil P.depth ∧ f.isReleased = false) :
    Mirrored P client none none [.ending 0 x] (.ending 0 x :: veil) where
  veiled := (Veiled.nil fun f hf => (hveil f hf).1).push (.ending x) (fun hs => nomatch hs)
  granted _ heq := nomatch heq
  sequence _ heq := nomatch heq
  spent _ heq := nomatch heq
  emitting := by simp
  ending := by
    intro y hy
    cases List.mem_singleton.mp hy
    refine ⟨rfl, hends.hasItems, ?_, .inl rfl⟩
    rintro e rfl
    exact hends.source
  released := by
    intro f hf hreleased
    rcases List.mem_cons.mp hf with rfl | hf
    · cases hreleased
    · rw [(hveil f hf).2] at hreleased
      cases hreleased

/-- A source with items begins. -/
theorem start {pull : Nat → Option α} (hsource : P.source = .sequence pull) (x : α)
    (hveil : ∀ f ∈ veil, f.Veil P.depth ∧ f.isReleased = false) :
    Mirrored P client none (some (.start x)) [] veil where
  veiled := .nil fun f hf => (hveil f hf).1
  granted _ heq := nomatch heq
  sequence _ _ := ⟨pull, hsource⟩
  spent := by
    intro e heq hdetached
    cases heq
    cases hdetached
  emitting := by simp
  ending := by simp
  released := by
    intro f hf hreleased
    rw [(hveil f hf).2] at hreleased
    cases hreleased

theorem not_ending (h : Mirrored P client given (some e) stack₀ stack) (x : Option ε) :
    .ending 0 x ∉ stack₀ := fun hx => nomatch (h.ending x hx).1

theorem going_iff (h : Mirrored P client given (some e) stack₀ stack) :
    Going (some e) stack₀ ↔ e.attached = true := by
  constructor
  · rintro (⟨e', he', hattached⟩ | ⟨x, hx⟩)
    · cases he'
      exact hattached
    · exact (h.not_ending x hx).elim
  · intro hattached
    exact .inl ⟨e, rfl, hattached⟩

/-- The emission goes on. -/
theorem goOn (h : Mirrored P client given (some e) stack₀ stack)
    (hattached : e'.attached = true → e.attached = true)
    (hspent : e'.attached = false → e'.cancelled = true ∨ e'.ahead = none)
    (hahead : e.ahead = none → e'.ahead = none) :
    Mirrored P client given (some e') stack₀ stack where
  veiled := h.veiled
  granted := by
    intro handle hhandle
    rcases h.granted handle hhandle with ⟨-, hnone⟩ | ⟨rfl, -⟩
    · cases hnone
    · exact .inr ⟨rfl, rfl⟩
  sequence := fun _ _ => h.sequence e rfl
  spent := by
    intro _ heq
    cases heq
    exact hspent
  emitting := by
    intro m last hm
    obtain ⟨_, heq, hlast⟩ := h.emitting m last hm
    cases heq
    exact ⟨e', rfl, fun htrue => hahead (hlast htrue)⟩
  ending := fun x hx => (h.not_ending x hx).elim
  released := by
    intro f hf hreleased hgoing
    refine h.released f hf hreleased (h.going_iff.mpr ?_)
    rcases hgoing with ⟨_, heq, hgoing⟩ | ⟨x, hx⟩
    · cases heq
      exact hattached hgoing
    · exact (h.not_ending x hx).elim

/-- An emission that still hands out items has its receiver. -/
theorem attached {m : UInt64} {x : α} (h : Mirrored P client given (some e) stack₀ stack)
    (hverdict : e.verdict m = .deliver) (hahead : e.ahead = some x) : e.attached = true := by
  cases hattached : e.attached with
  | true => rfl
  | false =>
      rcases h.spent e rfl hattached with hcancelled | hnone
      · simp only [Emission.verdict, hcancelled, if_true] at hverdict
        split at hverdict <;> cases hverdict
      · rw [hahead] at hnone
        cases hnone

/-- The emission hands out an item. -/
theorem advance {x : α} (h : Mirrored P client given (some e) stack₀ stack)
    (hahead : e.ahead = some x) (hattached : e.attached = true) (pull : Nat → Option α)
    (m : UInt64) :
    Mirrored P client given (some (e.advance pull))
      (.emitting 0 m (e.advance pull).ahead.isNone :: stack₀)
      (.emitting 0 m (e.advance pull).ahead.isNone :: stack) := by
  have hadvanced : Mirrored P client given (some (e.advance pull)) stack₀ stack := by
    refine h.goOn id (fun hdetached => ?_) fun hnone => ?_
    · have hfalse : e.attached = false := hdetached
      rw [hattached] at hfalse
      cases hfalse
    · rw [hahead] at hnone
      cases hnone
  refine hadvanced.push (.emitting m _) (fun hb => nomatch hb) (fun m' last heq => ?_)
    (fun _ heq => nomatch heq) fun x hx => (hadvanced.not_ending x hx).elim
  cases heq
  exact ⟨_, rfl, Option.isNone_iff_eq_none.mp⟩

/-- The emission lets its receiver go and completes. -/
theorem detach (h : Mirrored P client given (some e) stack₀ stack) (hahead : e.ahead = none) :
    Mirrored P client given (some e.detach) (.completing 0 :: stack₀) (.completing 0 :: stack) := by
  have hdetached : Mirrored P client given (some e.detach) stack₀ stack :=
    h.goOn (fun hb => nomatch hb) (fun _ => .inr hahead) id
  exact hdetached.push .completing (fun hb => nomatch hb) (fun _ _ heq => nomatch heq)
    (fun _ heq => nomatch heq) fun x hx => (hdetached.not_ending x hx).elim

end Mirrored

/-- A signal that the source may send. -/
structure Due (P : Plan σ α ε) (client : Client) (given : Option Handle)
    (emission : Option (Emission α)) (stack₀ : List (Frame α ε)) (s : Signal α ε) : Prop where
  handle : ∀ handle, s = .subscribe handle → given = none ∧ Granted emission handle
  offer : s.isOffer = true → client.conditional = true
  top : client.conditional = true → s.isOffer = atEmission stack₀
  ending : ∀ x, .ending 0 x ∈ stack₀ → stack₀ = [.ending 0 x] ∧ s.isSubscribe = true
  going : Going emission stack₀ → s.isTerminal = false
  error : ∀ e, s = .error e → P.source = .failed e

namespace Due

variable {P : Plan σ α ε} {client : Client} {given : Option Handle} {e : Emission α}
  {stack₀ stack : List (Frame α ε)}

/-! ### What the source sends -/

theorem greeting (x : Option ε) : Due P client none none [.ending 0 x] (.subscribe .empty) where
  handle := by
    intro handle heq
    cases heq
    exact ⟨rfl, .inl ⟨rfl, rfl⟩⟩
  offer hs := nomatch hs
  top _ := rfl
  ending := by
    intro y hy
    cases List.mem_singleton.mp hy
    exact ⟨rfl, rfl⟩
  going _ := rfl
  error _ heq := nomatch heq

theorem start (x : α) : Due P client none (some (.start x)) [] (.subscribe .emission) where
  handle := by
    intro handle heq
    cases heq
    exact ⟨rfl, .inr ⟨rfl, rfl⟩⟩
  offer hs := nomatch hs
  top _ := rfl
  ending _ hy := absurd hy List.not_mem_nil
  going _ := rfl
  error _ heq := nomatch heq

theorem ofEnd {x : Option ε} (herror : ∀ e, x = some e → P.source = .failed e) :
    Due P client given none [] (.ofEnd x) where
  handle := by cases x <;> exact fun _ heq => nomatch heq
  offer := by cases x <;> exact fun hs => nomatch hs
  top _ := by cases x <;> rfl
  ending _ hy := absurd hy List.not_mem_nil
  going := by
    rintro (⟨e, heq, -⟩ | ⟨y, hy⟩)
    · cases heq
    · cases hy
  error := by
    intro e heq
    cases x with
    | none => cases heq
    | some y =>
        cases heq
        exact herror _ rfl

theorem item {m : UInt64} {last : Bool} (x : α)
    (h : Mirrored P client given (some e) (.emitting 0 m last :: stack₀) stack) :
    Due P client given (some e) (.emitting 0 m last :: stack₀) (client.item x) where
  handle := by
    intro handle heq
    unfold Client.item at heq
    split at heq <;> cases heq
  offer := by
    intro hs
    unfold Client.item at hs
    split at hs
    next hconditional => exact hconditional
    next => cases hs
  top := by
    intro hconditional
    rw [Client.item, if_pos hconditional]
    rfl
  ending y hy := (h.not_ending y hy).elim
  going := by
    intro _
    unfold Client.item
    split <;> rfl
  error := by
    intro e heq
    unfold Client.item at heq
    split at heq <;> cases heq

theorem complete (hattached : e.attached = false)
    (h : Mirrored P client given (some e) (.completing 0 :: stack₀) stack) :
    Due P client given (some e) (.completing 0 :: stack₀) .complete where
  handle _ heq := nomatch heq
  offer hs := nomatch hs
  top _ := rfl
  ending y hy := (h.not_ending y hy).elim
  going hgoing := by
    rw [h.going_iff, hattached] at hgoing
    cases hgoing
  error _ heq := nomatch heq

/-! ### What comes of it -/

section

variable {emission : Option (Emission α)} {s : Signal α ε} {veil : List (Frame α ε)}

theorem isNew (h : Due P client given emission stack₀ s) (hs : s.isSubscribe = true) :
    given = none := by
  cases s with
  | subscribe handle => exact (h.handle handle rfl).1
  | _ => cases hs

theorem offering (h : Due P client given emission stack₀ s) (hs : s.isOffer = true) :
    client.conditional = true ∧ atEmission stack₀ = true :=
  ⟨h.offer hs, (h.top (h.offer hs)).symm.trans hs⟩

theorem received (h : Due P client given emission stack₀ s) (f : Handle → Handle) :
    (s.handle?.map f).toList ++ given.toList.map f = (s.handle?.or given).toList.map f := by
  cases s with
  | subscribe handle =>
      rw [(h.handle handle rfl).1]
      rfl
  | _ => rfl

theorem received_bare (h : Due P client given emission stack₀ s) :
    (s.mapError TapError.source).handle?.toList ++ given.toList = (s.handle?.or given).toList := by
  have hid := h.received id
  rw [List.map_id, List.map_id, Option.map_id] at hid
  cases s <;> exact hid

theorem granted (h : Due P client given emission stack₀ s)
    (hgiven : ∀ handle, given = some handle → Granted emission handle) :
    ∀ handle, s.handle?.or given = some handle → Granted emission handle := by
  intro handle hsome
  cases s with
  | subscribe _ =>
      cases hsome
      exact (h.handle handle rfl).2
  | _ => exact hgiven handle hsome

theorem conveys (h : Due P client given emission stack₀ s) :
    P.Conveys [.heard (s.mapError .source).faceless] [.heard (P.delivered s).faceless] := by
  rw [P.delivered_faceless]
  refine ⟨rfl, fun hsource => ?_⟩
  cases s with
  | error e => exact (hsource e (h.error e rfl)).elim
  | _ => rfl

/-- The signal has come to the client, below a veil. -/
theorem heard (h : Due P client given emission stack₀ s)
    (hmirrored : Mirrored P client given emission stack₀ stack)
    (hveil : ∀ f ∈ veil, f.Veil P.depth ∧ f.isReleased = false ∧ f.isOffered = s.isOffer) :
    Mirrored P client (s.handle?.or given) emission
        (.outside (.client 0 (s.mapError .source)) :: stack₀)
        (.outside (.client 0 (P.delivered s)) :: (veil ++ stack)) ∧
      Veiled P client.conditional stack₀ (veil ++ stack) := by
  have hcovered : Mirrored P client given emission stack₀ (veil ++ stack) := by
    refine hmirrored.cover (fun f hf => (hveil f hf).1) (fun hconditional hemission f hf => ?_)
      fun f hf hreleased => ?_
    · rw [(hveil f hf).2.2, h.top hconditional, hemission]
    · rw [(hveil f hf).2.1] at hreleased
      cases hreleased
  refine ⟨(hcovered.push (.client s) (fun hs => h.offering ?_) (fun _ _ heq => nomatch heq)
    (fun _ heq => nomatch heq) fun x hx => ?_).grant (h.granted hmirrored.granted), hcovered.veiled⟩
  · cases s <;> exact hs
  · obtain ⟨hstack, hs⟩ := h.ending x hx
    exact ⟨hstack, s.mapError .source, by cases s <;> exact hs, rfl⟩

end

end Due

/-- The second machine has the taps of the plan, the first one has none, and apart from that they
are in the same state. -/
inductive Mirrors (P : Plan σ α ε) (client : Client) (ambient : Context) :
    State σ α ε → State σ α ε → Prop
  /-- The client is joined to what is before it. -/
  | joining {S : State σ α ε} {context context' : Context}
    (hlined : S.Lined P client [] none) (hstack : S.stack = [])
    (hfocus : S.focus = .call (.join 0 P.depth context')) :
    Mirrors P client ambient (.solo client ambient [] none [] (.call (.join 0 0 context))) S
  /-- The source sends a signal. -/
  | sending {S : State σ α ε} {given : Option Handle} {emission : Option (Emission α)}
    {stack₀ : List (Frame α ε)} {s : Signal α ε}
    (h : Mirrored P client given emission stack₀ S.stack)
    (hlined : S.Lined P client (given.toList.map (·.behind P.depth)) emission)
    (hmanned : ∀ j < P.depth, S.Manned given True j)
    (hdue : Due P client given emission stack₀ s)
    (hfocus : S.focus = .call (P.arrival s 0)) :
    Mirrors P client ambient
      (.solo client ambient given.toList emission stack₀
        (.call (.client 0 (s.mapError .source)))) S
  /-- The client uses its handle. -/
  | asking {S : State σ α ε} {handle : Handle} {emission : Option (Emission α)}
    {stack₀ : List (Frame α ε)} {c : Control}
    (h : Mirrored P client (some handle) emission stack₀ S.stack)
    (hlined : S.Lined P client [handle.behind P.depth] emission)
    (hmanned : ∀ j < P.depth, S.Manned (some handle) (Going emission stack₀) j)
    (hcancel : c.isCancel = true → ∀ x, .ending 0 x ∉ stack₀)
    (htop : atEmission stack₀ = false)
    (hfocus : S.focus = .call (.control 0 P.depth (handle.behind P.depth) c)) :
    Mirrors P client ambient
      (.solo client ambient [handle] emission stack₀ (.call (.control 0 0 handle c))) S
  /-- The loop of the emission goes round. -/
  | looping {S : State σ α ε} {given : Option Handle} {e : Emission α}
    {stack₀ : List (Frame α ε)} {m : UInt64}
    (h : Mirrored P client given (some e) stack₀ S.stack)
    (hlined : S.Lined P client (given.toList.map (·.behind P.depth)) (some e))
    (hmanned : ∀ j < P.depth, S.Manned given (Going (some e) stack₀) j)
    (hfocus : S.focus = .call (.emit 0 m)) :
    Mirrors P client ambient
      (.solo client ambient given.toList (some e) stack₀ (.call (.emit 0 m))) S
  /-- A call has returned. -/
  | back {S : State σ α ε} {given : Option Handle} {emission : Option (Emission α)}
    {stack₀ : List (Frame α ε)} {b : Bool}
    (h : Mirrored P client given emission stack₀ S.stack)
    (hlined : S.Lined P client (given.toList.map (·.behind P.depth)) emission)
    (hmanned : ∀ j < P.depth, S.Manned given (Going emission stack₀) j)
    (hb : b = false → client.conditional = true ∧ atEmission stack₀ = true)
    (hfocus : S.focus = .back b) :
    Mirrors P client ambient (.solo client ambient given.toList emission stack₀ (.back b)) S
  /-- The client has the turn. -/
  | outside {S : State σ α ε} {given : Option Handle} {emission : Option (Emission α)}
    {stack₀ : List (Frame α ε)} {b : Bool}
    (h : Mirrored P client given emission stack₀ S.stack)
    (hlined : S.Lined P client (given.toList.map (·.behind P.depth)) emission)
    (hmanned : ∀ j < P.depth, S.Manned given (Going emission stack₀) j)
    (hbared : Bared P client.conditional stack₀ S.stack)
    (hfocus : S.focus = .outside b) :
    Mirrors P client ambient (.solo client ambient given.toList emission stack₀ (.outside b)) S

end Wiretap

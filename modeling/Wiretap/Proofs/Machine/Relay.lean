import Wiretap.Proofs.Machine.Dialogue
import Wiretap.Proofs.Machine.Lines
import Wiretap.Proofs.Tap.Relaying

/-!
# Chains that pass things on

Where no listener fails, a signal goes down a chain of taps step by step, and so does a control go
up. Both leave frames behind, a veil over the calls that wait, and when the call returns the veil is
lifted again. The client hears nothing of all that.
-/

namespace Wiretap

variable {K : Kinds} {σ α ε : Type}

/-- From `S` the machine gets to the last state, and meanwhile the client is told this. -/
inductive State.Steps (P : Plan σ α ε) : State σ α ε → List (Utterance α ε) → State σ α ε → Prop
  /-- Nothing happens. -/
  | refl (S : State σ α ε) : Steps P S [] S
  /-- A step comes first. -/
  | step {S T U : State σ α ε} {events : List (Event α ε)} {d : List (Utterance α ε)} :
    S.step? P = some (T, events) → Steps P T d U → Steps P S (told events ++ d) U

namespace State

variable {P : Plan σ α ε} {S T U : State σ α ε} {d later : List (Utterance α ε)}

theorem Steps.trans (first : Steps P S d T) (second : Steps P T later U) :
    Steps P S (d ++ later) U := by
  induction first with
  | refl S => exact second
  | step hstep _ ih =>
      rw [List.append_assoc]
      exact .step hstep (ih second)

theorem Steps.silent {events : List (Event α ε)} (hstep : S.step? P = some (T, events))
    (hquiet : heardBy 0 events = []) (h : Steps P T d U) : Steps P S d U := by
  have hsteps := Steps.step hstep h
  rwa [told, hquiet] at hsteps

/-- Who has the turn waits for nothing. -/
theorem Steps.of_turn (h : Steps P S d U) {b : Bool} (hturn : S.focus = .outside b) :
    d = [] ∧ U = S := by
  cases h with
  | refl => exact ⟨rfl, rfl⟩
  | step hstep _ =>
      rw [(step?_eq_none_iff P).mpr ⟨b, hturn⟩] at hstep
      cases hstep

/-- The machine has one line. -/
def Lined (P : Plan σ α ε) (client : Client) (received : List Handle)
    (emission : Option (Emission α)) (S : State σ α ε) : Prop :=
  ∃ taps, S.lines = [⟨client, received, taps, emission⟩] ∧ taps.length = P.depth

/-- The tap at a place is there and relays. -/
def Manned (S : State σ α ε) (given : Option Handle) (live : Prop) (k : Nat) : Prop :=
  ∃ t, S.tap? 0 k = some t ∧ t.Relays given live k

section

variable {client : Client} {received : List Handle} {emission : Option (Emission α)}
  {given given' : Option Handle} {live live' : Prop} {k : Nat}

theorem Manned.of_lines (h : S.Manned given live k) (hlines : U.lines = S.lines) :
    U.Manned given live k := by
  obtain ⟨t, htap, ht⟩ := h
  exact ⟨t, by rwa [tap?_eq hlines], ht⟩

theorem Manned.weaken (h : S.Manned given live k) (hlive : live' → live) :
    S.Manned given live' k := by
  obtain ⟨t, htap, ht⟩ := h
  exact ⟨t, htap, ht.weaken hlive⟩

theorem Lined.of_lines (h : S.Lined P client received emission) (hlines : U.lines = S.lines) :
    U.Lined P client received emission := by
  rwa [Lined, hlines]

theorem Lined.setTap (h : S.Lined P client received emission) (place : Nat) (t : Tap σ) :
    (S.setTap 0 place t).Lined P client received emission := by
  obtain ⟨taps, hlines, hlength⟩ := h
  refine ⟨taps.set place (some t), ?_, by rw [List.length_set, hlength]⟩
  simp [State.setTap, modifyLine, hlines, Line.setTap]

theorem Lined.hasPlace (h : S.Lined P client received emission) (hk : k < P.depth) :
    S.HasPlace 0 k := by
  obtain ⟨taps, hlines, hlength⟩ := h
  exact ⟨_, by rw [hlines]; rfl, by rwa [hlength]⟩

theorem Lined.isConditional (h : S.Lined P client received emission) :
    S.isConditional 0 = client.conditional := by
  obtain ⟨taps, hlines, -⟩ := h
  simp [State.isConditional, hlines]

theorem manned_setTap_self (h : S.Lined P client received emission) (hk : k < P.depth) {t : Tap σ}
    (ht : t.Relays given live k) : (S.setTap 0 k t).Manned given live k :=
  ⟨t, setTap_tap?_self (h.hasPlace hk) t, ht⟩

theorem Manned.setTap_other {j : Nat} (h : S.Manned given live j) (hj : j ≠ k) (t : Tap σ) :
    (S.setTap 0 k t).Manned given live j := by
  obtain ⟨t', htap, ht'⟩ := h
  exact ⟨t', by rwa [setTap_tap?_other fun heq => hj heq.2], ht'⟩

end

end State

section

variable {P : Plan σ α ε} {S U : State σ α ε} {rest : List (Frame α ε)} {k : Nat}
  {turn : Tap.Turn σ α ε} {next : Tap.Next α ε} {given : Option Handle} {live : Prop}
  {client : Client} {received : List Handle} {emission : Option (Emission α)}

/-- After the turn of a tap the line is as it was, up to that tap. -/
theorem Turned.lined (h : Turned P S rest 0 k turn U) (hgoes : turn.Goes next given live k)
    (hlined : S.Lined P client received emission) (hk : k < P.depth) :
    U.Lined P client received emission ∧ U.Manned given live k ∧
      ∀ j given live, j ≠ k → S.Manned given live j → U.Manned given live j := by
  refine ⟨(hlined.setTap k turn.tap).of_lines h.lines, ?_, fun j given live hj hmanned => ?_⟩
  · exact (State.manned_setTap_self hlined hk hgoes.tap).of_lines h.lines
  · exact (hmanned.setTap_other hj turn.tap).of_lines h.lines

/-- Where all taps relay alike, they do so after the turn of one of them. -/
theorem Turned.manned (h : Turned P S rest 0 k turn U) (hgoes : turn.Goes next given live k)
    (hlined : S.Lined P client received emission) (hk : k < P.depth)
    (hmanned : ∀ j < P.depth, S.Manned given live j) : ∀ j < P.depth, U.Manned given live j := by
  obtain ⟨-, hhere, hother⟩ := h.lined hgoes hlined hk
  intro j hj
  by_cases hjk : j = k
  · subst hjk
    exact hhere
  · exact hother j _ _ hjk (hmanned j hj)

end

/-- Nothing in the plan can fail. -/
def Plan.Faultless (P : Plan σ α ε) : Prop := ∀ p ∈ P.taps, p.Faultless

namespace Frame

/-- A frame of a tap before place `n`, or of its assembly, whose return changes nothing. -/
def Veil (n : Nat) : Frame α ε → Prop
  | .joining .. => True
  | .tap line place _ r => line = 0 ∧ place < n ∧ r.isVeil = true
  | _ => False

/-- Has an offer been passed on? -/
def isOffered : Frame α ε → Bool
  | .tap _ _ _ r => r.isOffered
  | _ => false

/-- Has a cancellation been passed on? -/
def isReleased : Frame α ε → Bool
  | .tap _ _ _ r => r.isReleased
  | _ => false

end Frame

namespace Plan

/-- The call by which a signal of the source arrives behind `k` taps. -/
def arrival (P : Plan σ α ε) (s : Signal α ε) : Nat → Call α ε
  | 0 => P.sourceSignal 0 s
  | k + 1 => P.signal 0 (k + 1) ((s.behind P.adapt k).passedOn (.tap k))

theorem arrival_of_lt {P : Plan σ α ε} {k : Nat} (hk : k < P.depth) (s : Signal α ε) :
    P.arrival s k = .tap 0 k (s.behind P.adapt k) := by
  cases k with
  | zero => rw [arrival, sourceSignal, if_pos hk, Signal.behind_zero]
  | succ k => rw [arrival, signal, if_pos hk, Signal.behind_succ]

end Plan

namespace State

variable {P : Plan σ α ε} {S T U : State σ α ε} {client : Client} {received : List Handle}
  {emission : Option (Emission α)} {given : Option Handle} {live : Prop}

theorem plan_of_lt {k : Nat} (hk : k < P.depth) : ∃ p, P.taps[k]? = some p ∧ p ∈ P.taps :=
  ⟨_, List.getElem?_eq_getElem hk, List.getElem_mem hk⟩

/-- A signal goes down the chain. -/
theorem Lined.descend (hP : P.Faultless) {s : Signal α ε}
    (hhandle : s.isSubscribe = true → given = none)
    (hoffer : s.isOffer = true → client.conditional = true) {m k : Nat} (hkm : k + m = P.depth)
    (hlined : S.Lined P client received emission) (hfocus : S.focus = .call (P.arrival s k))
    (hbefore : ∀ j < k, S.Manned (s.handle?.or given) (s.isTerminal = false) j)
    (hafter : ∀ j, k ≤ j → j < P.depth → S.Manned given True j) :
    ∃ U veil, Steps P S [] U ∧ U.Lined P client received emission ∧
      U.focus = .call (P.arrival s P.depth) ∧ U.stack = veil ++ S.stack ∧
      (∀ f ∈ veil, f.Veil P.depth ∧ f.isReleased = false ∧ f.isOffered = s.isOffer) ∧
      ∀ j < P.depth, U.Manned (s.handle?.or given) (s.isTerminal = false) j := by
  induction m generalizing k S with
  | zero =>
      obtain rfl : k = P.depth := hkm
      exact ⟨S, [], .refl S, hlined, hfocus, rfl, fun _ hf => absurd hf List.not_mem_nil, hbefore⟩
  | succ m ih =>
      have hk : k < P.depth := by omega
      obtain ⟨p, hplan, hmem⟩ := plan_of_lt hk
      obtain ⟨t, htap, ht⟩ := hafter k (Nat.le_refl k) hk
      rw [Plan.arrival_of_lt hk] at hfocus
      obtain ⟨T, events, hstep, hshows, hturned⟩ := step?_serve hfocus rfl hplan htap
      rw [served, hlined.isConditional] at hturned
      obtain ⟨r, hveil, hreleased, hoffered, hgoes⟩ :=
        ht.receive ((hP p hmem).listener _) P.adapt hhandle hoffer
      obtain ⟨hlined', hhere, hother⟩ := hturned.lined hgoes hlined hk
      have hnext := hturned.next
      rw [hgoes.next] at hnext
      obtain ⟨⟨guard, hstack⟩, hfocus'⟩ := hnext
      change T.focus = .call (P.arrival s (k + 1)) at hfocus'
      obtain ⟨U, veil, hsteps, hU, hUfocus, hUstack, hframes, hmanned⟩ :=
        ih (by omega) hlined' hfocus'
          (fun j hj => by
            rcases Nat.lt_succ_iff_lt_or_eq.mp hj with hlt | rfl
            · exact hother j _ _ (by omega) (hbefore j hlt)
            · exact hhere)
          (fun j hj hdepth => hother j _ _ (by omega) (hafter j (by omega) hdepth))
      refine ⟨U, veil ++ [.tap 0 k guard r], .silent hstep (hshows.clients 0) hsteps, hU, hUfocus,
        ?_, ?_, hmanned⟩
      · rw [hUstack, hstack, List.append_assoc]
        rfl
      · intro f hf
        rcases List.mem_append.mp hf with hf | hf
        · exact hframes f hf
        · cases List.mem_singleton.mp hf
          exact ⟨⟨rfl, hk, hveil⟩, hreleased, hoffered⟩

/-- A control goes up the chain. -/
theorem Lined.ascend (hP : P.Faultless) {h : Handle} {c : Control} (hc : c ≠ .request 0) {k : Nat}
    (hk : k ≤ P.depth) (hlined : S.Lined P client received emission)
    (hfocus : S.focus = .call (.control 0 k (h.behind k) c))
    (hmanned : ∀ j < P.depth, S.Manned (some h) live j) :
    ∃ U veil, Steps P S [] U ∧ U.Lined P client received emission ∧
      U.focus = .call (.control 0 0 h c) ∧ U.stack = veil ++ S.stack ∧
      (∀ f ∈ veil, f.Veil P.depth ∧ f.isReleased = c.isCancel ∧ f.isOffered = false) ∧
      ∀ j < P.depth, U.Manned (some h) live j := by
  induction k generalizing S with
  | zero =>
      exact ⟨S, [], .refl S, hlined, hfocus, rfl, fun _ hf => absurd hf List.not_mem_nil, hmanned⟩
  | succ k ih =>
      obtain ⟨p, hplan, hmem⟩ := plan_of_lt (Nat.lt_of_succ_le hk)
      obtain ⟨t, htap, ht⟩ := hmanned k hk
      obtain ⟨T, events, hstep, hshows, hturned⟩ := step?_serve hfocus rfl hplan htap
      obtain ⟨r, hveil, hreleased, hoffered, hgoes⟩ :=
        ht.obey ((hP p hmem).listener _) (S.isConditional 0) hc
      have hlined' := (hturned.lined hgoes hlined hk).1
      have hnext := hturned.next
      rw [hgoes.next] at hnext
      obtain ⟨⟨guard, hstack⟩, hfocus'⟩ := hnext
      have hmanned' := hturned.manned hgoes hlined hk hmanned
      obtain ⟨U, veil, hsteps, hU, hUfocus, hUstack, hframes, hmannedU⟩ :=
        ih (by omega) hlined' hfocus' hmanned'
      refine ⟨U, veil ++ [.tap 0 k guard r], .silent hstep (hshows.clients 0) hsteps, hU, hUfocus,
        ?_, ?_, hmannedU⟩
      · rw [hUstack, hstack, List.append_assoc]
        rfl
      · intro f hf
        rcases List.mem_append.mp hf with hf | hf
        · exact hframes f hf
        · cases List.mem_singleton.mp hf
          exact ⟨⟨rfl, hk, hveil⟩, hreleased, hoffered⟩

/-- A tap is set up. -/
theorem step?_setUp {k : Nat} {context : Context} {p : TapPlan σ α ε} (hp : p.Faultless)
    (hplan : P.taps[k]? = some p) (hfocus : S.focus = .call (.join 0 (k + 1) context)) :
    ∃ U events listener augmented guard, S.step? P = some (U, events) ∧ heardBy 0 events = [] ∧
      U.lines = (S.setTap 0 k (.start listener augmented)).lines ∧
      U.stack = .joining 0 k guard :: S.stack ∧ U.focus = .call (.join 0 k augmented) := by
  obtain ⟨listener, hcreate⟩ := hp.creates S.ambient (S.created[k]?.getD 0 + 1) context
  have hok := Tap.setUp_faultless (hp.listener S.ambient) listener context
  rcases setUp_cases (p.listener S.ambient) listener context with
    ⟨acts, f, hsetUp, -⟩ | ⟨listener', augmented, hsetUp⟩
  · rw [hsetUp] at hok
    obtain ⟨_, _, hok⟩ := hok
    cases hok
  have hstep : S.step? P = some (make P S (.join 0 (k + 1) context)) := by rw [step?, hfocus]
  simp only [make, join, setUpTap, hplan, hcreate, hsetUp] at hstep
  refine ⟨_, _, listener', augmented, _, hstep, ?_, rfl, rfl, rfl⟩
  simp [Event.heard?]

/-- All taps are set up, from the last one to the first. -/
theorem Lined.assemble (hP : P.Faultless) {k : Nat} (hk : k ≤ P.depth) {context : Context}
    (hlined : S.Lined P client received emission) (hfocus : S.focus = .call (.join 0 k context))
    (hmanned : ∀ j, k ≤ j → j < P.depth → S.Manned none True j) :
    ∃ U veil context', Steps P S [] U ∧ U.Lined P client received emission ∧
      U.focus = .call (.join 0 0 context') ∧ U.stack = veil ++ S.stack ∧
      (∀ f ∈ veil, f.Veil P.depth ∧ f.isReleased = false) ∧
      ∀ j < P.depth, U.Manned none True j := by
  induction k generalizing S context with
  | zero =>
      exact ⟨S, [], context, .refl S, hlined, hfocus, rfl,
        fun _ hf => absurd hf List.not_mem_nil, fun j => hmanned j (Nat.zero_le j)⟩
  | succ k ih =>
      obtain ⟨p, hplan, hmem⟩ := plan_of_lt (Nat.lt_of_succ_le hk)
      obtain ⟨T, events, listener, augmented, guard, hstep, hquiet, hlines, hstack, hfocus'⟩ :=
        step?_setUp (hP p hmem) hplan hfocus
      have hlined' : T.Lined P client received emission := (hlined.setTap k _).of_lines hlines
      have hmanned' : ∀ j, k ≤ j → j < P.depth → T.Manned none True j := by
        intro j hj hdepth
        rcases Nat.eq_or_lt_of_le hj with rfl | hlt
        · exact (manned_setTap_self hlined hdepth (Tap.Relays.start _ _)).of_lines hlines
        · exact ((hmanned j hlt hdepth).setTap_other (by omega) _).of_lines hlines
      obtain ⟨U, veil, context', hsteps, hU, hUfocus, hUstack, hframes, hmannedU⟩ :=
        ih (by omega) hlined' hfocus' hmanned'
      refine ⟨U, veil ++ [.joining 0 k guard], context', .silent hstep hquiet hsteps, hU, hUfocus,
        ?_, ?_, hmannedU⟩
      · rw [hUstack, hstack, List.append_assoc]
        rfl
      · intro f hf
        rcases List.mem_append.mp hf with hf | hf
        · exact hframes f hf
        · cases List.mem_singleton.mp hf
          exact ⟨trivial, rfl⟩

/-- A veil is lifted: the calls below it get the answer, or learn at least that all went well. -/
theorem Lined.lift (hP : P.Faultless) {b : Bool} {veil rest : List (Frame α ε)}
    (hlined : S.Lined P client received emission) (hfocus : S.focus = .back b)
    (hstack : S.stack = veil ++ rest) (hveil : ∀ f ∈ veil, f.Veil P.depth)
    (hoffered : b = false → ∀ f ∈ veil, f.isOffered = true)
    (hreleased : ∀ f ∈ veil, f.isReleased = true → ¬live)
    (hmanned : ∀ j < P.depth, S.Manned given live j) :
    ∃ U, Steps P S [] U ∧ U.Lined P client received emission ∧ U.focus = .back b ∧
      U.stack = rest ∧ ∀ j < P.depth, U.Manned given live j := by
  induction veil generalizing S with
  | nil => exact ⟨S, .refl S, hlined, hfocus, hstack, hmanned⟩
  | cons f veil ih =>
      have hthen : ∀ {T : State σ α ε} {events : List (Event α ε)},
          S.step? P = some (T, events) → heardBy 0 events = [] →
          T.Lined P client received emission → T.focus = .back b → T.stack = veil ++ rest →
          (∀ j < P.depth, T.Manned given live j) →
          ∃ U, Steps P S [] U ∧ U.Lined P client received emission ∧ U.focus = .back b ∧
            U.stack = rest ∧ ∀ j < P.depth, U.Manned given live j := by
        intro T events hstep hquiet hT hTfocus hTstack hTmanned
        obtain ⟨U, hsteps, hU⟩ := ih hT hTfocus hTstack
          (fun f hf => hveil f (List.mem_cons_of_mem _ hf))
          (fun hb f hf => hoffered hb f (List.mem_cons_of_mem _ hf))
          (fun f hf => hreleased f (List.mem_cons_of_mem _ hf)) hTmanned
        exact ⟨U, .silent hstep hquiet hsteps, hU⟩
      have hf := hveil f List.mem_cons_self
      cases f with
      | joining line place guard =>
          have hb : b = true := by
            cases b with
            | true => rfl
            | false => exact (Bool.noConfusion (hoffered rfl _ List.mem_cons_self))
          subst hb
          have hstep : S.step? P = some (resume P { S with stack := veil ++ rest } true
              (.joining line place guard)) := by
            rw [step?, hfocus]
            dsimp only
            rw [hstack]
            rfl
          exact hthen hstep rfl (hlined.of_lines rfl) rfl rfl
            fun j hj => (hmanned j hj).of_lines rfl
      | tap line k guard r =>
          obtain ⟨rfl, hk, hr⟩ := hf
          obtain ⟨p, hplan, hmem⟩ := plan_of_lt hk
          obtain ⟨t, htap, ht⟩ := hmanned k hk
          obtain ⟨T, events, hstep, hshows, hturned⟩ := step?_resume hfocus hstack hplan htap
          have hgoes :=
            ht.resume ((hP p hmem).listener S.ambient) hr (hreleased _ List.mem_cons_self) b
          have hlined' := (hturned.lined hgoes hlined hk).1
          have hnext := hturned.next
          rw [hgoes.next] at hnext
          have hanswer : (!r.isOffered || b) = b := by
            cases b with
            | true => rw [Bool.or_true]
            | false =>
                have hr := hoffered rfl _ List.mem_cons_self
                change r.isOffered = true at hr
                rw [hr]
                rfl
          rw [hanswer] at hnext
          exact hthen hstep (hshows.clients 0) hlined' hnext.2 hnext.1
            (hturned.manned hgoes hlined hk hmanned)
      | _ => exact hf.elim

end State

end Wiretap

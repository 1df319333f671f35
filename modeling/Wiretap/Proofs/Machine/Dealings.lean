import Wiretap.Proofs.Machine.Calls
import Wiretap.Proofs.Machine.Callbacks
import Wiretap.Proofs.Machine.Dialogue
import Wiretap.Proofs.Tap.Dealing

/-!
# What a single tap does with items and errors in a run

Between a source and a client that do as they like, a tap is called at any time, also while other
calls of it are open. The client's verdict on an item that it was offered is the answer of its
callback, and it belongs to the call in which the item was offered. With that every call of the tap
accounts for what it was made for by the time when it returns.
-/

namespace Wiretap

variable {K : Kinds} {σ α ε : Type}

/-- What a history says of a client: the callbacks in progress, and for every open call of the tap
before it what the client has answered to offers, both with the innermost first. -/
structure Hearing (α ε : Type) where
  callbacks : List (Callback α ε)
  verdicts : List (List Bool)

namespace Hearing

/-- The verdicts after a deed of the tap: a new call has none, and those of a call that returns are
forgotten. -/
def attend (verdicts : List (List Bool)) : Tap.Deed α ε → List (List Bool)
  | .received _ => [] :: verdicts
  | .returned _ => verdicts.tail
  | _ => verdicts

/-- The client has answered an offer that was made in the innermost call. -/
def judge (b : Bool) : List (List Bool) → List (List Bool)
  | [] => []
  | first :: others => (first ++ [b]) :: others

/-- What is known of the client of a line after one more entry. -/
def after (line : Nat) (h : Hearing α ε) : Entry α ε → Hearing α ε
  | .event e =>
    ⟨(e.called?.map Prod.fst).toList ++ h.callbacks,
      (e.deed? line 0).elim h.verdicts (attend h.verdicts)⟩
  | .move (.answer b) =>
    match h.callbacks with
    | .client l (.offer _) :: rest => ⟨rest, if l = line then judge b h.verdicts else h.verdicts⟩
    | callbacks => { h with callbacks := callbacks.tail }
  | .move _ => h

end Hearing

/-- What is known of the client of a line after a history. -/
def hearing (line : Nat) (history : List (Entry α ε)) : Hearing α ε :=
  history.foldl (Hearing.after line) ⟨[], []⟩

theorem hearing_append (line : Nat) (history later : List (Entry α ε)) :
    hearing line (history ++ later) = later.foldl (Hearing.after line) (hearing line history) :=
  List.foldl_append

theorem hearing_events (line : Nat) (history : List (Entry α ε)) (events : List (Event α ε)) :
    hearing line (history ++ events.map .event) =
      ⟨((called events).map Prod.fst).reverse ++ (hearing line history).callbacks,
        (deeds line 0 events).foldl Hearing.attend (hearing line history).verdicts⟩ := by
  rw [hearing_append]
  induction events generalizing history with
  | nil => rfl
  | cons e events ih =>
      have hhead := ih (history ++ [.event e])
      rw [hearing_append] at hhead
      rw [List.map_cons, List.foldl_cons]
      refine hhead.trans ?_
      rw [called_cons, deeds_cons, List.foldl_append]
      simp only [List.foldl_cons, List.foldl_nil, Hearing.after]
      cases e.called? <;> cases e.deed? line 0 <;> simp

/-- Whenever the tap of a line has returned in the history, its innermost open call accounted for
what it was made for, and it had called its neighbours three times at most. -/
def Settles (line : Nat) (history : List (Entry α ε)) : Prop :=
  ∀ before b later, history = before ++ .event (.returned line 0 b) :: later →
    ∃ call outer v others, openCalls line 0 (happened before) = call :: outer ∧
      (hearing line before).verdicts = v :: others ∧ call.Accounts v b ∧ call.length ≤ 3

/-- A tap that returns at the end of a turn has done the acts of the turn before that. -/
theorem Tap.Turn.answer_of_begun {turn : Tap.Turn σ α ε} {b : Bool}
    {begun first later : List (Tap.Deed α ε)} (hbegun : ∀ b, .returned b ∉ begun)
    (h : begun ++ turn.deeds = first ++ .returned b :: later) :
    turn.next = .answer b ∧ first = begun ++ turn.acts.map .acted := by
  rcases append_eq_append_cons h with ⟨middle, hmiddle⟩ | ⟨rest, rfl, hrest⟩
  · exact absurd (by simp [hmiddle]) (hbegun b)
  · rcases append_eq_append_cons hrest with ⟨middle, hmiddle⟩ | ⟨last, rfl, hlast⟩
    · have hmem : .returned b ∈ turn.acts.map (.acted : Tap.Act α ε → Tap.Deed α ε) := by
        simp [hmiddle]
      obtain ⟨act, -, heq⟩ := List.mem_map.mp hmem
      cases heq
    · cases hnext : turn.next <;> rw [hnext] at hlast <;> cases last <;>
        simp [Tap.Next.deeds] at hlast
      simp [hlast]

/-- The calls that wait on a line that consists of one tap, with the open calls of the tap and the
verdicts in them. A tap that has made an offer waits for the client, and the client has not
answered yet. -/
inductive Dealings (line : Nat) :
    List (Frame α ε) → List (Tap.OpenCall α ε) → List (List Bool) → Prop
  | nil : Dealings line [] [] []
  /-- The tap waits, but not for a verdict. -/
  | tap {guard : Guard} {r : Tap.Resume α ε} {rest : List (Frame α ε)} {call : Tap.OpenCall α ε}
    {calls : List (Tap.OpenCall α ε)} {v : List Bool} {verdicts : List (List Bool)}
    (hr : r.isOffered = false) (hdeals : call.Deals v r) (hbrief : call.length + r.rank ≤ 3)
    (hrest : Dealings line rest calls verdicts) :
    Dealings line (.tap line 0 guard r :: rest) (call :: calls) (v :: verdicts)
  /-- The tap waits for a verdict. -/
  | offered {guard : Guard} {x : α} {rest : List (Frame α ε)} {call : Tap.OpenCall α ε}
    {calls : List (Tap.OpenCall α ε)} {verdicts : List (List Bool)}
    (hdeals : call.Deals [] (.offered x)) (hbrief : call.length ≤ 1)
    (hrest : Dealings line rest calls verdicts) :
    Dealings line (.outside (.client line (.offer x)) :: .tap line 0 guard (.offered x) :: rest)
      (call :: calls) ([] :: verdicts)
  /-- Something else waits. -/
  | other {f : Frame α ε} {rest : List (Frame α ε)} {calls : List (Tap.OpenCall α ε)}
    {verdicts : List (List Bool)} (hf : f.resume? line 0 = none)
    (hclient : ∀ x, f ≠ .outside (.client line (.offer x)))
    (hrest : Dealings line rest calls verdicts) : Dealings line (f :: rest) calls verdicts

namespace Dealings

variable {line : Nat} {f : Frame α ε} {rest stack : List (Frame α ε)}
  {calls : List (Tap.OpenCall α ε)} {verdicts : List (List Bool)}

theorem pop (h : Dealings line (f :: rest) calls verdicts) (hf : f.resume? line 0 = none)
    (hclient : ∀ x, f ≠ .outside (.client line (.offer x))) :
    Dealings line rest calls verdicts := by
  cases h with
  | tap => simp [Frame.resume?] at hf
  | offered => exact absurd rfl (hclient _)
  | other _ _ hrest => exact hrest

/-- Where the tap does not wait it has no open call. -/
theorem vacant (h : Dealings line stack calls verdicts)
    (hvacant : ∀ guard r, .tap line 0 guard r ∉ stack) : calls = [] ∧ verdicts = [] := by
  induction h with
  | nil => exact ⟨rfl, rfl⟩
  | tap => exact absurd List.mem_cons_self (hvacant _ _)
  | offered => exact absurd (List.mem_cons_of_mem _ List.mem_cons_self) (hvacant _ _)
  | other _ _ _ ih => exact ih fun guard r hmem => hvacant guard r (List.mem_cons_of_mem _ hmem)

theorem brief (h : Dealings line stack calls verdicts) : ∀ call ∈ calls, call.length ≤ 3 := by
  induction h with
  | nil => simp
  | tap _ _ hbrief _ ih =>
      rintro call (_ | ⟨_, hmem⟩)
      · omega
      · exact ih call hmem
  | offered _ hbrief _ ih =>
      rintro call (_ | ⟨_, hmem⟩)
      · omega
      · exact ih call hmem
  | other _ _ _ ih => exact ih

end Dealings

namespace State

variable {P : Plan σ α ε} {S U : State σ α ε} {line : Nat} {before events : List (Event α ε)}
  {calls : List (Tap.OpenCall α ε)} {verdicts : List (List Bool)}

/-- The tap of a line has made an offer, and the client is about to get it or has just answered. -/
structure Offering (S : State σ α ε) (line : Nat) (calls : List (Tap.OpenCall α ε))
    (verdicts : List (List Bool)) (x : α) (guard : Guard) (rest : List (Frame α ε))
    (call : Tap.OpenCall α ε) (v : List Bool) (outer : List (Tap.OpenCall α ε))
    (others : List (List Bool)) : Prop where
  stack : S.stack = .tap line 0 guard (.offered x) :: rest
  calls : calls = call :: outer
  verdicts : verdicts = v :: others
  deals : call.Deals v (.offered x)
  brief : call.length ≤ 1
  rest : Dealings line rest outer others
  focus : S.focus = .call (.client line (.offer x)) ∧ v = [] ∨ ∃ b, S.focus = .back b ∧ v = [b]

/-- The open calls of the tap of a line, and the verdicts in them, are those of the calls that
wait. -/
inductive Deals (S : State σ α ε) (line : Nat) (calls : List (Tap.OpenCall α ε))
    (verdicts : List (List Bool)) : Prop
  /-- No offer is on its way. -/
  | plain (hdealings : Dealings line S.stack calls verdicts)
    (hfocus : ∀ x, S.focus ≠ .call (.client line (.offer x)))
  /-- An offer is on its way to the client, or its answer on the way back. -/
  | offering {x : α} {guard : Guard} {rest : List (Frame α ε)} {call : Tap.OpenCall α ε}
    {v : List Bool} {outer : List (Tap.OpenCall α ε)} {others : List (List Bool)}
    (h : S.Offering line calls verdicts x guard rest call v outer others)

/-! ## How the open calls change -/

/-- Nothing has happened to the tap. -/
theorem calls_rest {place : Nat} (hstep : S.step? P = some (U, events))
    (hdeeds : deeds line place events = []) (hdue : U.due line place = []) :
    U.calls line place (before ++ events) = S.calls line place before := by
  rw [State.calls, hdue, step?_calls hstep before (List.append_nil events).symm (by simp), hdeeds]
  rfl

/-- The tap has taken a turn in a call. -/
theorem calls_turned {place : Nat} {turn : Tap.Turn σ α ε} (begun : List (Tap.Deed α ε))
    {rest : List (Frame α ε)} {call : Tap.OpenCall α ε} {outer : List (Tap.OpenCall α ε)}
    (hstep : S.step? P = some (U, events)) (hturned : Turned P S rest line place turn U)
    (hdeeds : deeds line place events = begun ++ turn.deeds)
    (hbegun : begun.foldl Tap.Deed.file (S.calls line place before) = call :: outer) :
    U.calls line place (before ++ events) = Tap.Record.callsAfter call outer turn := by
  rw [State.calls, due_of_turned hturned,
    step?_calls hstep before (List.append_nil events).symm (by simp), hdeeds, List.foldl_append,
    hbegun, foldl_file_turn]

theorem attend_acted (acts : List (Tap.Act α ε)) (verdicts : List (List Bool)) :
    (acts.map (.acted : Tap.Act α ε → Tap.Deed α ε)).foldl Hearing.attend verdicts = verdicts := by
  induction acts with
  | nil => rfl
  | cons act acts ih => exact ih

/-- The verdicts after a turn of the tap in a call with these. -/
theorem attend_turn (turn : Tap.Turn σ α ε) (v : List Bool) (others : List (List Bool)) :
    turn.deeds.foldl Hearing.attend (v :: others) =
      match turn.next.resume? with
      | some _ => v :: others
      | none => others := by
  rw [Tap.Turn.deeds, List.foldl_append, attend_acted]
  cases turn.next <;> rfl

namespace Deals

/-- A call that makes no offer finds no offer on its way. -/
theorem of_call {c : Call α ε} (h : S.Deals line calls verdicts) (hfocus : S.focus = .call c)
    (hc : ∀ x, c ≠ .client line (.offer x)) : Dealings line S.stack calls verdicts := by
  cases h with
  | plain hdealings => exact hdealings
  | @offering x guard rest call v outer others h =>
      rcases h.focus with ⟨hoffer, -⟩ | ⟨b, hback, -⟩
      · rw [hoffer] at hfocus
        cases hfocus
        exact absurd rfl (hc x)
      · rw [hback] at hfocus
        cases hfocus

theorem of_outside {b : Bool} (h : S.Deals line calls verdicts) (hfocus : S.focus = .outside b) :
    Dealings line S.stack calls verdicts := by
  cases h with
  | plain hdealings => exact hdealings
  | offering h =>
      rcases h.focus with ⟨hoffer, -⟩ | ⟨b, hback, -⟩
      · rw [hoffer] at hfocus
        cases hfocus
      · rw [hback] at hfocus
        cases hfocus

/-- A frame that does not belong to the tap goes on, so no offer is on its way. -/
theorem of_top {f : Frame α ε} {rest : List (Frame α ε)} (h : S.Deals line calls verdicts)
    (hstack : S.stack = f :: rest) (hf : f.resume? line 0 = none) :
    Dealings line (f :: rest) calls verdicts := by
  cases h with
  | plain hdealings => exact hstack ▸ hdealings
  | offering h =>
      have htop := h.stack.symm.trans hstack
      rw [List.cons.injEq] at htop
      rw [← htop.1] at hf
      simp [Frame.resume?] at hf

theorem of_push {f : Frame α ε} {stack : List (Frame α ε)}
    (h : Dealings line stack calls verdicts) (hstack : U.stack = f :: stack)
    (hf : f.resume? line 0 = none) (hclient : ∀ x, f ≠ .outside (.client line (.offer x)))
    (hfocus : ∀ x, U.focus ≠ .call (.client line (.offer x))) : U.Deals line calls verdicts :=
  .plain (hstack ▸ .other hf hclient h) hfocus

theorem of_same {stack : List (Frame α ε)} (h : Dealings line stack calls verdicts)
    (hstack : U.stack = stack) (hfocus : ∀ x, U.focus ≠ .call (.client line (.offer x))) :
    U.Deals line calls verdicts := .plain (hstack ▸ h) hfocus

/-- The tap has taken a turn in a call. -/
theorem turned (hdepth : P.depth = 1) {rest : List (Frame α ε)} {turn : Tap.Turn σ α ε}
    {call : Tap.OpenCall α ε} {outer : List (Tap.OpenCall α ε)} {v : List Bool}
    {others : List (List Bool)} {n : Nat} (hturned : Turned P S rest line 0 turn U)
    (htrades : turn.Trades call v) (hshort : turn.Short n) (hbrief : call.length + n ≤ 3)
    (hrest : Dealings line rest outer others) :
    U.Deals line (Tap.Record.callsAfter call outer turn)
      (turn.deeds.foldl Hearing.attend (v :: others)) := by
  have hnext := hturned.next
  rw [attend_turn, Tap.Record.callsAfter]
  have hlength : ∀ r, turn.next.resume? = some r →
      (call.did turn.doings).length + r.rank ≤ 3 := by
    intro r hr
    have hrank := hshort r hr
    have hone : turn.doings.countP Tap.Doing.isCall ≤ 1 := by
      rw [Tap.Turn.doings, List.countP_append, Tap.countP_isCall_acts]
      cases turn.next <;> simp [Tap.Next.doings, Tap.Doing.isCall]
    rw [Tap.OpenCall.length_did]
    omega
  cases hturn : turn.next with
  | answer b =>
      rw [hturn] at hnext
      exact of_same hrest hnext.1 (by simp [hnext.2])
  | up h c r =>
      rw [hturn] at hnext
      obtain ⟨⟨guard, hstack⟩, hfocus⟩ := hnext
      have hr : turn.next.resume? = some r := by rw [hturn]; rfl
      exact .plain
        (hstack ▸ .tap (htrades.asks h c r hturn) (htrades.deals r hr) (hlength r hr) hrest)
        (by simp [hfocus])
  | down s r =>
      rw [hturn] at hnext
      obtain ⟨⟨guard, hstack⟩, hfocus⟩ := hnext
      have hr : turn.next.resume? = some r := by rw [hturn]; rfl
      have hcall : U.focus = .call (.client line s) := by
        rw [hfocus, Plan.signal, if_neg (by omega)]
      rcases htrades.offers s r hturn with ⟨x, rfl, rfl, rfl⟩ | ⟨hs, hoffered⟩
      · refine .offering ⟨hstack, rfl, rfl, htrades.deals _ hr, ?_, hrest, .inl ⟨hcall, rfl⟩⟩
        have hle := hlength _ hr
        simp only [Tap.Resume.rank] at hle
        omega
      · refine .plain (hstack ▸ .tap hoffered (htrades.deals r hr) (hlength r hr) hrest) fun x => ?_
        rw [hcall]
        rintro ⟨⟩
        cases hs

/-- The tap is called. -/
theorem serve (hdepth : P.depth = 1) (h : S.Deals line (S.calls line 0 before) verdicts)
    (hstep : S.step? P = some (U, events)) {c : Call α ε} {input : Tap.Input α ε}
    {p : TapPlan σ α ε} {t : Tap σ} (hfocus : S.focus = .call c)
    (hinput : c.input? = some (line, 0, input))
    (hturned : Turned P S S.stack line 0 (S.served p t line 0 input) U)
    (hdeeds : deeds line 0 events = .received input :: (S.served p t line 0 input).deeds) :
    U.Deals line (U.calls line 0 (before ++ events))
      ((deeds line 0 events).foldl Hearing.attend verdicts) := by
  have hrest := h.of_call hfocus fun x heq => by rw [heq] at hinput; cases hinput
  rw [calls_turned [.received input] hstep hturned hdeeds rfl, hdeeds]
  exact turned hdepth hturned (Tap.serve_trades (p.listener _) _ _ input)
    (Tap.serve_short (p.listener _) _ _ input) (Nat.le_refl 3) hrest

/-- The tap goes on. -/
theorem resume (hdepth : P.depth = 1) (h : S.Deals line (S.calls line 0 before) verdicts)
    (hstep : S.step? P = some (U, events)) {b : Bool} {guard : Guard} {r : Tap.Resume α ε}
    {rest : List (Frame α ε)} {p : TapPlan σ α ε} {t : Tap σ} (hfocus : S.focus = .back b)
    (hstack : S.stack = .tap line 0 guard r :: rest)
    (hturned : Turned P S rest line 0 (t.resume (p.listener S.ambient) r b) U)
    (hdeeds : deeds line 0 events = (t.resume (p.listener S.ambient) r b).deeds) :
    ∃ call outer v others, S.calls line 0 before = call :: outer ∧ verdicts = v :: others ∧
      (t.resume (p.listener S.ambient) r b).Trades call v ∧ call.length + r.rank ≤ 3 ∧
      U.Deals line (U.calls line 0 (before ++ events))
        ((deeds line 0 events).foldl Hearing.attend verdicts) := by
  suffices hopen : ∃ call outer v others, S.calls line 0 before = call :: outer ∧
      verdicts = v :: others ∧ call.Deals v r ∧ (r.isOffered = true → v = [b]) ∧
      call.length + r.rank ≤ 3 ∧ Dealings line rest outer others by
    obtain ⟨call, outer, v, others, hcalls, rfl, hdeals, hverdict, hbrief, hrest⟩ := hopen
    have htrades := Tap.resume_trades (t := t) (p.listener S.ambient) hdeals hverdict
    refine ⟨call, outer, v, others, hcalls, rfl, htrades, hbrief, ?_⟩
    rw [calls_turned [] hstep hturned hdeeds hcalls, hdeeds]
    exact turned hdepth hturned htrades (Tap.resume_short (p.listener _) r b) hbrief hrest
  cases h with
  | plain hdealings _ =>
      rw [hstack] at hdealings
      generalize hcalls : S.calls line 0 before = calls at hdealings ⊢
      cases hdealings with
      | tap hr hdeals hbrief hrest =>
          refine ⟨_, _, _, _, rfl, rfl, hdeals, fun hoffered => ?_, hbrief, hrest⟩
          rw [hr] at hoffered
          cases hoffered
      | other hf => simp [Frame.resume?] at hf
  | offering hoffering =>
      have htop := hoffering.stack.symm.trans hstack
      rw [List.cons.injEq, Frame.tap.injEq] at htop
      obtain ⟨⟨-, -, rfl, rfl⟩, rfl⟩ := htop
      refine ⟨_, _, _, _, hoffering.calls, hoffering.verdicts, hoffering.deals, fun _ => ?_, ?_,
        hoffering.rest⟩
      · rcases hoffering.focus with ⟨hoffer, -⟩ | ⟨b', hback, rfl⟩
        · rw [hoffer] at hfocus
          cases hfocus
        · rw [hback] at hfocus
          cases hfocus
          rfl
      · have hbrief := hoffering.brief
        simp only [Tap.Resume.rank]
        omega

/-- A tap of another line has taken a turn. -/
theorem turned_other (hdepth : P.depth = 1) {rest : List (Frame α ε)} {turn : Tap.Turn σ α ε}
    {l place : Nat} (hother : ¬(line = l ∧ 0 = place)) (hplace : place < P.depth)
    (hturned : Turned P S rest l place turn U) (hrest : Dealings line rest calls verdicts) :
    U.Deals line calls verdicts := by
  have hline : l ≠ line := fun heq => hother ⟨heq.symm, by omega⟩
  have hfocus : ∀ x, U.focus ≠ .call (.client line (.offer x)) := by
    intro x heq
    rcases hturned.focus with ⟨b, hnext⟩ | ⟨s, hnext⟩ | ⟨handle, c, hnext⟩
    · rw [hnext] at heq
      cases heq
    · rw [hnext, Plan.signal, if_neg (by omega)] at heq
      cases heq
      exact hline rfl
    · rw [hnext] at heq
      cases heq
  rcases hturned.stack with ⟨-, hstack⟩ | ⟨guard, r, -, hstack⟩
  · exact of_same hrest hstack hfocus
  · refine of_push hrest hstack ?_ (by simp) hfocus
    simp [Frame.resume?, hline]

/-- The loop of an emission goes on, so no offer is on its way. -/
theorem of_emitting {l : Nat} {rest : List (Frame α ε)} (h : S.Deals line calls verdicts)
    (hemitting : S.Emitting l rest) : Dealings line rest calls verdicts := by
  rcases hemitting with ⟨n, hfocus, rfl⟩ | ⟨b, n, last, -, hstack⟩
  · exact h.of_call hfocus (by simp)
  · exact (h.of_top hstack rfl).pop rfl (by simp)

/-- The client is told something. -/
theorem hear (h : S.Deals line calls verdicts) {l : Nat} {s : Signal α (TapError ε)}
    (hfocus : S.focus = .call (.client l s)) (hstack : U.stack = .outside (.client l s) :: S.stack)
    (hnext : U.focus = .outside true) : U.Deals line calls verdicts := by
  cases h with
  | plain hdealings hno =>
      refine of_push hdealings hstack rfl (fun x heq => ?_) (by simp [hnext])
      rw [Frame.outside.injEq, Callback.client.injEq] at heq
      obtain ⟨rfl, rfl⟩ := heq
      exact hno x hfocus
  | offering h =>
      rcases h.focus with ⟨hoffer, rfl⟩ | ⟨b, hback, -⟩
      · rw [hoffer] at hfocus
        cases hfocus
        refine .plain ?_ (by simp [hnext])
        rw [hstack, h.stack, h.calls, h.verdicts]
        exact .offered h.deals h.brief h.rest
      · rw [hback] at hfocus
        cases hfocus

theorem step (hdepth : P.depth = 1) (hassembled : S.Assembled P)
    (h : S.Deals line (S.calls line 0 before) verdicts) (hstep : S.step? P = some (U, events)) :
    U.Deals line (U.calls line 0 (before ++ events))
      ((deeds line 0 events).foldl Hearing.attend verdicts) := by
  -- Nothing happens to the tap.
  have hkeep : deeds line 0 events = [] → U.due line 0 = [] →
      U.Deals line (S.calls line 0 before) verdicts →
      U.Deals line (U.calls line 0 (before ++ events))
        ((deeds line 0 events).foldl Hearing.attend verdicts) := by
    intro hdeeds hdue hdeals
    rw [calls_rest hstep hdeeds hdue, hdeeds]
    exact hdeals
  -- The tap is set up, or could not be.
  have hborn : ∀ {l place : Nat} {context : Context} {shown : List (Tap.Deed α ε)},
      S.focus = .call (.join l (place + 1) context) → Shows l place shown events →
      shown.foldl Tap.Deed.file ([] : List (Tap.OpenCall α ε)) = [] →
      shown.foldl Hearing.attend [] = [] → U.due line 0 = [] →
      U.Deals line (S.calls line 0 before) verdicts →
      U.Deals line (U.calls line 0 (before ++ events))
        ((deeds line 0 events).foldl Hearing.attend verdicts) := by
    intro l place context shown hfocus hshows hfile hattend hdue hdeals
    by_cases hhere : line = l ∧ 0 = place
    · obtain ⟨rfl, rfl⟩ := hhere
      have hjoining := hassembled.joining _ _ _ hfocus
      obtain ⟨hnone, rfl⟩ := (h.of_call hfocus (by simp)).vacant fun guard r hmem => by
        have htap := hassembled.waiting line 0 guard r hmem
        rw [hjoining.before 0 (Nat.lt_succ_self 0)] at htap
        cases htap
      have hcalls : U.calls line 0 (before ++ events) = [] := by
        rw [State.calls, hdue, step?_calls hstep before (List.append_nil events).symm (by simp),
          hshows.here, hnone, hfile]
        rfl
      rw [hcalls, hshows.here, hattend]
      rwa [hnone] at hdeals
    · exact hkeep (hshows.elsewhere line 0 hhere) hdue hdeals
  have hsignal : ∀ (l position : Nat) (s : Signal α (TapError ε)), s.isOffer = false →
      ∀ x, (Focus.call (P.signal l position s) : Focus α ε) ≠ .call (.client line (.offer x)) := by
    intro l position s hs x heq
    unfold Plan.signal at heq
    split at heq
    · cases heq
    · cases heq
      cases hs
  have hsource : ∀ (l : Nat) (s : Signal α ε) (x : α),
      (Focus.call (P.sourceSignal l s) : Focus α ε) ≠ .call (.client line (.offer x)) := by
    intro l s x heq
    rw [Plan.sourceSignal, if_pos (by omega)] at heq
    cases heq
  cases step?_stepped hstep with
  | @serve c l place input p t hfocus hinput hplan htap hturned hshows =>
      by_cases hhere : line = l ∧ 0 = place
      · obtain ⟨rfl, rfl⟩ := hhere
        exact h.serve hdepth hstep hfocus hinput hturned hshows.here
      · have hrest := h.of_call hfocus fun x heq => by rw [heq] at hinput; cases hinput
        exact hkeep (hshows.elsewhere line 0 hhere) (due_of_turned_other hhere hturned)
          (turned_other hdepth hhere (List.getElem?_eq_some_iff.mp hplan).1 hturned hrest)
  | @resume b l place guard r rest p t hfocus hstack hplan htap hturned hshows =>
      by_cases hhere : line = l ∧ 0 = place
      · obtain ⟨rfl, rfl⟩ := hhere
        obtain ⟨-, -, -, -, -, -, -, -, hdeals⟩ :=
          h.resume hdepth hstep hfocus hstack hturned hshows.here
        exact hdeals
      · have hnone := resume?_other hhere guard r
        have hrest := (h.of_top hstack hnone).pop hnone (by simp)
        exact hkeep (hshows.elsewhere line 0 hhere) (due_of_turned_other hhere hturned)
          (turned_other hdepth hhere (List.getElem?_eq_some_iff.mp hplan).1 hturned hrest)
  | setUp hfocus hplan hlines hstack hnext hshows =>
      refine hborn hfocus hshows rfl rfl (by rw [due, hnext]) ?_
      exact of_push (h.of_call hfocus (by simp)) hstack rfl (by simp) (by simp [hnext])
  | refuse hfocus hplan hlines hstack hnext hfails hshows =>
      refine hborn hfocus hshows ?_ ?_ (due_of_signal hnext) ?_
      · cases hfails <;> rfl
      · cases hfails <;> rfl
      · refine of_push (h.of_call hfocus (by simp)) hstack rfl (by simp) fun x => ?_
        rw [hnext]
        exact hsignal _ _ _ rfl x
  | explain hfocus hstack hlines hrest hnext hquiet =>
      refine hkeep (hquiet.deeds line 0) (due_of_signal hnext) ?_
      refine of_same ((h.of_top hstack rfl).pop rfl (by simp)) hrest fun x => ?_
      rw [hnext]
      exact hsignal _ _ _ rfl x
  | hear hfocus hlines hstack hnext hevents =>
      exact hkeep (by rw [hevents]; rfl) (due_of_outside hnext) (h.hear hfocus hstack hnext)
  | callOut hfocus hcall hlines hstack hnext hquiet =>
      refine hkeep (hquiet.deeds line 0) (due_of_outside hnext) ?_
      refine of_push (h.of_call hfocus fun x heq => ?_) hstack rfl (fun x heq => ?_)
        (by simp [hnext])
      · rcases hcall with ⟨l, position, id, ctl, rfl, -⟩ | ⟨l, context, rfl, -⟩ <;> cases heq
      · rcases hcall with ⟨l, position, id, ctl, -, rfl⟩ | ⟨l, context, -, rfl⟩ <;> cases heq
  | endStream hfocus hlines hstack hnext hquiet =>
      refine hkeep (hquiet.deeds line 0) (due_of_sourceSignal hnext) ?_
      refine of_push (h.of_call hfocus (by simp)) hstack rfl (by simp) fun x => ?_
      rw [hnext]
      exact hsource _ _ x
  | ended hfocus hstack hlines hrest hnext hs hquiet =>
      refine hkeep (hquiet.deeds line 0) (due_of_sourceSignal hnext) ?_
      refine of_same ((h.of_top hstack rfl).pop rfl (by simp)) hrest fun x => ?_
      rw [hnext]
      exact hsource _ _ x
  | startEmission hfocus hlines hstack hnext hquiet =>
      refine hkeep (hquiet.deeds line 0) (due_of_sourceSignal hnext) ?_
      refine of_same (h.of_call hfocus (by simp)) hstack fun x => ?_
      rw [hnext]
      exact hsource _ _ x
  | @emit l rest f s hemitting hlines hframe hstack hnext hs hquiet =>
      refine hkeep (hquiet.deeds line 0) (due_of_sourceSignal hnext) ?_
      have hforeign : f.isPassive = true := by
        rcases hframe with ⟨n, last, rfl⟩ | rfl <;> rfl
      refine of_push (h.of_emitting hemitting) hstack ?_ (fun x heq => ?_) fun x => ?_
      · cases f <;> first | rfl | cases hforeign
      · rw [heq] at hforeign
        cases hforeign
      · rw [hnext]
        exact hsource _ _ x
  | loop hemitting hlines hstack hnext hquiet =>
      refine hkeep (hquiet.deeds line 0) (by rw [due, hnext]) ?_
      refine of_same ?_ hstack (by simp [hnext])
      rcases hemitting with hemitting | ⟨position, k, hfocus, rfl⟩
      · exact h.of_emitting hemitting
      · exact h.of_call hfocus (by simp)
  | idle hfocus hcall hclient hlines hstack hnext hquiet =>
      refine hkeep (hquiet.deeds line 0) (due_of_back hnext) ?_
      exact of_same (h.of_call hfocus fun x => hclient _ _) hstack (by simp [hnext])
  | pop hfocus hstack hframe hlines hrest hnext hquiet =>
      have hnone : Frame.resume? line 0 _ = none :=
        resume?_foreign (foreign_of_pop hassembled hstack hframe)
      refine hkeep (hquiet.deeds line 0) (due_of_back hnext) ?_
      refine of_same ((h.of_top hstack hnone).pop hnone fun x heq => ?_) hrest (by simp [hnext])
      rcases hframe with hpassive | ⟨l, place, guard, r, htap, -⟩
      · rw [heq] at hpassive
        cases hpassive
      · rw [heq] at htap
        cases htap
  | handOver hfocus hstack hlines hsame hnext hquiet =>
      refine hkeep (hquiet.deeds line 0) (due_of_outside hnext) ?_
      cases h with
      | plain hdealings hno => exact of_same hdealings hsame (by simp [hnext])
      | offering h =>
          rw [h.stack] at hstack
          rcases hstack with hnil | ⟨c, rest, hcons⟩
          · cases hnil
          · cases hcons

/-- In a move the outside makes a call of its own, or a callback of its is over. -/
theorem move (hdepth : P.depth = 1) {m : Move α ε} {now : Hearing α ε}
    (h : S.Deals line (S.calls line 0 before) now.verdicts)
    (hcallbacks : now.callbacks = S.callbacks) (hmove : S.move? P m = some U) :
    U.Deals line (U.calls line 0 before) (now.after line (.move m)).verdicts ∧
      (now.after line (.move m)).callbacks = U.callbacks := by
  have hkeep : ∀ {b : Bool}, S.focus = .outside b → U.stack = S.stack →
      (∀ x, U.focus ≠ .call (.client line (.offer x))) → U.due line 0 = [] →
      U.Deals line (U.calls line 0 before) now.verdicts ∧ now.callbacks = U.callbacks := by
    intro b hturn hstack hfocus hdue
    have hcalls : U.calls line 0 before = S.calls line 0 before := by
      rw [State.calls, State.calls, hdue, due_of_outside hturn]
    rw [hcalls, hcallbacks, callbacks, callbacks, hstack]
    exact ⟨of_same (h.of_outside hturn) hstack hfocus, rfl⟩
  have huse : ∀ (l : Nat) (h' : Handle) (c : Control), U.focus = .call (.control l P.depth h' c) →
      U.due line 0 = [] := by
    intro l h' c hnext
    have hne : ¬(l = line ∧ P.depth = 0) := by omega
    simp [due, hnext, hne]
  cases m with
  | answer b =>
      obtain ⟨⟨b', hturn⟩, callback, rest, hstack, rfl⟩ := move?_answer_eq_some hmove
      have hdealings := h.of_outside hturn
      rw [hstack] at hdealings
      have hcalls : State.calls (({ S with stack := rest } : State σ α ε).back (callback.answer b))
          line 0 before = S.calls line 0 before := by
        rw [State.calls, State.calls, due_of_back rfl, due_of_outside hturn]
      have hpopped : S.callbacks = callback ::
          (({ S with stack := rest } : State σ α ε).back (callback.answer b)).callbacks := by
        rw [callbacks, hstack]
        rfl
      rw [hpopped] at hcallbacks
      rw [hcalls, Hearing.after, hcallbacks]
      generalize S.calls line 0 before = calls at hdealings ⊢
      generalize now.verdicts = verdicts at hdealings ⊢
      cases hdealings with
      | offered hdeals hbrief hrest =>
          refine ⟨.offering (v := [b]) ⟨rfl, rfl, ?_, hdeals, hbrief, hrest, .inr ⟨b, rfl, rfl⟩⟩,
            rfl⟩
          dsimp only
          rw [if_pos rfl]
          rfl
      | other hf hclient hrest =>
          have hother : ∀ l x, callback = .client l (.offer x) → l ≠ line := by
            rintro l x rfl rfl
            exact hclient x rfl
          split
          next l x later heq =>
            obtain ⟨rfl, rfl⟩ := List.cons.inj heq
            dsimp only
            rw [if_neg (hother l x rfl)]
            exact ⟨of_same hrest rfl (by simp [back]), rfl⟩
          next => exact ⟨of_same hrest rfl (by simp [back]), rfl⟩
  | subscribe client =>
      cases move?_moved hmove with
      | subscribe hturn hlines hstack hnext =>
          exact hkeep hturn hstack (by simp [hnext]) (by rw [due, hnext])
  | signal l s =>
      cases move?_moved hmove with
      | signal hturn hlines hstack hnext =>
          refine hkeep hturn hstack (fun x heq => ?_) (due_of_sourceSignal hnext)
          rw [hnext, Plan.sourceSignal, if_pos (by omega)] at heq
          cases heq
  | control l nth c =>
      cases move?_moved hmove with
      | control hturn hreceived hlines hstack hnext =>
          exact hkeep hturn hstack (by simp [hnext]) (huse _ _ _ hnext)
  | direct l c =>
      cases move?_moved hmove with
      | direct hturn hlines hstack hnext =>
          exact hkeep hturn hstack (by simp [hnext]) (huse _ _ _ hnext)

end Deals

/-- A call of the tap returns in a step. -/
theorem step?_returned (hdepth : P.depth = 1)
    (h : S.Deals line (S.calls line 0 before) verdicts) (hstep : S.step? P = some (U, events))
    {first later : List (Event α ε)} {b : Bool}
    (hevents : events = first ++ .returned line 0 b :: later) :
    ∃ call outer v others, openCalls line 0 (before ++ first) = call :: outer ∧
      (deeds line 0 first).foldl Hearing.attend verdicts = v :: others ∧
      call.Accounts v b ∧ call.length ≤ 3 := by
  have hsplit : deeds line 0 events =
      deeds line 0 first ++ .returned b :: deeds line 0 later := by
    rw [hevents, deeds_append, deeds_cons]
    simp [Event.deed?]
  -- The tap answers in a turn, after what it did at first.
  suffices hturn : ∃ (turn : Tap.Turn σ α ε) (begun : List (Tap.Deed α ε))
      (call : Tap.OpenCall α ε) (outer : List (Tap.OpenCall α ε)) (v : List Bool)
      (others : List (List Bool)), deeds line 0 events = begun ++ turn.deeds ∧
        (∀ b, .returned b ∉ begun) ∧
        begun.foldl Tap.Deed.file (S.calls line 0 before) = call :: outer ∧
        begun.foldl Hearing.attend verdicts = v :: others ∧ turn.Trades call v ∧
        call.length ≤ 3 by
    obtain ⟨turn, begun, call, outer, v, others, hdeeds, hbegun, hcalls, hverdicts, htrades,
      hbrief⟩ := hturn
    obtain ⟨hnext, hfirst⟩ := Tap.Turn.answer_of_begun hbegun (hdeeds.symm.trans hsplit)
    have haccounts := htrades.returns b hnext
    have hdoings : turn.doings = turn.acts.map .act := by
      simp [Tap.Turn.doings, hnext, Tap.Next.doings]
    refine ⟨call.did (turn.acts.map .act), outer, v, others, ?_, ?_, hdoings ▸ haccounts, ?_⟩
    · rw [step?_calls hstep before hevents (by simp [Event.isUse]), hfirst, List.foldl_append,
        hcalls, foldl_note_acted]
    · rw [hfirst, List.foldl_append, hverdicts, attend_acted]
    · rwa [Tap.OpenCall.length_did, Tap.countP_isCall_acts]
  have hmem : .returned b ∈ deeds line 0 events := by simp [hsplit]
  have hquiet : deeds line 0 events = [] → False := fun hnone => by simp [hnone] at hmem
  have hborn : ∀ {l place : Nat} {shown : List (Tap.Deed α ε)}, Shows l place shown events →
      .returned b ∉ shown → False := by
    intro l place shown hshows hnot
    by_cases hhere : line = l ∧ 0 = place
    · obtain ⟨rfl, rfl⟩ := hhere
      exact hnot (hshows.here ▸ hmem)
    · exact hquiet (hshows.elsewhere line 0 hhere)
  cases step?_stepped hstep with
  | @serve c l place input p t hfocus hinput hplan htap hturned hshows =>
      by_cases hhere : line = l ∧ 0 = place
      · obtain ⟨rfl, rfl⟩ := hhere
        exact ⟨_, [.received input], ⟨input, []⟩, _, [], _, hshows.here, by simp, rfl, rfl,
          Tap.serve_trades (p.listener _) _ _ input, Nat.zero_le 3⟩
      · exact (hquiet (hshows.elsewhere line 0 hhere)).elim
  | @resume b' l place guard r rest p t hfocus hstack hplan htap hturned hshows =>
      by_cases hhere : line = l ∧ 0 = place
      · obtain ⟨rfl, rfl⟩ := hhere
        obtain ⟨call, outer, v, others, hcalls, hverdicts, htrades, hbrief, -⟩ :=
          h.resume hdepth hstep hfocus hstack hturned hshows.here
        exact ⟨_, [], call, outer, v, others, hshows.here, by simp, hcalls, hverdicts, htrades,
          Nat.le_of_add_right_le hbrief⟩
      · exact (hquiet (hshows.elsewhere line 0 hhere)).elim
  | setUp hfocus hplan hlines hstack hnext hshows => exact (hborn hshows (by simp)).elim
  | refuse hfocus hplan hlines hstack hnext hfails hshows =>
      exact (hborn hshows (by cases hfails <;> simp)).elim
  | hear hfocus hlines hstack hnext hevents' =>
      rw [hevents'] at hquiet
      exact (hquiet rfl).elim
  | explain hfocus hstack hlines hrest hnext hquiet' => exact (hquiet (hquiet'.deeds line 0)).elim
  | callOut hfocus hcall hlines hstack hnext hquiet' => exact (hquiet (hquiet'.deeds line 0)).elim
  | endStream hfocus hlines hstack hnext hquiet' => exact (hquiet (hquiet'.deeds line 0)).elim
  | ended hfocus hstack hlines hrest hnext hs hquiet' =>
      exact (hquiet (hquiet'.deeds line 0)).elim
  | startEmission hfocus hlines hstack hnext hquiet' => exact (hquiet (hquiet'.deeds line 0)).elim
  | emit hemitting hlines hframe hstack hnext hs hquiet' =>
      exact (hquiet (hquiet'.deeds line 0)).elim
  | loop hemitting hlines hstack hnext hquiet' => exact (hquiet (hquiet'.deeds line 0)).elim
  | idle hfocus hcall hclient hlines hstack hnext hquiet' =>
      exact (hquiet (hquiet'.deeds line 0)).elim
  | pop hfocus hstack hframe hlines hrest hnext hquiet' =>
      exact (hquiet (hquiet'.deeds line 0)).elim
  | handOver hfocus hstack hlines hsame hnext hquiet' =>
      exact (hquiet (hquiet'.deeds line 0)).elim

/-- What is known of the tap of a line at a moment of a run: its open calls with the verdicts in
them, and that it accounted for what the calls that have returned were made for. -/
structure Dealt (S : State σ α ε) (history : List (Entry α ε)) (line : Nat) : Prop where
  callbacks : (hearing line history).callbacks = S.callbacks
  deals : S.Deals line (S.calls line 0 (happened history)) (hearing line history).verdicts
  settles : Settles line history

namespace Dealt

variable {history : List (Entry α ε)}

theorem step (hdepth : P.depth = 1) (hassembled : S.Assembled P) (h : S.Dealt history line)
    (hstep : S.step? P = some (U, events)) : U.Dealt (history ++ events.map .event) line where
  callbacks := by
    rw [hearing_events, h.callbacks]
    rcases step?_rings hstep with ⟨hcalled, hcallbacks⟩ | ⟨c, hrings, -⟩
    · have hnone : called events = [] := hcalled
      have hsame : U.callbacks = S.callbacks := hcallbacks
      rw [hnone, hsame]
      rfl
    · have hone : called events = [(c, S.ambient)] := hrings.called
      have hstack : U.stack = .outside c :: S.stack := hrings.stack
      rw [hone, State.callbacks, State.callbacks, hstack]
      rfl
  deals := by
    rw [happened_append, happened_map_event, hearing_events]
    exact h.deals.step hdepth hassembled hstep
  settles := by
    intro before b later hsplit
    rcases append_eq_append_cons hsplit with ⟨middle, hold⟩ | ⟨first, rfl, hnew⟩
    · exact h.settles before b middle hold
    · obtain ⟨first, rest, rfl, rfl, hrest⟩ := List.map_eq_append_iff.mp hnew
      obtain ⟨e, rest, rfl, he, -⟩ := List.map_eq_cons_iff.mp hrest
      cases he
      rw [happened_append, happened_map_event, hearing_events]
      exact step?_returned hdepth h.deals hstep rfl

theorem move (hdepth : P.depth = 1) (h : S.Dealt history line) {m : Move α ε}
    (hmove : S.move? P m = some U) : U.Dealt (history ++ [.move m]) line := by
  obtain ⟨hdeals, hcallbacks⟩ := h.deals.move hdepth h.callbacks hmove
  refine ⟨?_, ?_, ?_⟩
  · rwa [hearing_append]
  · rwa [happened_append, happened_move, List.append_nil, hearing_append]
  · intro before b later hsplit
    rcases append_eq_append_cons hsplit with ⟨middle, hold⟩ | ⟨first, -, hnew⟩
    · exact h.settles before b middle hold
    · cases first <;> simp at hnew

theorem run (hdepth : P.depth = 1) (hassembled : S.Assembled P) (h : S.Dealt [] line)
    {history : List (Entry α ε)} (hrun : Run P S history U) : U.Dealt history line := by
  induction hrun with
  | refl => exact h
  | step hrun hstep ih => exact ih.step hdepth (hassembled.run hrun) hstep
  | move hrun hmove ih => exact ih.move hdepth hmove

theorem startTap (P : Plan σ α ε) (client : Client) (listener : σ) (context ambient : Context)
    (line : Nat) : (State.startTap P client listener context ambient).Dealt [] line where
  callbacks := rfl
  deals := .plain .nil (by simp [State.startTap, State.start])
  settles := fun before b later hsplit => by cases before <;> cases hsplit

/-- At any time a tap has called its neighbours in each open call three times at most. -/
theorem brief (h : S.Dealt history line) :
    ∀ call ∈ openCalls line 0 (happened history), call.length ≤ 3 := by
  have hcalls : ∀ call ∈ S.calls line 0 (happened history), call.length ≤ 3 := by
    cases h.deals with
    | plain hdealings _ => exact hdealings.brief
    | offering hoffering =>
        rw [hoffering.calls]
        rintro call (_ | ⟨_, hmem⟩)
        · exact Nat.le_trans hoffering.brief (by decide)
        · exact hoffering.rest.brief call hmem
  -- The use of a handle that is due only adds to the innermost call.
  have hdue : ∀ ds : List Control, (∀ call ∈ (ds.map .used).foldl (fun calls d => note d calls)
      (openCalls line 0 (happened history)), call.length ≤ 3) →
      ∀ call ∈ openCalls line 0 (happened history), call.length ≤ 3 := by
    intro ds
    generalize openCalls line 0 (happened history) = calls
    induction ds generalizing calls with
    | nil => exact id
    | cons c ds ih =>
        intro hnoted call hmem
        have hlater := ih (note (.used c) calls) hnoted
        cases calls with
        | nil => cases hmem
        | cons first rest =>
            rcases List.mem_cons.mp hmem with rfl | hmem
            · have hlength := hlater _ List.mem_cons_self
              rw [Tap.OpenCall.length_did] at hlength
              omega
            · exact hlater call (List.mem_cons_of_mem _ hmem)
  exact hdue _ hcalls

/-- When all has been said, no call is open. -/
theorem idle (h : S.Dealt history line) (hidle : S.isIdle = true) :
    openCalls line 0 (happened history) = [] := by
  obtain ⟨hstack, b, hfocus⟩ := isIdle_iff.mp hidle
  have hdealings := h.deals.of_outside hfocus
  rw [hstack, State.calls, due_of_outside hfocus] at hdealings
  exact (hdealings.vacant (by simp)).1

end Dealt

end State

end Wiretap
